import VirtualMemory.Segments

/-!
# Removing segments

`delete_segment_ind` gives back what the pages of a segment hold, page by page, and frees
the entry of the segment table. Where it comes to an end every page of the range has left
the segment; the entry itself may have been a free one.
-/

namespace VirtualMemory

open Function UserSpace KernelSystem PageTableL2Entry

namespace KernelInv

variable {g : Layout} {hand handC : Nat → Prop} {s s' : KernelSystem} {h m addr f : Nat}

/-- Control blocks of shared segments are nothing to the tables. -/
theorem setSscb (hinv : KernelInv g hand handC s) (b : Nat) (sscb : SsegControlBlock) :
    KernelInv g hand handC (s.setSscb b sscb) :=
  ⟨hinv.user, hinv.krnl_le, hinv.nodup, hinv.frames, hinv.typed, hinv.image, hinv.entries,
    hinv.tables, hinv.masters, hinv.stored, hinv.newborn, hinv.live, hinv.fresh⟩

theorem carried_setSscb (g : Layout) (s : KernelSystem) (b : Nat) (sscb : SsegControlBlock) :
    OnlyPaged g s g (s.setSscb b sscb) :=
  ⟨fun _ _ => ⟨.inl rfl, rfl⟩, fun t f _ hpin => by cases t <;> exact hpin, id, fun _ _ _ => rfl,
    fun _ _ hnone => ⟨hnone, fun _ => rfl⟩, fun _ _ haway => ⟨haway, fun _ => rfl⟩⟩

theorem dropUser_ok {ssegInd index : Nat} (hdrop : s.dropUser h ssegInd = .ok (index, s')) :
    ∃ b sscb, s' = s.setSscb b sscb := by
  unfold dropUser at hdrop
  obtain ⟨⟨b, sscb⟩, _, hrest⟩ := Outcome.bind_ok hdrop
  simp only at hrest
  split at hrest
  · cases hrest
  · cases hrest
    exact ⟨_, _, rfl⟩

/-- The descriptor that `access_ptl2` leads to is in memory. -/
theorem accessPtl2_ok {a : KAddr} (hinv : KernelInv g hand handC s) (hsound : g.Sound)
    (hm : g.place (.master h) = .frame m)
    (haccess : s.accessPtl2 addr ⟨m, slotCell (slotOf addr)⟩ = .ok a) :
    ∃ f, g.place (.table h (slotOf addr)) = .frame f ∧ a = ⟨f, cellOf addr⟩ := by
  have hagree := hinv.agrees hm (slotOf addr)
  cases hpl : g.place (.table h (slotOf addr)) with
  | frame f =>
      rw [hinv.accessPtl2_eq hm hpl] at haccess
      cases haccess
      exact ⟨f, rfl, rfl⟩
  | cluster c =>
      rw [hpl] at hagree
      unfold accessPtl2 at haccess
      rw [if_neg (by rw [hagree.1]; decide), if_pos hagree.1] at haccess
      cases haccess
  | gone =>
      rw [hpl] at hagree
      unfold accessPtl2 at haccess
      rw [if_pos (show _ = _ from hagree)] at haccess
      cases haccess
  | lost => exact absurd hpl (hsound h _ m hm)

/-- A descriptor that holds nothing for the user pages is cleared. -/
theorem clearEntry (hinv : KernelInv g hand handC s)
    (hf : g.place (.table h (slotOf addr)) = .frame f)
    (hshared : (g.desc (pageOf h addr)).getShared = true) :
    KernelInv (g.withDesc (update g.desc (pageOf h addr)
        ((g.desc (pageOf h addr)).setFlags 0#8))) hand handC
      (s.withUser (s.setPte ⟨f, cellOf addr⟩ ((g.desc (pageOf h addr)).setFlags 0#8))) ∧
    Carried (fun _ => False) (fun _ => False) (· = pageOf h addr) g s
      (g.withDesc (update g.desc (pageOf h addr) ((g.desc (pageOf h addr)).setFlags 0#8)))
      (s.withUser (s.setPte ⟨f, cellOf addr⟩ ((g.desc (pageOf h addr)).setFlags 0#8))) := by
  have hnr : ¬ (g.desc (pageOf h addr)).Resident := fun hr => by simp [hr.1] at hshared
  have hnp : ¬ (g.desc (pageOf h addr)).PagedOut := fun hp => by simp [hp.1] at hshared
  obtain ⟨huser, hbut⟩ := rewrite_inv (v := pageOf h addr) hinv.user
    (Layout.addr_of_frame hf _) hnr hnp (not_resident_cleared (g.desc (pageOf h addr)))
    (not_pagedOut_cleared _)
  obtain ⟨hinv', hcarried, _⟩ := hinv.userStep hf huser hbut
  exact ⟨hinv', hcarried⟩

/-- What `delete_segment_ind` does to one descriptor. -/
theorem deleteEntry_inv {doReleaseShared released released' : Bool}
    (hinv : KernelInv g hand handC s) (hf : g.place (.table h (slotOf addr)) = .frame f)
    (hdelete : deleteEntry h doReleaseShared released s ⟨f, cellOf addr⟩ = .ok (released', s')) :
    ∃ g', KernelInv g' hand handC s' ∧ g'.place = g.place ∧
      Carried (fun _ => False) (fun _ => False) (· = pageOf h addr) g s g' s' ∧
      s'.ssegVec = s.ssegVec ∧ (g'.desc (pageOf h addr)).getInseg = false ∧
      (g'.desc (pageOf h addr)).getShared = false := by
  have hread : s.mem ⟨f, cellOf addr⟩ = g.desc (pageOf h addr) := hinv.mem_eq hf _
  have hcleared : ∀ flag, ((g.desc (pageOf h addr)).setFlags 0#8).get flag = false :=
    fun flag => get_setFlags_zero ..
  unfold deleteEntry at hdelete
  simp only [hread] at hdelete
  split at hdelete
  · cases hdelete
  · rename_i hinseg
    split at hdelete
    · rename_i hshared
      split at hdelete
      · obtain ⟨⟨_, s₁⟩, hdrop, hret⟩ := Outcome.bind_ok hdelete
        obtain ⟨b, sscb, rfl⟩ := dropUser_ok hdrop
        have hsame : (s.setSscb b sscb).mem ⟨f, cellOf addr⟩ = g.desc (pageOf h addr) := hread
        simp only [hsame, Except.ok.injEq, Prod.mk.injEq] at hret
        obtain ⟨rfl, rfl⟩ := hret
        obtain ⟨hinv', hcarried⟩ := (hinv.setSscb b sscb).clearEntry hf hshared
        refine ⟨_, hinv', rfl, (carried_setSscb g s b sscb).carried.trans hcarried, rfl, ?_⟩
        simp [hcleared]
      · cases hdelete
        obtain ⟨hinv', hcarried⟩ := hinv.clearEntry hf hshared
        exact ⟨_, hinv', rfl, hcarried, rfl, by simp [hcleared]⟩
    · rename_i hshared
      obtain ⟨s₁, hrelease, hret⟩ := Outcome.bind_ok hdelete
      cases hret
      obtain ⟨us', hus, hs'⟩ := Outcome.bind_ok hrelease
      cases hs'
      obtain ⟨huser, hbut⟩ := releasePage_inv (v := pageOf h addr) hinv.user
        (Layout.addr_of_frame hf _) (by simpa using hshared) (by simpa using hinseg) hus
      obtain ⟨hinv', hcarried, hobjects⟩ := hinv.userStep hf huser hbut
      refine ⟨_, hinv', rfl, hcarried, rfl, ?_⟩
      rw [Layout.withDesc_desc, PageView.put_desc_self]
      exact ⟨hcleared .inSeg, hcleared .shared⟩

end KernelInv

namespace Working

variable {g : Layout} {s s' : KernelSystem} {h m : Nat} {doReleaseShared : Bool}

theorem deletePage_inv {startAddr i : Nat} {r r' : Bool × KernelSystem}
    (hwork : Working g h m r.2) (hdelete : deletePage h startAddr doReleaseShared r i = .ok r') :
    ∃ g', KernelInv g' noHand noHand r'.2 ∧
      Carried KTable.IsTable (fun _ => False) (· = pageOf h (pageAddr startAddr i)) g r.2 g' r'.2 ∧
      r'.2.ssegVec = r.2.ssegVec ∧
      (g'.desc (pageOf h (pageAddr startAddr i))).getInseg = false ∧
      (g'.desc (pageOf h (pageAddr startAddr i))).getShared = false := by
  obtain ⟨released, s⟩ := r
  unfold deletePage at hdelete
  simp only [hwork.inv.accessPtl1_eq hwork.master.1, deref, Outcome.ok_bind] at hdelete
  split at hdelete
  · cases hdelete
  · obtain ⟨⟨pt, s₁⟩, hlock, hrest⟩ := Outcome.bind_ok hdelete
    obtain ⟨ptl2e, hptl2, hrest₁⟩ := Outcome.bind_ok hrest
    obtain ⟨⟨released', s₂⟩, hentry, hret⟩ := Outcome.bind_ok hrest₁
    cases hret
    obtain ⟨g₁, hinv₁, hpaged, hobjects₁, hin⟩ :=
      hwork.inv.pageTableLock_inv hwork.sound hwork.master hlock
    have haccess : s₁.accessPtl2 (pageAddr startAddr i)
        ⟨m, slotCell (slotOf (pageAddr startAddr i))⟩ = .ok ptl2e := by
      revert hptl2
      cases s₁.accessPtl2 (pageAddr startAddr i) ⟨m, slotCell (slotOf (pageAddr startAddr i))⟩ with
      | error e =>
          intro heq
          cases heq
      | ok a =>
          intro heq
          cases heq
          rfl
    obtain ⟨f, hf, rfl⟩ :=
      hinv₁.accessPtl2_ok (hpaged.sound hwork.sound) hin.master.1 haccess
    obtain ⟨g₂, hinv₂, hplace, hcarried, hvec, hout⟩ := hinv₁.deleteEntry_inv hf hentry
    obtain ⟨hinv₃, hunlock, hobjects₃⟩ :=
      hinv₂.pageUnlock_inv (t := .table h (slotOf startAddr)) (by rw [hplace, hin.table])
    refine ⟨g₂, hinv₃, hpaged.carried.trans ((hcarried.mono (fun _ => False.elim)
      (fun _ => False.elim) (fun _ => id)).trans
        (hunlock.mono ?_ (fun _ => False.elim) (fun _ => False.elim))), ?_, hout⟩
    · rintro u (rfl | hu)
      · exact ⟨h, _, rfl⟩
      · exact hu
    · exact hobjects₃.ssegVec.trans (hvec.trans hobjects₁.ssegVec)

/-- A segment that was removed: no page of its range is in a segment any longer. -/
structure Removed (g : Layout) (h : Nat) (n : Fin 192) (g' : Layout) : Prop where
  pages : ∀ v, InRange h ((g.segment h n).start * pageSize) (g.segment h n).getLength v →
    (g'.desc v).getInseg = false
  unshared : ∀ v, InRange h ((g.segment h n).start * pageSize) (g.segment h n).getLength v →
    (g'.desc v).getShared = false
  entry : ∀ n', g'.segment h n' =
    if n' = n then (g.segment h n).setKind .free else g.segment h n'

theorem deleteSegmentInd_inv {n : Fin 192} (hwork : Working g h m s)
    (hdelete : s.deleteSegmentInd h n doReleaseShared = .ok s') :
    ∃ g', Working g' h m s' ∧
      Carried KTable.IsTable (· = h)
        (InRange h ((g.segment h n).start * pageSize) (g.segment h n).getLength) g s g' s' ∧
      s'.ssegVec = s.ssegVec ∧ Removed g h n g' := by
  obtain ⟨p, hp, _, hat⟩ := hwork.inv.pcb_ok hwork.master.1
  have hsize : (g.segment h n).getLength ≤ 16384 := by
    have hlt := (g.segment h n).lenKind.isLt
    unfold SegTableEntry.getLength
    omega
  unfold deleteSegmentInd at hdelete
  simp only [hp, Outcome.ok_bind, KernelInv.index_ste hat,
    hwork.inv.ste_eq hwork.master.1] at hdelete
  obtain ⟨⟨released, s₁⟩, hloop, hrest⟩ := Outcome.bind_ok hdelete
  obtain ⟨g₁, hwork₁, hcarried₁, hvec, hpages⟩ := Working.pages Prod.snd (a := (false, s))
    (J := fun _ b => b.2.ssegVec = s.ssegVec)
    (R := fun _ _ e => e.getInseg = false ∧ e.getShared = false)
    hwork hsize rfl
    (fun _ _ _ _ _ hkept hout => ⟨hkept.sameRights.inseg.trans hout.1,
      hkept.sameRights.shared.trans hout.2⟩)
    (fun i hi _ g₁ r r' _ hwork₁ hJ _ hstep => by
      obtain ⟨g₂, hinv₂, hcarried₂, hvec, hout⟩ := hwork₁.deletePage_inv hstep
      exact ⟨g₂, hinv₂, hcarried₂, hvec.trans hJ, hout⟩) hloop
  obtain ⟨p₁, hp₁, hpcb₁, hat₁⟩ := hwork₁.inv.pcb_ok hwork₁.master.1
  simp only [hp₁, Outcome.ok_bind, KernelInv.index_ste hat₁,
    hwork₁.inv.ste_eq hwork₁.master.1] at hrest
  cases hrest
  obtain ⟨hwork₂, hcarried₂, hobjects₂⟩ := hwork₁.counted (n := n)
    (e := (g₁.segment h n).setKind .free) hpcb₁ ((p₁.segCount + (2 ^ 32 - 1)) % 2 ^ 32)
  have hsegs : ∀ n', g₁.segment h n' = g.segment h n' := fun n' =>
    congrArg PageTableL2Entry.toSeg (hcarried₁.segs h n' id)
  refine ⟨_, hwork₂, (hcarried₁.mono (fun _ => id) nofun (fun _ => id)).trans
    (hcarried₂.mono nofun (fun _ => id) nofun), hobjects₂.ssegVec.trans hvec, ?_, ?_, fun n' => ?_⟩
  · rintro v ⟨i, hi, rfl⟩
    rw [Layout.setSegment_desc]
    exact (hpages i hi).1
  · rintro v ⟨i, hi, rfl⟩
    rw [Layout.setSegment_desc]
    exact (hpages i hi).2
  · rw [Layout.segment_setSegment, hsegs n, hsegs n']

end Working

namespace KernelInv

variable {g : Layout} {s s' : KernelSystem} {h m : Nat}

/-- `delete_segment`: it refuses, or removes an entry with the low bits of the start page. -/
theorem deleteSegment_cases {startAddr : Nat} {status : Status}
    (hinv : KernelInv g noHand noHand s) (hsound : g.Sound)
    (hm : g.place (.master h) = .frame m)
    (hdelete : s.deleteSegment h startAddr = .ok (status, s')) :
    ∃ g', KernelInv g' noHand noHand s' ∧ g'.place (.master h) = .frame m ∧
      s'.ssegVec = s.ssegVec ∧
      ((status = .trap ∧ Carried (Released h) (fun _ => False) (fun _ => False) g s g' s' ∧
          g' = g) ∨
        status = .ok ∧ ∃ n, (g.segment h n).start = startAddr / 2 ^ 10 % 2 ^ 10 ∧
          Working.Removed g h n g' ∧ Carried (Released h) (· = h) (InRange h
            ((g.segment h n).start * pageSize) (g.segment h n).getLength) g s g' s') := by
  obtain ⟨p, hp, _, hat⟩ := hinv.pcb_ok hm
  obtain ⟨hwork, hlock, hobjects⟩ := hinv.working hsound hm
  unfold deleteSegment at hdelete
  simp only [hp, Outcome.ok_bind] at hdelete
  split at hdelete
  · cases hdelete
    exact ⟨g, hinv, hm, rfl, .inl ⟨rfl, .refl g s, rfl⟩⟩
  · obtain ⟨p', hp', _, hat'⟩ := hwork.inv.pcb_ok hm
    simp only [hinv.masterTableLock_ok hm, Outcome.ok_bind, hp'] at hdelete
    split at hdelete
    · cases hdelete
      obtain ⟨hinv', hunlock, hobjects'⟩ := hwork.unlocked
      exact ⟨g, hinv', hm, (hobjects.trans hobjects').ssegVec,
        .inl ⟨rfl, hlock.carried.trans hunlock, rfl⟩⟩
    · rename_i entry hfind
      have hlt : entry < 192 := by simpa [maxSegments] using List.mem_of_find?_eq_some hfind
      have hstart : (g.segment h ⟨entry, hlt⟩).start = startAddr / 2 ^ 10 % 2 ^ 10 := by
        have hread : (s.ksLockPage m).ste (p'.stPtr.index entry) = g.segment h ⟨entry, hlt⟩ := by
          rw [← hwork.inv.ste_eq hm]
          exact congrArg _ (index_ste hat' ⟨entry, hlt⟩)
        have hentry := List.find?_some hfind
        simp only [hread, decide_eq_true_eq] at hentry
        exact hentry
      obtain ⟨s₁, hremove, hret⟩ := Outcome.bind_ok hdelete
      cases hret
      obtain ⟨g', hwork', hcarried, hvec, hremoved⟩ :=
        hwork.deleteSegmentInd_inv (n := ⟨entry, hlt⟩) hremove
      obtain ⟨hinv', hunlock, hobjects'⟩ := hwork'.unlocked
      exact ⟨g', hinv', hwork'.master.1, hobjects'.ssegVec.trans (hvec.trans hobjects.ssegVec),
        .inr ⟨rfl, ⟨entry, hlt⟩, hstart, hremoved, hlock.carried.trans
          ((hcarried.mono (fun _ => .inr) (fun _ => id) (fun _ => id)).trans
            (hunlock.mono (fun _ => id) (fun _ => False.elim) (fun _ => False.elim)))⟩⟩

theorem deleteSegment_inv {startAddr : Nat} {status : Status}
    (hinv : KernelInv g noHand noHand s) (hsound : g.Sound)
    (hm : g.place (.master h) = .frame m)
    (hdelete : s.deleteSegment h startAddr = .ok (status, s')) :
    ∃ g', KernelInv g' noHand noHand s' ∧ g'.place (.master h) = .frame m ∧
      s'.ssegVec = s.ssegVec ∧
      ((Carried (Released h) (fun _ => False) (fun _ => False) g s g' s' ∧ g' = g) ∨
        ∃ n, Working.Removed g h n g' ∧ Carried (Released h) (· = h)
          (InRange h ((g.segment h n).start * pageSize) (g.segment h n).getLength) g s g' s') := by
  obtain ⟨g', hinv', hm', hvec, ⟨_, hkept⟩ | ⟨_, n, _, hremoved⟩⟩ :=
    hinv.deleteSegment_cases hsound hm hdelete
  · exact ⟨g', hinv', hm', hvec, .inl hkept⟩
  · exact ⟨g', hinv', hm', hvec, .inr ⟨n, hremoved⟩⟩

end KernelInv

end VirtualMemory
