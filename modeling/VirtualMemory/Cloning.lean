import VirtualMemory.AddressSpace

/-!
# Cloning a process

`clone_process` makes a process and copies the source's segments into it, one entry and
one page after the other. While a page is copied its source and the page tables of both
are locked in turn; whatever else is evicted on the way, the source keeps its contents,
and a page that was copied keeps its copy.
-/

namespace VirtualMemory

open Function UserSpace KernelSystem PageTableL2Entry

/-- A descriptor that says of its page what `e₀` said of a page with the given contents. -/
structure Copied (e₀ : PageTableL2Entry) (content : Option Page) (us : UserSpace KAddr)
    (e : PageTableL2Entry) : Prop where
  rights : SameRights e₀ e
  tbc : e.getTbc = e₀.getTbc
  content : us.content e = content
  shared : e₀.getShared = true → e.block = e₀.block ∧ e.ssegInd = e₀.ssegInd

namespace Copied

variable {e₀ e₁ e e' : PageTableL2Entry} {content : Option Page} {us₀ us₁ us us' : UserSpace KAddr}

theorem not_resident {e : PageTableL2Entry} (hshared : e.getShared = true) : ¬ e.Resident :=
  fun hr => by simp [hr.1] at hshared

/-- A copy stays one while other pages are worked on. -/
theorem kept (hcopied : Copied e₀ content us e) (hkept : Kept us e us' e') :
    Copied e₀ content us' e' where
  rights := hcopied.rights.trans hkept.sameRights
  tbc := hkept.tbc.trans hcopied.tbc
  content := hkept.2.trans hcopied.content
  shared hshared := by
    rw [hkept.desc_eq (not_resident (hcopied.rights.shared.trans hshared))]
    exact hcopied.shared hshared

/-- A copy of a page is one of what the page was before other pages were worked on. -/
theorem of_kept (hcopied : Copied e₁ (us₁.content e₁) us e) (hkept : Kept us₀ e₀ us₁ e₁) :
    Copied e₀ (us₀.content e₀) us e where
  rights := hkept.sameRights.trans hcopied.rights
  tbc := hcopied.tbc.trans hkept.tbc
  content := hcopied.content.trans hkept.2
  shared hshared := by
    have hsame := hkept.desc_eq (not_resident hshared)
    rw [← hsame]
    exact hcopied.shared (hsame ▸ hshared)

end Copied

/-- Where a process was connected to a shared segment, the objects are otherwise the same. -/
structure Joined (h entry ssegInd : Nat) (s s' : KernelSystem) : Prop where
  objects : SameObjects s { s' with sscbs := s.sscbs }
  users : ∃ b sscb, s.ssegBlock ssegInd = .ok (b, sscb) ∧ s'.sscbs =
    update s.sscbs b (some { sscb with users := sscb.users ++ [⟨h, entry⟩] })

theorem connectSharedSegment_ok {s s' : KernelSystem} {h entry ssegInd : Nat}
    (hconnect : s.connectSharedSegment h ssegInd entry = .ok s') :
    ∃ b sscb, s.ssegBlock ssegInd = .ok (b, sscb) ∧
      s' = s.setSscb b { sscb with users := sscb.users ++ [⟨h, entry⟩] } := by
  unfold connectSharedSegment at hconnect
  obtain ⟨⟨b, sscb⟩, hblock, hret⟩ := Outcome.bind_ok hconnect
  exact ⟨b, sscb, hblock, (Except.ok.inj hret).symm⟩

namespace KernelInv

variable {g : Layout} {s s' : KernelSystem} {h source addr f f' entry i : Nat} {kind : KindEnum}

/-- A descriptor that holds nothing is copied as it is. -/
theorem copyEntry {e : PageTableL2Entry} (hinv : KernelInv g noHand noHand s)
    (hf : g.place (.table h (slotOf addr)) = .frame f)
    (hinseg : (g.desc (pageOf h addr)).getInseg = false) (hnr : ¬ e.Resident)
    (hnp : ¬ e.PagedOut) :
    ∃ g', KernelInv g' noHand noHand (s.withUser (s.setPte ⟨f, cellOf addr⟩ e)) ∧
      g'.place = g.place ∧
      Carried (fun _ => False) (fun _ => False) (· = pageOf h addr) g s g'
        (s.withUser (s.setPte ⟨f, cellOf addr⟩ e)) ∧
      SameObjects s (s.withUser (s.setPte ⟨f, cellOf addr⟩ e)) ∧
      g'.desc (pageOf h addr) = e := by
  obtain ⟨hvnr, hvnp⟩ := not_held_of_not_inseg (hinv.user.clusters.shape (pageOf h addr)) hinseg
  obtain ⟨huser, hbut⟩ := rewrite_inv (v := pageOf h addr) (e := e) hinv.user
    (Layout.addr_of_frame hf _) hvnr hvnp hnr hnp
  obtain ⟨hinv', hcarried, hobjects⟩ := hinv.userStep hf huser hbut
  exact ⟨_, hinv', rfl, hcarried, hobjects, by simp⟩

/-- What `clone_segment_from` makes of one page of the source. -/
theorem cloneEntry_inv (hinv : KernelInv g noHand noHand s)
    (hf : g.place (.table h (slotOf addr)) = .frame f)
    (hf' : g.place (.table source (slotOf addr)) = .frame f') (hne : source ≠ h)
    (hinseg : (g.desc (pageOf h addr)).getInseg = false)
    (hsource : (g.desc (pageOf source addr)).getInseg = true)
    (hkind : (g.desc (pageOf source addr)).getShared = true ↔ kind = .occShared)
    (hclone : cloneEntry h entry kind s ⟨f, cellOf addr⟩ ⟨f', cellOf addr⟩ i = .ok s') :
    ∃ g', KernelInv g' noHand noHand s' ∧ g'.place = g.place ∧
      Carried (fun _ => False) (fun _ => False) (· = pageOf h addr) g s g' s' ∧
      Copied (g.desc (pageOf source addr)) (s.content (g.desc (pageOf source addr)))
        s'.toUserSpace (g'.desc (pageOf h addr)) ∧
      if i = 0 ∧ kind = .occShared then
        Joined h entry (g.desc (pageOf source addr)).ssegInd.toNat s s'
      else SameObjects s s' := by
  have hread : s.mem ⟨f', cellOf addr⟩ = g.desc (pageOf source addr) := hinv.mem_eq hf' _
  unfold cloneEntry at hclone
  simp only [hread] at hclone
  split at hclone
  · rename_i hplain
    have hnr : ¬ (g.desc (pageOf source addr)).Resident := by
      intro hr
      obtain hshared | htbc := hplain
      · exact Copied.not_resident (hkind.mpr hshared) hr
      · have hheld := (hinv.user.clusters.shape (pageOf source addr) hr).2
        rw [Layout.view_desc, htbc] at hheld
        cases hheld
    have hnp : ¬ (g.desc (pageOf source addr)).PagedOut := by
      intro hp
      obtain hshared | htbc := hplain
      · have := hkind.mpr hshared
        simp [hp.1] at this
      · simp [hp.2.2.2] at htbc
    obtain ⟨g', hinv', hplace, hcarried, hobjects, hdesc⟩ := hinv.copyEntry hf hinseg hnr hnp
    have hcopied : ∀ us, Copied (g.desc (pageOf source addr))
        (s.content (g.desc (pageOf source addr))) us (g'.desc (pageOf h addr)) := by
      intro us
      rw [hdesc]
      exact ⟨.refl _, rfl, by rw [content_none hnr hnp, content_none hnr hnp], fun _ => ⟨rfl, rfl⟩⟩
    -- The source's descriptor is in another frame than the copy.
    have hframes : f' ≠ f := by
      rintro rfl
      have htables := hinv.frame_inj hf' hf
      exact hne (KTable.table.inj htables).1
    have hstill : (s.withUser (s.setPte ⟨f, cellOf addr⟩ (g.desc (pageOf source addr)))).mem
        ⟨f', cellOf addr⟩ = g.desc (pageOf source addr) := by
      rw [← hread]
      exact update_of_ne (fun heq => hframes (congrArg KAddr.frame heq)) _ _
    rw [hstill] at hclone
    split at hclone
    · rename_i hfirst
      obtain ⟨b, sscb, hblock, rfl⟩ := connectSharedSegment_ok hclone
      refine ⟨g', hinv'.setSscb b _, hplace, hcarried.trans (carried_setSscb g' _ b _).carried,
        hcopied _, ?_⟩
      rw [if_pos hfirst]
      exact ⟨⟨rfl, rfl, rfl, rfl, fun _ => rfl, rfl, rfl, rfl, rfl, rfl, rfl, rfl⟩, b, sscb,
        hblock, rfl⟩
    · rename_i hfirst
      cases hclone
      rw [if_neg hfirst]
      exact ⟨g', hinv', hplace, hcarried, hcopied _, hobjects⟩
  · rename_i hplain
    rw [not_or] at hplain
    have hshared : (g.desc (pageOf source addr)).getShared = false := by
      rw [← Bool.not_eq_true, hkind]
      exact hplain.1
    have htbc : (g.desc (pageOf source addr)).getTbc = false :=
      Bool.eq_false_of_not_eq_true hplain.2
    have hlive : (g.desc (pageOf source addr)).Resident ∨
        (g.desc (pageOf source addr)).PagedOut := by
      by_cases hvalid : (g.desc (pageOf source addr)).getValid = true
      · exact .inl ⟨hshared, hvalid⟩
      · exact .inr ⟨hshared, hsource, Bool.eq_false_of_not_eq_true hvalid, htbc⟩
    obtain ⟨us', hus, hs'⟩ := Outcome.bind_ok hclone
    cases hs'
    obtain ⟨w', huser, hbut, hr, hrights, hcontent⟩ := clonePage_inv (v := pageOf h addr)
      (u := pageOf source addr) hinv.user (Layout.addr_of_frame hf _)
      (Layout.addr_of_frame hf' _) (fun heq => hne (congrArg LPage.proc heq)) hinseg hlive hus
    obtain ⟨hinv', hcarried, hobjects⟩ := hinv.userStep hf huser hbut
    rw [if_neg (fun hfirst => hplain.1 hfirst.2)]
    refine ⟨_, hinv', rfl, hcarried, ⟨hrights, ?_, hcontent, fun h => by simp [hshared] at h⟩,
      hobjects⟩
    rw [htbc]
    exact (huser.clusters.shape _ hr).2

end KernelInv

/-- The control block of a shared segment is found through objects alone. -/
theorem SameObjects.ssegBlock {s s' : KernelSystem} (hobjects : SameObjects s s')
    (ssegInd : Nat) : s'.ssegBlock ssegInd = s.ssegBlock ssegInd := by
  unfold KernelSystem.ssegBlock
  rw [hobjects.ssegVec, hobjects.sscbs]
  cases s.ssegVec.atIndex ssegInd with
  | error halt => rfl
  | ok dummy =>
      have hpcb := hobjects.pcbs dummy
      simp only [Outcome.ok_bind, KernelSystem.pcb]
      cases hp : s.pcbs dummy with
      | none =>
          rw [hp] at hpcb
          rw [Option.map_eq_none_iff.mp hpcb]
      | some p =>
          rw [hp] at hpcb
          obtain ⟨p', hp', hrest⟩ := Option.map_eq_some_iff.mp hpcb
          have hsscb : p'.sscb = p.sscb := congrArg Prod.snd hrest
          simp only [hp', Outcome.ok_bind, hsscb]

namespace Joined

variable {s₀ s s' s'' : KernelSystem} {h entry ssegInd : Nat}

theorem after (hobjects : SameObjects s₀ s) (hjoined : Joined h entry ssegInd s s') :
    Joined h entry ssegInd s₀ s' := by
  obtain ⟨b, sscb, hblock, husers⟩ := hjoined.users
  have hsame := hjoined.objects
  rw [hobjects.sscbs] at hsame husers
  rw [hobjects.ssegBlock] at hblock
  exact ⟨hobjects.trans hsame, b, sscb, hblock, husers⟩

theorem before (hjoined : Joined h entry ssegInd s s') (hobjects : SameObjects s' s'') :
    Joined h entry ssegInd s s'' := by
  obtain ⟨b, sscb, hblock, husers⟩ := hjoined.users
  refine ⟨hjoined.objects.trans ?_, b, sscb, hblock, hobjects.sscbs.trans husers⟩
  exact ⟨hobjects.krnlspcSize, hobjects.ksReserved, hobjects.userspcSize, hobjects.diskSize,
    hobjects.pcbs, hobjects.nextPcb, hobjects.pcbVec, hobjects.ssegVec, hobjects.ssegMap, rfl,
    hobjects.nextSscb, hobjects.ssegCount⟩

end Joined

/-- A shared mapping is registered with its first page, a private segment never. -/
structure Registered (h entry ssegInd : Nat) (kind : KindEnum) (first : Prop)
    (s s' : KernelSystem) : Prop where
  joined : first → kind = .occShared → Joined h entry ssegInd s s'
  same : ¬ (first ∧ kind = .occShared) → SameObjects s s'

namespace Registered

variable {s₀ s s' s'' : KernelSystem} {h entry ssegInd : Nat} {kind : KindEnum} {first : Prop}

theorem after (hobjects : SameObjects s₀ s) (hreg : Registered h entry ssegInd kind first s s') :
    Registered h entry ssegInd kind first s₀ s' :=
  ⟨fun hf hk => (hreg.joined hf hk).after hobjects, fun hn => hobjects.trans (hreg.same hn)⟩

theorem before (hreg : Registered h entry ssegInd kind first s s') (hobjects : SameObjects s' s'') :
    Registered h entry ssegInd kind first s s'' :=
  ⟨fun hf hk => (hreg.joined hf hk).before hobjects, fun hn => (hreg.same hn).trans hobjects⟩

end Registered

/-- The pages of an entry of the segment table. -/
def entryPage (e : SegTableEntry) (h i : Nat) : LPage := pageOf h (pageAddr (e.start * pageSize) i)

/-- A segment of the source that can be copied: its pages are in it, they are shared if it
is, and none of them is in a segment of the clone yet. -/
structure Copyable (g : Layout) (h source : Nat) (e : SegTableEntry) : Prop where
  inside : ∀ i, i < e.getLength → (g.desc (entryPage e source i)).getInseg = true
  shared : ∀ i, i < e.getLength →
    ((g.desc (entryPage e source i)).getShared = true ↔ e.getKind = .occShared)
  clear : ∀ i, i < e.getLength → (g.desc (entryPage e h i)).getInseg = false

namespace Working

variable {g : Layout} {s s' : KernelSystem} {h source m ms f entry startAddr i : Nat}
  {kind : KindEnum}

/-- The source's page table is locked and comes back if it was paged out. -/
theorem lockSourcePtl2_ok {addr : Nat} {r : Nat × KAddr × KernelSystem}
    (hwork : Working g h m s) (hms : LockedIn g s (.master source) ms)
    (hlock : s.lockSourcePtl2 source addr = .ok r) :
    ∃ g', KernelInv g' noHand noHand r.2.2 ∧ OnlyPaged g s g' r.2.2 ∧ SameObjects s r.2.2 ∧
      KernelInv.InMemory g' source (slotOf addr) ms r.1 true r.2.2 ∧
      r.2.1 = ⟨r.1, cellOf addr⟩ := by
  unfold lockSourcePtl2 at hlock
  simp only [hwork.inv.accessPtl1_eq hms.1, deref, Outcome.ok_bind] at hlock
  split at hlock
  · cases hlock
  · obtain ⟨⟨f', s₁⟩, htable, hrest⟩ := Outcome.bind_ok hlock
    obtain ⟨g', hinv', hpaged, hobjects, hin⟩ :=
      hwork.inv.pageTableLock_inv hwork.sound hms htable
    simp only [hinv'.accessPtl2_eq hin.master.1 hin.table, derefPtl2, Outcome.ok_bind] at hrest
    cases hrest
    exact ⟨g', hinv', hpaged, hobjects, hin, rfl⟩

/-- One page is cloned while both master tables and the page table of the clone are locked. -/
theorem cloneWork_inv (hwork : Working g h m s) (hms : LockedIn g s (.master source) ms)
    (hin : KernelInv.InMemory g h (slotOf (pageAddr startAddr i)) m f true s)
    (hne : source ≠ h)
    (hinseg : (g.desc (pageOf h (pageAddr startAddr i))).getInseg = false)
    (hsource : (g.desc (pageOf source (pageAddr startAddr i))).getInseg = true)
    (hkind : (g.desc (pageOf source (pageAddr startAddr i))).getShared = true ↔
      kind = .occShared)
    (hclone : cloneWork h entry source startAddr kind s ⟨f, cellOf (pageAddr startAddr i)⟩ i =
      .ok s') :
    ∃ g', KernelInv g' noHand noHand s' ∧
      Carried KTable.IsTable (fun _ => False) (· = pageOf h (pageAddr startAddr i)) g s g' s' ∧
      g'.place (.table h (slotOf (pageAddr startAddr i))) = .frame f ∧
      Registered h entry
        (g.desc (pageOf source (pageAddr startAddr i))).ssegInd.toNat kind (i = 0) s s' ∧
      Copied (g.desc (pageOf source (pageAddr startAddr i)))
        (s.content (g.desc (pageOf source (pageAddr startAddr i)))) s'.toUserSpace
        (g'.desc (pageOf h (pageAddr startAddr i))) := by
  unfold cloneWork at hclone
  obtain ⟨⟨f', ptl2eSrc, s₁⟩, hlock, hrest⟩ := Outcome.bind_ok hclone
  obtain ⟨s₂, hentry, hret⟩ := Outcome.bind_ok hrest
  cases hret
  obtain ⟨g₁, hinv₁, hpaged, hobjects, hin', heq⟩ := hwork.lockSourcePtl2_ok hms hlock
  simp only at heq hin' hinv₁ hpaged hobjects
  subst heq
  have hpinned : Pinned g₁ s₁ (.table h (slotOf (pageAddr startAddr i))) f :=
    hpaged.stay _ f id ⟨⟨hin.table, hin.locked⟩, m, hin.master⟩
  have hkept := hpaged.pages (pageOf source (pageAddr startAddr i)) id
  have hclear : (g₁.desc (pageOf h (pageAddr startAddr i))).getInseg = false :=
    (hpaged.pages _ id).sameRights.inseg.trans hinseg
  have hkind₁ : (g₁.desc (pageOf source (pageAddr startAddr i))).getShared = true ↔
      kind = .occShared := by
    rw [hkept.sameRights.shared]
    exact hkind
  obtain ⟨g₂, hinv₂, hplace₂, hcarried₂, hcopied, hreg⟩ := hinv₁.cloneEntry_inv
    hpinned.place hin'.table hne hclear (hkept.sameRights.inseg.trans hsource) hkind₁ hentry
  obtain ⟨hinv₃, hunlock, hobjects₃⟩ := hinv₂.pageUnlock_inv
    (t := .table source (slotOf (pageAddr startAddr i))) (by rw [hplace₂, hin'.table])
  have hloose : Carried KTable.IsTable (fun _ => False) (fun _ => False) g₂ s₂ g₂
      (s₂.pageUnlock f') := by
    refine hunlock.mono ?_ nofun nofun
    rintro u (rfl | hu)
    · exact ⟨source, _, rfl⟩
    · exact hu
  refine ⟨g₂, hinv₃, hpaged.carried.trans ((hcarried₂.mono nofun nofun (fun _ => id)).trans
    (hloose.mono (fun _ => id) nofun nofun)), by rw [hplace₂]; exact hpinned.place, ?_,
    (hcopied.of_kept hkept).kept (hunlock.pages _ id)⟩
  refine ⟨fun hi hk => ?_, fun hnot => ?_⟩
  · rw [if_pos ⟨hi, hk⟩] at hreg
    have hshared := hkind.mpr hk
    rw [hkept.desc_eq (Copied.not_resident hshared)] at hreg
    exact (hreg.after hobjects).before hobjects₃
  · rw [if_neg hnot] at hreg
    exact hobjects.trans (hreg.trans hobjects₃)

/-- A segment of the source is recorded in the first free entry and copied. -/
theorem cloneSegmentFrom_inv {n : Fin 192} (hwork : Working g h m s)
    (hms : LockedIn g s (.master source) ms) (hne : source ≠ h)
    (hcopy : Copyable g h source (g.segment source n))
    (hclone : cloneSegmentFrom h source s n = .ok s') :
    ∃ k : Fin 192, (g.segment h k).getKind = .free ∧
      (∀ k', k' < k → (g.segment h k').getKind ≠ .free) ∧ ∃ g', Working g' h m s' ∧
      LockedIn g' s' (.master source) ms ∧
      Carried KTable.IsTable (· = h) (InRange h ((g.segment source n).start * pageSize)
        (g.segment source n).getLength) g s g' s' ∧
      (∀ k', g'.segment h k' = if k' = k then recorded (g.segment h k)
        (g.segment source n).start (g.segment source n).getLength (g.segment source n).getKind
        else g.segment h k') ∧
      (∀ i, i < (g.segment source n).getLength →
        Copied (g.desc (entryPage (g.segment source n) source i))
          (s.content (g.desc (entryPage (g.segment source n) source i))) s'.toUserSpace
          (g'.desc (entryPage (g.segment source n) h i))) ∧
      Registered h k (g.desc (entryPage (g.segment source n) source 0)).ssegInd.toNat
        (g.segment source n).getKind (0 < (g.segment source n).getLength) s s' := by
  obtain ⟨p, hp, _, hat⟩ := hwork.inv.pcb_ok hms.1
  unfold cloneSegmentFrom at hclone
  simp only [hp, Outcome.ok_bind, KernelInv.index_ste hat, hwork.inv.ste_eq hms.1] at hclone
  obtain ⟨⟨entry, s₁⟩, hrecord, hfill⟩ := Outcome.bind_ok hclone
  have hfirst := hwork.recordSegment_first hrecord
  obtain ⟨k, rfl, hfree, hwork₁, hcarried₁, hobjects₁⟩ := hwork.recordSegment_ok hrecord
  generalize g.segment source n = e at *
  have hlen : e.getLength ≤ 16384 := by
    have hlt := e.lenKind.isLt
    unfold SegTableEntry.getLength
    omega
  have hms₁ := hcarried₁.stay (.master source) ms id hms
  have haway : ∀ i, ¬ InRange h (e.start * pageSize) e.getLength (entryPage e source i) := by
    rintro i ⟨j, _, heq⟩
    exact hne (congrArg LPage.proc heq)
  -- While the loop runs the mapping is registered from its first page on.
  obtain ⟨g', hwork', hcarried', hjoined, hcopied⟩ := hwork₁.fillSegment_ok
    (J := fun rest u => (0 ∉ rest ∧ 0 < e.getLength → e.getKind = .occShared →
        Joined h k (g.desc (entryPage e source 0)).ssegInd.toNat s₁ u) ∧
      (0 ∈ rest ∨ e.getKind ≠ .occShared ∨ e.getLength = 0 → SameObjects s₁ u))
    (R := fun i => Copied (g.desc (entryPage e source i))
      (s.content (g.desc (entryPage e source i)))) hlen
    ⟨fun h0 => absurd (List.mem_range.mpr h0.2) h0.1, fun _ => .refl s₁⟩
    (fun rest a b hab hJ => ⟨fun h0 hk => (hJ.1 h0 hk).before hab, fun h0 => (hJ.2 h0).trans hab⟩)
    (fun i us e us' e' hkept hc => hc.kept hkept)
    (fun i hi rest g₁ s₂ f s₃ hrest hwork₂ hJ hcarried₂ hin hdo => by
      have hkeptSource : Kept s.toUserSpace (g.desc (entryPage e source i)) s₂.toUserSpace
          (g₁.desc (entryPage e source i)) :=
        (hcarried₁.pages _ id).trans (hcarried₂.pages _ fun hv => haway i hv.1)
      have hkeptClone : Kept s.toUserSpace (g.desc (entryPage e h i)) s₂.toUserSpace
          (g₁.desc (entryPage e h i)) :=
        (hcarried₁.pages _ id).trans (hcarried₂.pages _ fun hv => hv.2 rfl)
      have hkind : (g₁.desc (entryPage e source i)).getShared = true ↔ e.getKind = .occShared := by
        rw [hkeptSource.sameRights.shared]
        exact hcopy.shared i hi
      obtain ⟨g₂, hinv₂, hcarried₃, hplace, hreg, hcopied⟩ := hwork₂.cloneWork_inv
        (hcarried₂.stay (.master source) ms (KTable.master_not_table source) hms₁) hin hne
        (hkeptClone.sameRights.inseg.trans (hcopy.clear i hi))
        (hkeptSource.sameRights.inseg.trans (hcopy.inside i hi)) hkind hdo
      refine ⟨g₂, hinv₂, hcarried₃, hplace, ⟨fun h0 hk => ?_, fun h0 => ?_⟩,
        hcopied.of_kept hkeptSource⟩
      · by_cases hi0 : i = 0
        · subst hi0
          have hsame := hJ.2 (.inl List.mem_cons_self)
          have hshared := (hcopy.shared 0 hi).mpr hk
          have hdesc := hkeptSource.desc_eq (Copied.not_resident hshared)
          have hjoined := (hreg.joined rfl hk).after hsame
          rw [entryPage] at hdesc
          rwa [hdesc] at hjoined
        · refine (hJ.1 ⟨?_, h0.2⟩ hk).before (hreg.same fun hfirst => hi0 hfirst.1)
          rw [List.mem_cons, not_or]
          exact ⟨Ne.symm hi0, h0.1⟩
      · have hsame := hJ.2 (h0.imp_left (List.mem_cons_of_mem i))
        refine hsame.trans (hreg.same ?_)
        rintro ⟨rfl, hk⟩
        obtain hmem | hkind | hzero := h0
        · exact hrest hmem
        · exact hkind hk
        · omega) hfill
  refine ⟨k, hfree, fun k' hk' => hfirst k' hk', g', hwork',
    hcarried'.stay (.master source) ms (KTable.master_not_table source) hms₁,
    (hcarried₁.mono nofun (fun _ => id) nofun).trans
      (hcarried'.mono (fun _ => id) nofun (fun _ => id)), fun k' => ?_, hcopied, ?_, ?_⟩
  · rw [← Layout.segment_setSegment]
    exact congrArg PageTableL2Entry.toSeg (hcarried'.segs h k' id)
  · exact fun h0 hk => (hjoined.1 ⟨List.not_mem_nil, h0⟩ hk).after hobjects₁
  · intro hnot
    refine hobjects₁.trans (hjoined.2 ?_)
    by_cases hk : e.getKind = .occShared
    · by_contra hall
      exact hnot ⟨by omega, hk⟩
    · exact .inr (.inl hk)

end Working

/-- The control block that a shared segment index leads to. -/
def KernelSystem.blockOf (s : KernelSystem) (ssegInd : Nat) : Option Nat :=
  (s.ssegVec.atIndex ssegInd).toOption.bind fun dummy => (s.pcbs dummy).bind (·.sscb)

theorem ssegBlock_blockOf {s : KernelSystem} {ssegInd b : Nat} {sscb : SsegControlBlock}
    (hblock : s.ssegBlock ssegInd = .ok (b, sscb)) :
    s.blockOf ssegInd = some b ∧ s.sscbs b = some sscb := by
  unfold ssegBlock at hblock
  obtain ⟨dummy, hdummy, hrest⟩ := Outcome.bind_ok hblock
  obtain ⟨p, hp, hrest⟩ := Outcome.bind_ok hrest
  split at hrest
  · cases hrest
  · rename_i b' hb'
    split at hrest
    · cases hrest
    · rename_i hsscb
      cases hrest
      refine ⟨?_, hsscb⟩
      simp [KernelSystem.blockOf, hdummy, Except.toOption, KernelSystem.pcb_eq_ok.mp hp, hb']

theorem SameObjects.blockOf {s s' : KernelSystem} (hobjects : SameObjects s s') (ssegInd : Nat) :
    s'.blockOf ssegInd = s.blockOf ssegInd := by
  unfold KernelSystem.blockOf
  rw [hobjects.ssegVec]
  congr 1
  funext dummy
  have hpcb := hobjects.pcbs dummy
  cases hp : s.pcbs dummy with
  | none =>
      rw [hp] at hpcb
      rw [Option.map_eq_none_iff.mp hpcb]
  | some p =>
      rw [hp] at hpcb
      obtain ⟨p', hp', hrest⟩ := Option.map_eq_some_iff.mp hpcb
      rw [hp']
      exact congrArg Prod.snd hrest

/-- What a copy of an entry of the segment table has of the original. -/
structure SameShape (e e' : SegTableEntry) : Prop where
  start : e'.start = e.start
  length : e'.getLength = e.getLength
  kind : e'.getKind = e.getKind

theorem sameShape_recorded (e e₀ : SegTableEntry) :
    SameShape e (Working.recorded e₀ e.start e.getLength e.getKind) := by
  have hstart : e.start < 65536 := e.startPage.isLt
  have hlength : e.getLength < 16384 := by
    have hlt := e.lenKind.isLt
    unfold SegTableEntry.getLength
    omega
  refine ⟨?_, ?_, ?_⟩
  · simp only [Working.recorded, SegTableEntry.start_setLength, SegTableEntry.start_setKind,
      SegTableEntry.start_setStartPage, Nat.mod_eq_of_lt hstart]
  · simp only [Working.recorded, SegTableEntry.getLength_setLength, Nat.mod_eq_of_lt hlength]
  · simp only [Working.recorded, SegTableEntry.getKind_setLength, SegTableEntry.getKind_setKind]

/-- The users that the copies of shared mappings add to a control block: the clone, with the
index of the copy among its entries. -/
def newUsers (h : Nat) (mapsTo : SegTableEntry → Option Nat) (taken : List SegTableEntry)
    (b : Nat) : List PcbAndIndex :=
  (taken.zipIdx.filter fun r => decide (r.1.getKind = .occShared ∧ 0 < r.1.getLength ∧
    mapsTo r.1 = some b)).map fun r => ⟨h, r.2⟩

theorem newUsers_concat (h : Nat) (mapsTo : SegTableEntry → Option Nat)
    (taken : List SegTableEntry) (e : SegTableEntry) (b : Nat) :
    newUsers h mapsTo (taken ++ [e]) b = newUsers h mapsTo taken b ++
      if e.getKind = .occShared ∧ 0 < e.getLength ∧ mapsTo e = some b then
        [⟨h, taken.length⟩] else [] := by
  simp only [newUsers, List.zipIdx_append, List.filter_append, List.map_append, List.zipIdx_cons,
    List.zipIdx_nil, Nat.zero_add]
  congr 1
  by_cases hmaps : e.getKind = .occShared ∧ 0 < e.getLength ∧ mapsTo e = some b
  · simp [hmaps]
  · simp [hmaps]

/-- A control block with more users. -/
def SsegControlBlock.join (users : List PcbAndIndex) (sscb : SsegControlBlock) :
    SsegControlBlock := { sscb with users := sscb.users ++ users }

theorem SsegControlBlock.join_join (sscb : SsegControlBlock) (users users' : List PcbAndIndex) :
    (sscb.join users).join users' = sscb.join (users ++ users') := by
  simp [SsegControlBlock.join]

/-- Objects that are the same but for the control blocks. -/
def SameButUsers (s s' : KernelSystem) : Prop := SameObjects s { s' with sscbs := s.sscbs }

theorem SameButUsers.trans {s₀ s s' : KernelSystem} (h : SameButUsers s₀ s)
    (h' : SameButUsers s s') : SameButUsers s₀ s' :=
  ⟨h'.krnlspcSize.trans h.krnlspcSize, h'.ksReserved.trans h.ksReserved,
    h'.userspcSize.trans h.userspcSize, h'.diskSize.trans h.diskSize,
    fun x => (h'.pcbs x).trans (h.pcbs x), h'.nextPcb.trans h.nextPcb, h'.pcbVec.trans h.pcbVec,
    h'.ssegVec.trans h.ssegVec, h'.ssegMap.trans h.ssegMap, rfl, h'.nextSscb.trans h.nextSscb,
    h'.ssegCount.trans h.ssegCount⟩

theorem SameObjects.butUsers {s s' : KernelSystem} (h : SameObjects s s') : SameButUsers s s' :=
  ⟨h.krnlspcSize, h.ksReserved, h.userspcSize, h.diskSize, h.pcbs, h.nextPcb, h.pcbVec, h.ssegVec,
    h.ssegMap, rfl, h.nextSscb, h.ssegCount⟩

/-- The control block of a segment has no part in finding it. -/
theorem SameButUsers.blockOf {s s' : KernelSystem} (h : SameButUsers s s') (ssegInd : Nat) :
    s'.blockOf ssegInd = s.blockOf ssegInd := SameObjects.blockOf h ssegInd

/-- What registering one mapping adds to the control blocks. -/
theorem Registered.users {s₀ s s' : KernelSystem} {h k ssegInd : Nat} {e : SegTableEntry}
    {mapsTo : SegTableEntry → Option Nat} {taken : List SegTableEntry}
    (hreg : Registered h k ssegInd e.getKind (0 < e.getLength) s s')
    (hmaps : e.getKind = .occShared → 0 < e.getLength → mapsTo e = s.blockOf ssegInd)
    (hk : k = taken.length)
    (husers : ∀ b, s.sscbs b = (s₀.sscbs b).map (.join (newUsers h mapsTo taken b))) (b : Nat) :
    s'.sscbs b = (s₀.sscbs b).map (.join (newUsers h mapsTo (taken ++ [e]) b)) := by
  rw [newUsers_concat]
  by_cases hshared : 0 < e.getLength ∧ e.getKind = .occShared
  · obtain ⟨b₀, sscb, hblock, hset⟩ := (hreg.joined hshared.1 hshared.2).users
    obtain ⟨hof, hsscb⟩ := ssegBlock_blockOf hblock
    rw [hmaps hshared.2 hshared.1, hof, hset]
    by_cases hb : b = b₀
    · subst hb
      rw [husers] at hsscb
      obtain ⟨sscb₀, hsscb₀, rfl⟩ := Option.map_eq_some_iff.mp hsscb
      rw [update_self, hsscb₀, Option.map_some, if_pos ⟨hshared.2, hshared.1, rfl⟩, hk,
        ← SsegControlBlock.join_join]
      rfl
    · rw [update_of_ne hb, husers, if_neg, List.append_nil]
      rintro ⟨_, _, heq⟩
      exact hb (Option.some.inj heq).symm
  · rw [(hreg.same hshared).sscbs, husers, if_neg, List.append_nil]
    rintro ⟨hkind, hlen, _⟩
    exact hshared ⟨hlen, hkind⟩

/-- Where the loop of `clone_process` is, once it has copied the entries `taken`. -/
structure CloneProgress (g₀ : Layout) (s₀ : KernelSystem) (h m source ms : Nat)
    (taken : List SegTableEntry) (g : Layout) (s : KernelSystem) : Prop where
  work : Working g h m s
  locked : LockedIn g s (.master source) ms
  carried : Carried KTable.IsTable (· = h) (·.proc = h) g₀ s₀ g s
  copied : ∀ k : Fin 192, ∀ e, taken[k.val]? = some e → SameShape e (g.segment h k)
  unused : ∀ k : Fin 192, taken.length ≤ k → (g.segment h k).getKind = .free
  pages : ∀ e ∈ taken, ∀ i, i < e.getLength →
    Copied (g₀.desc (entryPage e source i)) (s₀.content (g₀.desc (entryPage e source i)))
      s.toUserSpace (g.desc (entryPage e h i))
  rest : ∀ v, v.proc = h → (∀ e ∈ taken, ∀ i, i < e.getLength → v ≠ entryPage e h i) →
    g.desc v = ⟨0#16, 0#8, 0#8⟩
  objects : SameButUsers s₀ s
  users : ∀ b, s.sscbs b = (s₀.sscbs b).map (.join (newUsers h
    (fun e => s₀.blockOf (g₀.desc (entryPage e source 0)).ssegInd.toNat) taken b))

/-- The segments of a process that is cloned: each has its own pages, of its own kind. -/
structure SegmentsApart (g : Layout) (h : Nat) : Prop where
  inside : ∀ n i, (g.segment h n).getKind ≠ .free → i < (g.segment h n).getLength →
    (g.desc (entryPage (g.segment h n) h i)).getInseg = true
  shared : ∀ n i, (g.segment h n).getKind ≠ .free → i < (g.segment h n).getLength →
    ((g.desc (entryPage (g.segment h n) h i)).getShared = true ↔
      (g.segment h n).getKind = .occShared)
  apart : ∀ n n' i j, (g.segment h n).getKind ≠ .free → (g.segment h n').getKind ≠ .free →
    i < (g.segment h n).getLength → j < (g.segment h n').getLength →
    entryPage (g.segment h n) h i = entryPage (g.segment h n') h j → n = n'

/-- An entry that the loop of `clone_process` copies. -/
def Layout.taken (g : Layout) (h : Nat) (n : Fin 192) : Option SegTableEntry :=
  if (g.segment h n).getKind = .free then Option.none else some (g.segment h n)

theorem entryPage_swap {e e' : SegTableEntry} {h h' i j : Nat}
    (heq : entryPage e h i = entryPage e' h j) : entryPage e h' i = entryPage e' h' j := by
  unfold entryPage pageOf at heq ⊢
  rw [LPage.mk.injEq] at heq
  rw [heq.2.1, heq.2.2]

namespace CloneProgress

variable {g₀ g : Layout} {s₀ s s' : KernelSystem} {h m source ms : Nat} {done : List (Fin 192)}
  {n : Fin 192}

/-- Pages of the clone's segments are copies. -/
theorem only {taken : List SegTableEntry} (hprogress : CloneProgress g₀ s₀ h m source ms taken g s)
    {v : LPage} (hv : v.proc = h) (hinseg : (g.desc v).getInseg = true) :
    ∃ e ∈ taken, ∃ i, i < e.getLength ∧ v = entryPage e h i := by
  by_contra hnone
  push Not at hnone
  rw [hprogress.rest v hv hnone] at hinseg
  revert hinseg
  decide

/-- An entry that was passed is another one than the next. -/
theorem mem_taken {e : SegTableEntry} (he : e ∈ done.filterMap (g₀.taken source))
    (hnew : n ∉ done) :
    ∃ n', n' ≠ n ∧ (g₀.segment source n').getKind ≠ .free ∧ g₀.segment source n' = e := by
  obtain ⟨n', hn', htaken⟩ := List.mem_filterMap.mp he
  unfold Layout.taken at htaken
  split at htaken
  · cases htaken
  · rename_i hkind
    exact ⟨n', fun heq => hnew (heq ▸ hn'), hkind, Option.some.inj htaken⟩

theorem segment_source
    (hprogress : CloneProgress g₀ s₀ h m source ms (done.filterMap (g₀.taken source)) g s)
    (hne : source ≠ h) : g.segment source n = g₀.segment source n :=
  congrArg PageTableL2Entry.toSeg (hprogress.carried.segs source n hne)

theorem copyable
    (hprogress : CloneProgress g₀ s₀ h m source ms (done.filterMap (g₀.taken source)) g s)
    (hne : source ≠ h) (hapart : SegmentsApart g₀ source) (hnew : n ∉ done)
    (hkind : (g₀.segment source n).getKind ≠ .free) :
    Copyable g h source (g₀.segment source n) := by
  have hkept : ∀ i, Kept s₀.toUserSpace (g₀.desc (entryPage (g₀.segment source n) source i))
      s.toUserSpace (g.desc (entryPage (g₀.segment source n) source i)) :=
    fun i => hprogress.carried.pages _ hne
  refine ⟨fun i hi => ?_, fun i hi => ?_, fun i hi => ?_⟩
  · exact (hkept i).sameRights.inseg.trans (hapart.inside n i hkind hi)
  · rw [(hkept i).sameRights.shared]
    exact hapart.shared n i hkind hi
  · by_contra hinseg
    obtain ⟨e, he, j, hj, heq⟩ :=
      hprogress.only (v := entryPage (g₀.segment source n) h i) rfl (by simpa using hinseg)
    obtain ⟨n', hn', hkind', rfl⟩ := mem_taken he hnew
    exact hn' (hapart.apart n n' i j hkind hkind' hi hj (entryPage_swap heq)).symm

/-- The first free entry of the clone is behind all copies. -/
theorem first_free {taken : List SegTableEntry}
    (hprogress : CloneProgress g₀ s₀ h m source ms taken g s)
    (hkinds : ∀ e ∈ taken, e.getKind ≠ .free) {k : Fin 192}
    (hfree : (g.segment h k).getKind = .free)
    (hfirst : ∀ k', k' < k → (g.segment h k').getKind ≠ .free) : k.val = taken.length := by
  by_contra hne
  obtain hlt | hgt := Nat.lt_or_gt_of_ne hne
  · have hshape := hprogress.copied k _ (List.getElem?_eq_getElem hlt)
    exact hkinds _ (List.getElem_mem hlt) (hshape.kind.symm.trans hfree)
  · exact hfirst ⟨taken.length, by omega⟩ hgt (hprogress.unused _ (Nat.le_refl _))

/-- One entry of the source is copied. -/
theorem step (hprogress : CloneProgress g₀ s₀ h m source ms (done.filterMap (g₀.taken source)) g s)
    (hne : source ≠ h) (hapart : SegmentsApart g₀ source) (hnew : n ∉ done)
    (hkind : (g₀.segment source n).getKind ≠ .free)
    (hclone : cloneSegmentFrom h source s n = .ok s') :
    ∃ g', CloneProgress g₀ s₀ h m source ms
      (done.filterMap (g₀.taken source) ++ [g₀.segment source n]) g' s' := by
  have hcopy := hprogress.copyable hne hapart hnew hkind
  have hsegment := hprogress.segment_source (n := n) hne
  rw [← hsegment] at hcopy
  obtain ⟨k, hfree, hfirst, g', hwork', hlocked', hcarried', hentries, hcopied, hreg⟩ :=
    hprogress.work.cloneSegmentFrom_inv hprogress.locked hne hcopy hclone
  rw [hsegment] at hcarried' hentries hcopied hreg
  generalize htaken : done.filterMap (g₀.taken source) = taken at *
  have hkinds : ∀ e ∈ taken, e.getKind ≠ .free := by
    rw [← htaken]
    intro e he
    obtain ⟨n', _, hkind', rfl⟩ := mem_taken he hnew
    exact hkind'
  have hk := hprogress.first_free hkinds hfree hfirst
  have hother : ∀ e ∈ taken, ∀ i, i < e.getLength → ¬ InRange h
      ((g₀.segment source n).start * pageSize) (g₀.segment source n).getLength
      (entryPage e h i) := by
    rintro e he i hi ⟨j, hj, heq⟩
    rw [← htaken] at he
    obtain ⟨n', hn', hkind', rfl⟩ := mem_taken he hnew
    exact hn' (hapart.apart n' n i j hkind' hkind hi hj (entryPage_swap heq))
  have hkept : ∀ i, Kept s₀.toUserSpace (g₀.desc (entryPage (g₀.segment source n) source i))
      s.toUserSpace (g.desc (entryPage (g₀.segment source n) source i)) :=
    fun i => hprogress.carried.pages _ hne
  refine ⟨g', hwork', hlocked', ?_, fun k' e he => ?_, fun k' hk' => ?_, fun e he i hi => ?_,
    fun v hv hrest => ?_, ?_, ?_⟩
  · refine hprogress.carried.trans (hcarried'.mono (fun _ => id) (fun _ => id) ?_)
    rintro _ ⟨i, _, rfl⟩
    rfl
  · rw [hentries k']
    by_cases heq : k' = k
    · subst heq
      rw [if_pos rfl]
      rw [hk, List.getElem?_concat_length] at he
      cases he
      exact sameShape_recorded _ _
    · rw [if_neg heq]
      refine hprogress.copied k' e ?_
      have hlt := (List.getElem?_eq_some_iff.mp he).1
      rw [List.length_append, List.length_singleton] at hlt
      have hkk : k'.val ≠ k.val := fun h => heq (Fin.ext h)
      rwa [List.getElem?_append_left (by omega)] at he
  · rw [hentries k', if_neg]
    · refine hprogress.unused k' ?_
      rw [List.length_append] at hk'
      omega
    · rintro rfl
      rw [List.length_append, List.length_singleton] at hk'
      omega
  · obtain he | he := List.mem_append.mp he
    · exact (hprogress.pages e he i hi).kept (hcarried'.pages _ (hother e he i hi))
    · obtain rfl := List.mem_singleton.mp he
      exact (hcopied i hi).of_kept (hkept i)
  · have hblank := hprogress.rest v hv fun e he => hrest e (List.mem_append_left _ he)
    rw [(hcarried'.pages v ?_).desc_eq ?_, hblank]
    · rintro ⟨i, hi, heq⟩
      exact hrest _ (List.mem_append_right _ List.mem_cons_self) i hi heq
    · rw [hblank]
      decide
  · by_cases hshared : 0 < (g₀.segment source n).getLength ∧
        (g₀.segment source n).getKind = .occShared
    · exact hprogress.objects.trans (hreg.joined hshared.1 hshared.2).objects
    · exact hprogress.objects.trans (hreg.same hshared).butUsers
  · refine hreg.users (fun hk' h0 => ?_) hk hprogress.users
    have hshared := (hapart.shared n 0 hkind h0).mpr hk'
    rw [(hkept 0).desc_eq (Copied.not_resident hshared)]
    exact (hprogress.objects.blockOf _).symm

/-- The whole loop of `clone_process`. -/
theorem all (hstart : CloneProgress g₀ s₀ h m source ms [] g₀ s₀) (hne : source ≠ h)
    (hapart : SegmentsApart g₀ source)
    (hloop : (List.range maxSegments).foldlM (cloneStep h source) s₀ = .ok s') :
    ∃ g', CloneProgress g₀ s₀ h m source ms ((List.finRange 192).filterMap (g₀.taken source))
      g' s' := by
  have hrange : List.range maxSegments = (List.finRange 192).map Fin.val :=
    List.map_coe_finRange_eq_range.symm
  rw [hrange, List.foldlM_map] at hloop
  let I : List (Fin 192) → KernelSystem → Prop := fun rest u => ∃ done g,
    done ++ rest = List.finRange 192 ∧
      CloneProgress g₀ s₀ h m source ms (done.filterMap (g₀.taken source)) g u
  have hstep : ∀ n rest u u', I (n :: rest) u → cloneStep h source u n = .ok u' → I rest u' := by
    rintro n rest u u' ⟨done, g, hdone, hprogress⟩ hn
    have hnew : n ∉ done := by
      have hnodup := List.nodup_finRange 192
      rw [← hdone] at hnodup
      exact fun hmem => (List.nodup_append.mp hnodup).2.2 n hmem n List.mem_cons_self rfl
    have hnext : (done ++ [n]) ++ rest = List.finRange 192 := by
      rw [← hdone, List.append_assoc]
      rfl
    obtain ⟨p, hp, _, hat⟩ := hprogress.work.inv.pcb_ok hprogress.locked.1
    unfold cloneStep at hn
    simp only [hp, Outcome.ok_bind, KernelInv.index_ste hat,
      hprogress.work.inv.ste_eq hprogress.locked.1, hprogress.segment_source hne] at hn
    split at hn
    · rename_i hfree
      cases hn
      refine ⟨done ++ [n], g, hnext, ?_⟩
      have hnone : g₀.taken source n = none := if_pos hfree
      rw [List.filterMap_append, List.filterMap_cons_none hnone, List.filterMap_nil,
        List.append_nil]
      exact hprogress
    · rename_i hkind
      obtain ⟨g', hprogress'⟩ := hprogress.step hne hapart hnew hkind hn
      refine ⟨done ++ [n], g', hnext, ?_⟩
      have hsome : g₀.taken source n = some (g₀.segment source n) := if_neg hkind
      rw [List.filterMap_append, List.filterMap_cons_some hsome, List.filterMap_nil]
      exact hprogress'
  obtain ⟨done, g', hdone, hprogress⟩ := Outcome.foldlM_ok I hstep ⟨[], g₀, rfl, hstart⟩ hloop
  rw [List.append_nil] at hdone
  subst hdone
  exact ⟨g', hprogress⟩

end CloneProgress

namespace KernelInv

variable {g : Layout} {s s' : KernelSystem} {h source ms pid : Nat}

/-- What a process has stays its own while another one is added. -/
theorem segmentsApart_carried {g g' : Layout} {s s' : KernelSystem} {h source : Nat}
    (hcarried : Carried (fun _ => False) (· = h) (fun _ => False) g s g' s') (hne : source ≠ h)
    (hapart : SegmentsApart g source) : SegmentsApart g' source := by
  have hsegment : ∀ n, g'.segment source n = g.segment source n := fun n =>
    congrArg PageTableL2Entry.toSeg (hcarried.segs source n hne)
  have hrights : ∀ v, SameRights (g.desc v) (g'.desc v) := fun v =>
    (hcarried.pages v id).sameRights
  refine ⟨fun n i hkind hi => ?_, fun n i hkind hi => ?_, fun n n' i j => ?_⟩
  · rw [hsegment] at hkind hi ⊢
    exact (hrights _).inseg.trans (hapart.inside n i hkind hi)
  · rw [hsegment] at hkind hi ⊢
    rw [(hrights _).shared]
    exact hapart.shared n i hkind hi
  · rw [hsegment, hsegment]
    exact hapart.apart n n' i j

/-- A new process has copied nothing yet. -/
theorem cloneProgress_start {m : Nat} (hwork : Working g h m s)
    (hms : LockedIn g s (.master source) ms) (hgone : ∀ slot, g.place (.table h slot) = .gone)
    (hfree : ∀ n, (g.segment h n).getKind = .free) : CloneProgress g s h m source ms [] g s where
  work := hwork
  locked := hms
  carried := .refl g s
  copied _ _ he := by simp at he
  unused k _ := hfree k
  pages _ he := by simp at he
  rest v hv _ := by
    rw [Layout.desc, hwork.inv.cells_blank (.inl (hv ▸ hgone v.slot))]
    rfl
  objects := (SameObjects.refl s).butUsers
  users b := by
    cases s.sscbs b with
    | none => rfl
    | some sscb => simp [newUsers, SsegControlBlock.join]

/-- `clone_process` on a resident process whose segments have their own pages. -/
theorem cloneProcess_inv (hinv : KernelInv g noHand noHand s) (hsound : g.Sound)
    (hpid : s.pcbVec.atIndex pid = .ok (some source))
    (hms : g.place (.master source) = .frame ms) (hapart : SegmentsApart g source)
    (hclone : s.cloneProcess pid = .ok (h, s')) :
    ∃ g₀ s₀ m g' s₁, source ≠ h ∧
      Carried (fun _ => False) (· = h) (fun _ => False) g s g₀ s₀ ∧ ProcessAdded h s s₀ ∧
      CloneProgress g₀ s₀ h m source ms ((List.finRange 192).filterMap (g₀.taken source)) g' s₁ ∧
      s' = s₁.ksFtUpdate m FrameTableEntry.ftNone .ksSegTable (.pcb h) := by
  unfold cloneProcess at hclone
  simp only [hpid, Outcome.ok_bind, hinv.masterTableLock_ok hms] at hclone
  obtain ⟨⟨h', m, s₀⟩, hnew, hrest⟩ := Outcome.bind_ok hclone
  obtain ⟨s₁, hloop, hret⟩ := Outcome.bind_ok hrest
  simp only [Except.ok.injEq, Prod.mk.injEq] at hret
  obtain ⟨rfl, rfl⟩ := hret
  obtain ⟨hwork, hlock, hobjects⟩ := hinv.working hsound hms
  obtain ⟨g₀, hwork₀, hcarried₀, hadded, hslots, hfree⟩ := hwork.inv.newProcess_inv hsound hnew
  have hne : source ≠ h' := by
    rintro rfl
    have hgone := (hinv.fresh source (by rw [hadded.handle]; exact Nat.le_of_eq hobjects.nextPcb)).1
    rw [hms] at hgone
    cases hgone
  have hms₀ := hcarried₀.stay (.master source) ms id hwork.master
  obtain ⟨g', hprogress⟩ := (cloneProgress_start hwork₀ hms₀ hslots hfree).all hne
    (segmentsApart_carried hcarried₀ hne hapart) hloop
  exact ⟨g₀, s₀, m, g', s₁, hne, hlock.carried.trans hcarried₀, hadded.of_same hobjects, hprogress,
    rfl⟩

/-- The end of `clone_process`: the master table of the clone is unlocked. -/
theorem cloneProcess_end {g₀ g' : Layout} {s₀ s₁ : KernelSystem} {m : Nat}
    {taken : List SegTableEntry}
    (hcarried₀ : Carried (fun _ => False) (· = h) (fun _ => False) g s g₀ s₀)
    (hprogress : CloneProgress g₀ s₀ h m source ms taken g' s₁) :
    KernelInv g' noHand noHand (s₁.ksFtUpdate m FrameTableEntry.ftNone .ksSegTable (.pcb h)) ∧
      g'.place (.master h) = .frame m ∧
      Carried (Released h) (· = h) (·.proc = h) g s g'
        (s₁.ksFtUpdate m FrameTableEntry.ftNone .ksSegTable (.pcb h)) ∧
      SameObjects s₁ (s₁.ksFtUpdate m FrameTableEntry.ftNone .ksSegTable (.pcb h)) := by
  have hm := hprogress.work.master.1
  obtain ⟨htype, howner, _⟩ := hprogress.work.inv.masters h m hm
  obtain ⟨hinv', hunlock, hobjects⟩ := hprogress.work.inv.reflag_inv hm
    (e := ⟨FrameTableEntry.ftNone, .ksSegTable, some (.pcb h)⟩) htype.symm howner.symm
  exact ⟨hinv', hm, (hcarried₀.mono nofun (fun _ => id) nofun).trans
    ((hprogress.carried.mono (fun _ => .inr) (fun _ => id) (fun _ => id)).trans
      (hunlock.mono (fun _ => id) nofun nofun)), hobjects⟩

end KernelInv

/-- The segments of a process are where their entries say: their pages are in the segment,
shared if it is a mapping, and no two entries have a page in common. -/
structure KernelSystem.Intact (s : KernelSystem) (h : Nat) : Prop where
  pages : ∀ n e, s.segmentEntry h n = some e → e.getKind ≠ .free → ∀ i, i < e.getLength →
    ∃ d, s.descriptor (entryPage e h i) = some d ∧ d.getInseg = true ∧
      (d.getShared = true ↔ e.getKind = .occShared)
  apart : ∀ n n' e e', s.segmentEntry h n = some e → s.segmentEntry h n' = some e' →
    e.getKind ≠ .free → e'.getKind ≠ .free → ∀ i j, i < e.getLength → j < e'.getLength →
      entryPage e h i = entryPage e' h j → n = n'

theorem KernelInv.segmentsApart {g : Layout} {s : KernelSystem} {h m : Nat}
    (hinv : KernelInv g noHand noHand s) (hsound : g.Sound)
    (hm : g.place (.master h) = .frame m) (hintact : s.Intact h) : SegmentsApart g h := by
  have hentry : ∀ n, s.segmentEntry h n = some (g.segment h n) := fun n =>
    hinv.segmentEntry_eq (not_noMaster hm)
  have hdesc : ∀ v d, v.proc = h → s.descriptor v = some d → g.desc v = d := by
    rintro v d rfl hd
    rw [hinv.descriptor_eq (not_noMaster hm) (hsound _ _ m hm)] at hd
    split at hd
    · cases hd
    · exact Option.some.inj hd
  refine ⟨fun n i hkind hi => ?_, fun n i hkind hi => ?_, fun n n' i j hkind hkind' hi hj heq =>
    hintact.apart n n' _ _ (hentry n) (hentry n') hkind hkind' i j hi hj heq⟩
  · obtain ⟨d, hd, hinseg, _⟩ := hintact.pages n _ (hentry n) hkind i hi
    rw [hdesc _ d rfl hd]
    exact hinseg
  · obtain ⟨d, hd, _, hshared⟩ := hintact.pages n _ (hentry n) hkind i hi
    rw [hdesc _ d rfl hd]
    exact hshared

end VirtualMemory
