import VirtualMemory.SharedFaults

/-!
# What passes through a fault

A fault moves pages and page tables about, its own and those that make room for it. Rights,
mappings and segment tables stay as they are, and so does every byte of a page that has
contents, whichever frames and clusters the page goes through.
-/

namespace VirtualMemory

open Function UserSpace KernelSystem PageTableL2Entry

namespace KernelSystem

/-- What a fault goes through is in memory when it gets there, and the pages are in segments. -/
def FaultsIn : Nat → KernelSystem → Nat → Nat → Prop
  | 0, _, _, _ => True
  | depth + 1, s, h, addr => s.HasMaster h ∧ s.InSegment (pageOf h addr) ∧
      ∀ ptl2e s₁ d, s.faultTable h addr = .ok (ptl2e, s₁) → (s₁.mem ptl2e).getShared = true →
        s₁.ssegVec.atIndex (s₁.mem ptl2e).ssegInd.toNat = .ok d →
          FaultsIn depth s₁ d (ssegAddr (s₁.mem ptl2e) addr)

/-- A fault does not go through the page table `t`. -/
def FaultsOutside (t : KTable) : Nat → KernelSystem → Nat → Nat → Prop
  | 0, _, _, _ => True
  | depth + 1, s, h, addr => t ≠ .table h (slotOf addr) ∧
      ∀ ptl2e s₁ d, s.faultTable h addr = .ok (ptl2e, s₁) → (s₁.mem ptl2e).getShared = true →
        s₁.ssegVec.atIndex (s₁.mem ptl2e).ssegInd.toNat = .ok d →
          FaultsOutside t depth s₁ d (ssegAddr (s₁.mem ptl2e) addr)

end KernelSystem

/-- What a step that neither makes nor removes a segment lets pass: rights, mappings and the
segment tables stay; the bytes that the step `spares` keep their values wherever their pages
go; a page table on the disk that the step keeps `outside` stays there. -/
structure Passed (spares : LPage → Fin 1024 → Prop) (outside : KTable → Prop) (g : Layout)
    (s : KernelSystem) (g' : Layout) (s' : KernelSystem) : Prop where
  sound : g.Sound → g'.Sound
  rights : ∀ v, SameRights (g.desc v) (g'.desc v)
  shared : ∀ v, (g.desc v).getShared = true → g'.desc v = g.desc v
  bytes : ∀ v p, s.content (g.desc v) = some p → ∃ p', s'.content (g'.desc v) = some p' ∧
    ∀ off, spares v off → p'.byte off = p.byte off
  segs : ∀ h n, g'.segment h n = g.segment h n
  dead : ∀ h, g'.NoMaster h → g.NoMaster h
  stored : ∀ h slot c, outside (.table h slot) → g.place (.table h slot) = .cluster c →
    g'.place (.table h slot) = .cluster c ∧ ∀ i, g'.desc ⟨h, slot, i⟩ = g.desc ⟨h, slot, i⟩
  objects : SameObjects s s'

namespace Passed

variable {spares spares' : LPage → Fin 1024 → Prop} {outside outside' : KTable → Prop}
  {g g' g'' : Layout} {s s' s'' : KernelSystem} {loose : KTable → Prop} {but : LPage → Prop}

theorem trans (h : Passed spares outside g s g' s') (h' : Passed spares outside g' s' g'' s'') :
    Passed spares outside g s g'' s'' where
  sound hg := h'.sound (h.sound hg)
  rights v := (h.rights v).trans (h'.rights v)
  shared v hv := by
    rw [h'.shared v ((h.rights v).shared.trans hv), h.shared v hv]
  bytes v p hp := by
    obtain ⟨p', hp', hbytes⟩ := h.bytes v p hp
    obtain ⟨p'', hp'', hbytes'⟩ := h'.bytes v p' hp'
    exact ⟨p'', hp'', fun off hoff => (hbytes' off hoff).trans (hbytes off hoff)⟩
  segs x n := (h'.segs x n).trans (h.segs x n)
  dead x hx := h.dead x (h'.dead x hx)
  stored x slot c hout hc := by
    obtain ⟨hc', hdesc⟩ := h.stored x slot c hout hc
    obtain ⟨hc'', hdesc'⟩ := h'.stored x slot c hout hc'
    exact ⟨hc'', fun i => (hdesc' i).trans (hdesc i)⟩
  objects := h.objects.trans h'.objects

theorem mono (h : Passed spares outside g s g' s')
    (hspares : ∀ v off, spares' v off → spares v off) (houtside : ∀ t, outside' t → outside t) :
    Passed spares' outside' g s g' s' where
  sound := h.sound
  rights := h.rights
  shared := h.shared
  bytes v p hp := by
    obtain ⟨p', hp', hbytes⟩ := h.bytes v p hp
    exact ⟨p', hp', fun off hoff => hbytes off (hspares v off hoff)⟩
  segs := h.segs
  dead := h.dead
  stored x slot c hout := h.stored x slot c (houtside _ hout)
  objects := h.objects

/-- A step that is about the pages in `but`. -/
theorem of_carried (hinv : KernelInv g noHand noHand s)
    (hcarried : Carried loose (fun _ => False) but g s g' s') (hobjects : SameObjects s s')
    (hrights : ∀ v, but v → SameRights (g.desc v) (g'.desc v))
    (hshared : ∀ v, but v → (g.desc v).getShared = true → g'.desc v = g.desc v)
    (hbytes : ∀ v, but v → ∀ p, s.content (g.desc v) = some p →
      ∃ p', s'.content (g'.desc v) = some p' ∧ ∀ off, spares v off → p'.byte off = p.byte off)
    (hstored : ∀ h slot c, outside (.table h slot) → g.place (.table h slot) = .cluster c →
      g'.place (.table h slot) = .cluster c ∧ ∀ i, but ⟨h, slot, i⟩ →
        g'.desc ⟨h, slot, i⟩ = g.desc ⟨h, slot, i⟩) :
    Passed spares outside g s g' s' where
  sound := hcarried.sound
  rights v := by
    by_cases hv : but v
    · exact hrights v hv
    · exact (hcarried.pages v hv).sameRights
  shared v := by
    by_cases hv : but v
    · exact hshared v hv
    · exact KernelInv.desc_of_shared (hcarried.pages v hv)
  bytes v p hp := by
    by_cases hv : but v
    · exact hbytes v hv p hp
    · exact ⟨p, (hcarried.pages v hv).2.trans hp, fun _ _ => rfl⟩
  segs x n := by
    rw [Layout.segment, hcarried.segs x n id, Layout.segment]
  dead x hx := (hcarried.dead x id hx).1
  stored x slot c hout hc := by
    obtain ⟨hc', hself⟩ := hstored x slot c hout hc
    refine ⟨hc', fun i => ?_⟩
    by_cases hv : but ⟨x, slot, i⟩
    · exact hself i hv
    · refine (hcarried.pages _ hv).desc_eq fun hr => ?_
      obtain ⟨f, hf⟩ := hinv.resident_frame hr
      cases hc.symm.trans hf
  objects := hobjects

/-- A step that is about no page. -/
theorem of_paged (hinv : KernelInv g noHand noHand s)
    (hcarried : Carried loose (fun _ => False) (fun _ => False) g s g' s')
    (hobjects : SameObjects s s')
    (hstored : ∀ h slot c, outside (.table h slot) → g.place (.table h slot) = .cluster c →
      g'.place (.table h slot) = .cluster c) : Passed spares outside g s g' s' :=
  of_carried hinv hcarried hobjects nofun nofun nofun fun h slot c hout hc =>
    ⟨hstored h slot c hout hc, nofun⟩

/-- A step that only changes frame table entries or rolls dice. -/
theorem quiet (g : Layout) (hcontent : ∀ e, s'.content e = s.content e)
    (hobjects : SameObjects s s') : Passed spares outside g s g s' where
  sound := id
  rights _ := .refl _
  shared _ _ := rfl
  bytes _ p hp := ⟨p, (hcontent _).trans hp, fun _ _ => rfl⟩
  segs _ _ := rfl
  dead _ := id
  stored _ _ _ _ hc := ⟨hc, fun _ => rfl⟩
  objects := hobjects

end Passed

/-- A step that keeps every byte and brings no page table in. -/
abbrev PassedAll (g : Layout) (s : KernelSystem) (g' : Layout) (s' : KernelSystem) : Prop :=
  Passed (fun _ _ => True) (fun _ => True) g s g' s'

/-- A page table on the disk stays there while another one is brought in. -/
theorem BroughtIn.stored {t u : KTable} {g g' : Layout} {s : KernelSystem} {c : Nat}
    (hbrought : BroughtIn t g s g') (hne : u ≠ t) (hc : g.place u = .cluster c) :
    g'.place u = .cluster c := by
  obtain ⟨_, hsame⟩ | ⟨_, hroom⟩ := hbrought
  · rw [hsame, hc]
  · exact hroom.stored u hne c hc

namespace KernelInv

variable {g : Layout} {s s' : KernelSystem} {h m addr depth pid : Nat}

/-- The descriptor of a page whose table exists. -/
theorem descriptor_at (hinv : KernelInv g noHand noHand s) (hsound : g.Sound)
    (hm : g.place (.master h) = .frame m) (addr : Nat)
    (hthere : g.place (.table h (slotOf addr)) ≠ .gone) :
    s.descriptor (pageOf h addr) = some (g.desc (pageOf h addr)) := by
  rw [hinv.descriptor_eq (not_noMaster hm) (hsound _ _ m hm)]
  exact if_neg hthere

/-- Whichever frame is unlocked, the tables stay where they are. -/
theorem unlock_passed {spares : LPage → Fin 1024 → Prop} {outside : KTable → Prop}
    (hinv : KernelInv g noHand noHand s) (f : Nat) :
    KernelInv g noHand noHand (s.pageUnlock f) ∧
      Passed spares outside g s g (s.pageUnlock f) := by
  refine ⟨?_, .quiet g (fun e => by rw [pageUnlock_user]) ?_⟩
  · unfold KernelSystem.pageUnlock
    split
    · exact hinv
    · exact hinv.reflag rfl rfl
  · unfold KernelSystem.pageUnlock
    split
    · exact .refl s
    · exact ⟨rfl, rfl, rfl, rfl, fun _ => rfl, rfl, rfl, rfl, rfl, rfl, rfl, rfl⟩

/-- The mapping of a shared page that was faulted on leads to a segment. -/
theorem sharedFault_dummy (hinv : KernelInv g noHand noHand s) (hsound : g.Sound)
    (hm : g.place (.master h) = .frame m) (hshared : (g.desc (pageOf h addr)).getShared = true)
    (hfault : pageFault depth s h addr = .ok s') :
    ∃ d, s.ssegVec.atIndex (g.desc (pageOf h addr)).ssegInd.toNat = .ok d := by
  obtain ⟨_, g₁, s₁, f, s₂, _, hwork₁, hpaged, hobjects, hf, _, hentry, _⟩ :=
    hinv.pageFault_ok hsound hm hfault
  unfold faultEntry at hentry
  rw [hwork₁.inv.mem_pageOf hf, desc_of_shared (hpaged.pages _ id) hshared, if_pos hshared,
    hobjects.ssegVec] at hentry
  obtain ⟨d, hd, _⟩ := Outcome.bind_ok hentry
  exact ⟨d, hd⟩

theorem pageFault_passed (hinv : KernelInv g noHand noHand s) (hsound : g.Sound)
    (hfaults : FaultsIn depth s h addr) (hfault : pageFault depth s h addr = .ok s') :
    ∃ g', KernelInv g' noHand noHand s' ∧
      Passed (fun _ _ => True) (FaultsOutside · depth s h addr) g s g' s' := by
  induction depth generalizing g s h addr s' with
  | zero => cases hfault
  | succ depth ih =>
      obtain ⟨hmaster, hinseg, hrest⟩ := hfaults
      obtain ⟨m, hm⟩ := hinv.hasMaster_iff.mp hmaster
      rw [hinv.inSegment_iff hsound hm] at hinseg
      cases hshared : (g.desc (pageOf h addr)).getShared with
      | false =>
          obtain ⟨g', hinv', _, hcarried, hobjects, hfaulted, hbrought⟩ :=
            hinv.pageFault_inv hsound hm hinseg hshared hfault
          refine ⟨g', hinv', .of_carried hinv hcarried hobjects ?_ ?_ ?_ ?_⟩
          · rintro _ rfl
            exact hfaulted.rights
          · rintro _ rfl hmapped
            rw [hshared] at hmapped
            cases hmapped
          · rintro _ rfl p hp
            exact ⟨p, hfaulted.content p hp, fun _ _ => rfl⟩
          · intro x slot c hout hc
            refine ⟨hbrought.stored hout.1 hc, fun i heq => ?_⟩
            cases heq
            exact absurd rfl hout.1
      | true =>
          -- the fault goes on to the dummy of the segment
          obtain ⟨d, hd⟩ := hinv.sharedFault_dummy hsound hm hshared hfault
          obtain ⟨_, g₁, s₁, f, s₂, heq, hwork₁, hpaged, hobjects, hf, hbrought, htable, hentry,
            rfl⟩ := hinv.sharedFault_ok hsound hm hshared hd hfault
          cases heq
          have hdesc : s₁.mem ⟨f, cellOf addr⟩ = g.desc (pageOf h addr) :=
            (hwork₁.inv.mem_pageOf hf).trans (desc_of_shared (hpaged.pages _ id) hshared)
          have hnext : ∀ {P : Nat → KernelSystem → Nat → Nat → Prop},
              (∀ ptl2e s₁ d, s.faultTable h addr = .ok (ptl2e, s₁) →
                (s₁.mem ptl2e).getShared = true →
                s₁.ssegVec.atIndex (s₁.mem ptl2e).ssegInd.toNat = .ok d →
                  P depth s₁ d (ssegAddr (s₁.mem ptl2e) addr)) →
              P depth s₁ d (ssegAddr (g.desc (pageOf h addr)) addr) := by
            intro P hP
            have hthere := hP _ s₁ d htable (by rw [hdesc, hshared])
              (by rw [hdesc, hobjects.ssegVec, hd])
            rwa [hdesc] at hthere
          obtain ⟨g₂, hinv₂, hpassed⟩ := ih hwork₁.inv hwork₁.sound (hnext hrest) hentry
          obtain ⟨hinv₃, hunlock⟩ := hinv₂.unlock_passed m
          refine ⟨g₂, hinv₃, .trans (.of_paged hinv hpaged hobjects fun x slot c hout hc =>
            hbrought.stored hout.1 hc) ((hpassed.mono (fun _ _ => id) fun t hout =>
              hnext hout.2).trans (hunlock.mono (fun _ _ => id) fun _ _ => trivial))⟩

end KernelInv

end VirtualMemory
