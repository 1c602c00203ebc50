import VirtualMemory.Segments

/-!
# Page faults and accesses

`page_fault` and `access` on a process whose master table is resident. A fault brings in
the page table and then the page; an access moves nothing, and a WRITE that is granted
marks the page. On a shared page both go on to the dummy process of the segment.
-/

namespace VirtualMemory

open Function UserSpace KernelSystem PageTableL2Entry

/-- Where the tables are once table `t` was brought in, if it was out. -/
def BroughtIn (t : KTable) (g : Layout) (s : KernelSystem) (g' : Layout) : Prop :=
  ((∃ f, g.place t = .frame f) ∧ g'.place = g.place) ∨
    ((∀ f, g.place t ≠ .frame f) ∧ KernelInv.MadeRoom (· = t) g s g')

theorem BroughtIn.congr {t : KTable} {g g₁ g' : Layout} {s : KernelSystem}
    (hbrought : BroughtIn t g s g₁) (hplace : g'.place = g₁.place) : BroughtIn t g s g' := by
  obtain ⟨hin, hsame⟩ | ⟨hout, hroom⟩ := hbrought
  · exact .inl ⟨hin, hplace.trans hsame⟩
  · refine .inr ⟨hout, fun u hu hnot => ?_, fun u hu hmakes f => ?_, fun u hu c hc => ?_⟩
    · rw [hplace, hroom.stay u hu hnot]
    · rw [hplace]
      exact hroom.gone u hu hmakes f
    · rw [hplace, hroom.stored u hu c hc]

namespace Working

variable {g : Layout} {s s' : KernelSystem} {h m addr : Nat} {ptl2e : KAddr}

/-- The page table of a page of a segment is brought in. -/
theorem faultPtl2_ok (hwork : Working g h m s)
    (hfault : s.faultPtl2 h addr ⟨m, slotCell (slotOf addr)⟩ = .ok (ptl2e, s')) :
    ∃ g' f, Working g' h m s' ∧
      OnlyPaged g s g' s' ∧ SameObjects s s' ∧
      g'.place (.table h (slotOf addr)) = .frame f ∧ ptl2e = ⟨f, cellOf addr⟩ ∧
      BroughtIn (.table h (slotOf addr)) g s g' := by
  unfold faultPtl2 at hfault
  cases hpl : g.place (.table h (slotOf addr)) with
  | frame f =>
      simp only [hwork.inv.accessPtl2_eq hwork.master.1 hpl, Except.ok.injEq,
        Prod.mk.injEq] at hfault
      obtain ⟨rfl, rfl⟩ := hfault
      exact ⟨g, f, hwork, .refl g s, .refl s, hpl, rfl, .inl ⟨⟨f, hpl⟩, rfl⟩⟩
  | cluster c =>
      have hagree := hwork.inv.agrees hwork.master.1 (slotOf addr)
      rw [hpl] at hagree
      have hout : s.accessPtl2 addr ⟨m, slotCell (slotOf addr)⟩ = .error .pageFault := by
        unfold accessPtl2
        rw [if_neg (by rw [hagree.1]; decide), if_pos hagree.1]
      simp only [hout, swapPageTable, hwork.inv.accessPtl1_eq hwork.master.1,
        Outcome.ok_bind] at hfault
      obtain ⟨s₁, hfetch, hrest⟩ := Outcome.bind_ok hfault
      obtain ⟨g', f, hinv', hcarried, hobjects, hin, hroom⟩ :=
        hwork.inv.fetchPageTable_inv hwork.master hpl hfetch
      simp only [hinv'.accessPtl2_eq hin.master.1 hin.table, derefPtl2, Outcome.ok_bind,
        Except.ok.injEq, Prod.mk.injEq] at hrest
      obtain ⟨rfl, rfl⟩ := hrest
      exact ⟨g', f, hwork.carry hinv' hcarried id, hcarried, hobjects, hin.table, rfl,
        .inr ⟨by simp [hpl], hroom⟩⟩
  | lost => exact absurd hpl (hwork.sound h _ m hwork.master.1)
  | gone =>
      have hagree := hwork.inv.agrees hwork.master.1 (slotOf addr)
      rw [hpl] at hagree
      have hunused : s.accessPtl2 addr ⟨m, slotCell (slotOf addr)⟩ = .error .trap := by
        unfold accessPtl2
        exact if_pos hagree
      simp [hunused] at hfault

end Working

namespace KernelInv

variable {g : Layout} {s s' : KernelSystem} {h m addr depth : Nat}

/-- A descriptor, read at its address in memory. -/
theorem mem_pageOf {f : Nat} (hinv : KernelInv g noHand noHand s)
    (hf : g.place (.table h (slotOf addr)) = .frame f) :
    s.mem ⟨f, cellOf addr⟩ = g.desc (pageOf h addr) := hinv.mem_eq hf _

/-- A fault, once the page table is in memory. -/
theorem pageFault_ok (hinv : KernelInv g noHand noHand s) (hsound : g.Sound)
    (hm : g.place (.master h) = .frame m) (hfault : pageFault depth s h addr = .ok s') :
    ∃ d g₁ s₁ f s₂, depth = d + 1 ∧ Working g₁ h m s₁ ∧ OnlyPaged g s g₁ s₁ ∧
      SameObjects s s₁ ∧ g₁.place (.table h (slotOf addr)) = .frame f ∧
      BroughtIn (.table h (slotOf addr)) g (s.ksLockPage m) g₁ ∧
      s₁.faultEntry (pageFault d) addr ⟨f, cellOf addr⟩ = .ok s₂ ∧ s' = s₂.pageUnlock m := by
  cases depth with
  | zero => cases hfault
  | succ d =>
      obtain ⟨hwork, hlock, hobjects⟩ := hinv.working hsound hm
      unfold pageFault at hfault
      simp only [hinv.masterTableLock_ok hm, Outcome.ok_bind, hwork.inv.accessPtl1_eq hm,
        deref] at hfault
      split at hfault
      · cases hfault
      · obtain ⟨⟨ptl2e, s₁⟩, hptl2, hrest⟩ := Outcome.bind_ok hfault
        obtain ⟨s₂, hentry, hret⟩ := Outcome.bind_ok hrest
        obtain ⟨g₁, f, hwork₁, hpaged, hobjects₁, hf, rfl, hbrought⟩ := hwork.faultPtl2_ok hptl2
        exact ⟨d, g₁, s₁, f, s₂, rfl, hwork₁, hlock.trans hpaged, hobjects.trans hobjects₁, hf,
          hbrought, hentry, (Except.ok.inj hret).symm⟩

/-- A page after a fault on it: with the contents it had, if it had any. -/
structure Faulted (s : KernelSystem) (e : PageTableL2Entry) (s' : KernelSystem)
    (e' : PageTableL2Entry) : Prop where
  resident : e'.Resident
  rights : SameRights e e'
  content : ∀ p, s.content e = some p → s'.content e' = some p

/-- A fault on a private page of a segment. -/
theorem pageFault_inv (hinv : KernelInv g noHand noHand s) (hsound : g.Sound)
    (hm : g.place (.master h) = .frame m) (hinseg : (g.desc (pageOf h addr)).getInseg = true)
    (hshared : (g.desc (pageOf h addr)).getShared = false)
    (hfault : pageFault depth s h addr = .ok s') :
    ∃ g', KernelInv g' noHand noHand s' ∧ g'.place (.master h) = .frame m ∧
      Carried (Released h) (fun _ => False) (· = pageOf h addr) g s g' s' ∧ SameObjects s s' ∧
      Faulted s (g.desc (pageOf h addr)) s' (g'.desc (pageOf h addr)) ∧
      BroughtIn (.table h (slotOf addr)) g (s.ksLockPage m) g' := by
  obtain ⟨d, g₁, s₁, f, s₂, rfl, hwork₁, hpaged, hobjects, hf, hbrought, hentry, rfl⟩ :=
    hinv.pageFault_ok hsound hm hfault
  have hkept := hpaged.pages (pageOf h addr) id
  have hshared₁ := hkept.sameRights.shared.trans hshared
  unfold faultEntry at hentry
  rw [hwork₁.inv.mem_pageOf hf, if_neg (by simp [hshared₁])] at hentry
  obtain ⟨us', hus, hret⟩ := Outcome.bind_ok hentry
  cases hret
  obtain ⟨w', huser, hbut, hresident, hrights, hcontent⟩ := faultPage_inv
    (v := pageOf h addr) hwork₁.inv.user (Layout.addr_of_frame hf _) hshared₁
    (hkept.sameRights.inseg.trans hinseg) hus
  obtain ⟨hinv₂, hcarried₂, hobjects₂⟩ := hwork₁.inv.userStep hf huser hbut
  have hwork₂ := hwork₁.carry hinv₂ hcarried₂ id
  obtain ⟨hinv₃, hunlock, hobjects₃⟩ := hwork₂.unlocked
  have hkept₃ := hunlock.pages (pageOf h addr) id
  refine ⟨_, hinv₃, hwork₂.master.1, hpaged.carried.trans ((hcarried₂.mono nofun nofun
    (fun _ => id)).trans (hunlock.mono (fun _ => id) nofun nofun)),
    hobjects.trans (hobjects₂.trans hobjects₃), ⟨hresident, hkept.sameRights.trans hrights,
      fun p hp => ?_⟩, hbrought.congr rfl⟩
  exact hkept₃.2.trans (hcontent p (hkept.2.trans hp))

/-- An access, once the process is known: either its page table is not in memory and only
the status is returned, or the descriptor is looked at. -/
theorem access_ok {pid : Nat} {type : AccessType} {ignoreAccess : Bool} {status : Status}
    (hinv : KernelInv g noHand noHand s) (hsound : g.Sound)
    (hm : g.place (.master h) = .frame m) (hpcb : s.accessPcb pid = .ok h)
    (haccess : access depth s pid addr type ignoreAccess = .ok (status, s')) :
    ∃ d, depth = d + 1 ∧ Working g h m (s.ksLockPage m) ∧
      ((∀ f, g.place (.table h (slotOf addr)) ≠ .frame f) ∧ status ≠ .ok ∧
          s' = (s.ksLockPage m).pageUnlock m ∨
        ∃ f s₁, g.place (.table h (slotOf addr)) = .frame f ∧
          (s.ksLockPage m).accessEntry (fun s pid address => access d s pid address type true)
            addr type ignoreAccess ⟨f, cellOf addr⟩ = .ok (status, s₁) ∧
          s' = s₁.pageUnlock m) := by
  cases depth with
  | zero => cases haccess
  | succ d =>
      obtain ⟨hwork, -, -⟩ := hinv.working hsound hm
      refine ⟨d, rfl, hwork, ?_⟩
      unfold access at haccess
      simp only [hpcb, Outcome.ok_bind, hinv.masterTableLock_ok hm,
        hwork.inv.accessPtl1_eq hm] at haccess
      cases hpl : g.place (.table h (slotOf addr)) with
      | frame f =>
          simp only [hwork.inv.accessPtl2_eq hm hpl] at haccess
          obtain ⟨⟨status', s₁⟩, hentry, hret⟩ := Outcome.bind_ok haccess
          cases hret
          exact .inr ⟨f, s₁, rfl, hentry, rfl⟩
      | gone | lost | cluster c =>
          have hagree := hwork.inv.agrees hm (slotOf addr)
          rw [hpl] at hagree
          simp only [L1Agrees] at hagree
          have hout : ∃ e, e ≠ Status.ok ∧ (s.ksLockPage m).accessPtl2 addr
              ⟨m, slotCell (slotOf addr)⟩ = .error e := by
            unfold accessPtl2
            simp only [hagree]
            exact ⟨_, by decide, rfl⟩
          obtain ⟨e, he, hout⟩ := hout
          simp only [hout, Except.ok.injEq, Prod.mk.injEq] at haccess
          obtain ⟨rfl, rfl⟩ := haccess
          exact .inl ⟨by simp, he, rfl⟩

/-- A page after an access to it. -/
structure Accessed (s : KernelSystem) (e : PageTableL2Entry) (type : AccessType)
    (status : Status) (s' : KernelSystem) (e' : PageTableL2Entry) : Prop where
  resident : status = .ok → e.Resident
  entry : e' = if status = .ok ∧ type = .write then e.setDirty true else e
  content : s'.content e' = s.content e

/-- The access, once the descriptor was found. -/
theorem accessEntry_inv {f : Nat} {type : AccessType} {ignoreAccess : Bool} {status : Status}
    {onShared : KernelSystem → Nat → Nat → Except Halt (Status × KernelSystem)}
    (hinv : KernelInv g noHand noHand s) (hf : g.place (.table h (slotOf addr)) = .frame f)
    (hshared : (g.desc (pageOf h addr)).getShared = false)
    (hentry : s.accessEntry onShared addr type ignoreAccess ⟨f, cellOf addr⟩ =
      .ok (status, s')) :
    ∃ g', KernelInv g' noHand noHand s' ∧ g'.place = g.place ∧
      Carried (fun _ => False) (fun _ => False) (· = pageOf h addr) g s g' s' ∧
      SameObjects s s' ∧
      Accessed s (g.desc (pageOf h addr)) type status s' (g'.desc (pageOf h addr)) := by
  have hquiet : ∀ status', status' ≠ Status.ok ∨ type ≠ .write ∧ (g.desc (pageOf h addr)).Resident →
      Accessed s (g.desc (pageOf h addr)) type status' s (g.desc (pageOf h addr)) := by
    rintro status' (hne | ⟨hne, hr⟩)
    · exact ⟨fun h => absurd h hne, by rw [if_neg (fun h => hne h.1)], rfl⟩
    · exact ⟨fun _ => hr, by rw [if_neg (fun h => hne h.2)], rfl⟩
  unfold accessEntry at hentry
  simp only [hinv.mem_pageOf hf] at hentry
  split at hentry
  · cases hentry
    exact ⟨g, hinv, rfl, .refl g s, .refl s, hquiet _ (.inl (by decide))⟩
  · rw [if_neg (by simp [hshared])] at hentry
    unfold accessPhys at hentry
    by_cases hinseg : (g.desc (pageOf h addr)).getInseg = true
    · by_cases hvalid : (g.desc (pageOf h addr)).getValid = true
      · have hr : (g.desc (pageOf h addr)).Resident := ⟨hshared, hvalid⟩
        simp only [hinseg, hvalid, Bool.not_true, Bool.false_eq_true, if_false, Except.ok.injEq,
          Prod.mk.injEq] at hentry
        obtain ⟨rfl, rfl⟩ := hentry
        by_cases hwrite : type = .write
        · rw [if_pos hwrite]
          obtain ⟨huser, hbut, hcontent⟩ := markDirty_inv (v := pageOf h addr) hinv.user
            (Layout.addr_of_frame hf _) hr
          obtain ⟨hinv₁, hcarried, hobjects⟩ := hinv.userStep hf huser hbut
          refine ⟨_, hinv₁, rfl, hcarried, hobjects, fun _ => hr, ?_, ?_⟩
          · rw [if_pos ⟨rfl, hwrite⟩, Layout.withDesc_desc, PageView.put_desc_self]
            rfl
          · rw [Layout.withDesc_desc, PageView.put_desc_self]
            exact hcontent
        · rw [if_neg hwrite]
          exact ⟨g, hinv, rfl, .refl g s, .refl s, hquiet _ (.inr ⟨hwrite, hr⟩)⟩
      · simp only [hinseg, hvalid, Bool.not_true, Bool.not_false, Bool.false_eq_true, if_false,
          if_true, Except.ok.injEq, Prod.mk.injEq] at hentry
        obtain ⟨rfl, rfl⟩ := hentry
        exact ⟨g, hinv, rfl, .refl g s, .refl s, hquiet _ (.inl (by decide))⟩
    · simp only [hinseg, Bool.not_false, if_true, Except.ok.injEq, Prod.mk.injEq] at hentry
      obtain ⟨rfl, rfl⟩ := hentry
      exact ⟨g, hinv, rfl, .refl g s, .refl s, hquiet _ (.inl (by decide))⟩

/-- An access to an address whose page is not shared moves nothing. -/
theorem access_inv {pid : Nat} {type : AccessType} {ignoreAccess : Bool} {status : Status}
    (hinv : KernelInv g noHand noHand s) (hsound : g.Sound)
    (hm : g.place (.master h) = .frame m) (hpcb : s.accessPcb pid = .ok h)
    (hshared : (g.desc (pageOf h addr)).getShared = false)
    (haccess : access depth s pid addr type ignoreAccess = .ok (status, s')) :
    ∃ g', KernelInv g' noHand noHand s' ∧ g'.place = g.place ∧
      Carried (Released h) (fun _ => False) (· = pageOf h addr) g s g' s' ∧ SameObjects s s' ∧
      Accessed s (g.desc (pageOf h addr)) type status s' (g'.desc (pageOf h addr)) := by
  obtain ⟨-, hlock, hobjects⟩ := hinv.working hsound hm
  have hparts : ∃ g' s₁, KernelInv g' noHand noHand s₁ ∧ g'.place = g.place ∧
      Carried (fun _ => False) (fun _ => False) (· = pageOf h addr) g (s.ksLockPage m) g' s₁ ∧
      SameObjects (s.ksLockPage m) s₁ ∧
      Accessed s (g.desc (pageOf h addr)) type status s₁ (g'.desc (pageOf h addr)) ∧
      s' = s₁.pageUnlock m := by
    obtain ⟨d, rfl, hwork, ⟨_, hne, rfl⟩ | ⟨f, s₁, hf, hentry, rfl⟩⟩ :=
      hinv.access_ok hsound hm hpcb haccess
    · exact ⟨g, _, hwork.inv, rfl, .refl _ _, .refl _,
        ⟨fun h => absurd h hne, by rw [if_neg (fun h => hne h.1)], rfl⟩, rfl⟩
    · obtain ⟨g', hinv₁, hplace, hcarried, hobjects₁, haccessed⟩ :=
        hwork.inv.accessEntry_inv hf hshared hentry
      exact ⟨g', s₁, hinv₁, hplace, hcarried, hobjects₁,
        ⟨haccessed.resident, haccessed.entry, haccessed.content⟩, rfl⟩
  obtain ⟨g', s₁, hinv₁, hplace, hcarried, hobjects₁, haccessed, rfl⟩ := hparts
  obtain ⟨hinv₂, hunlock, hobjects₂⟩ := hinv₁.pageUnlock_inv (t := .master h) (by rw [hplace, hm])
  refine ⟨g', hinv₂, hplace, hlock.carried.trans ((hcarried.mono nofun nofun (fun _ => id)).trans
    (hunlock.mono (fun _ => id) nofun nofun)), hobjects.trans (hobjects₁.trans hobjects₂),
    haccessed.resident, haccessed.entry, ?_⟩
  rw [pageUnlock_user]
  exact haccessed.content

end KernelInv

end VirtualMemory
