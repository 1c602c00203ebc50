import VirtualMemory.AddressSpace

/-!
# A master table goes to the disk and comes back

`ks_swap_out` of a master table and the swap-in by `master_table_lock` that follows. The
page tables end up in clusters that their slots name; but the eviction loop marks every
slot as paged out, so that a slot without a page table comes back naming whatever its
`block_disk` was.
-/

namespace VirtualMemory

open Function UserSpace KernelSystem PageTableL2Entry

/-- The address space that the master table in frame `m'` describes is the one that the
master table in frame `m` described. -/
structure MasterKept (s : KernelSystem) (m : Nat) (s' : KernelSystem) (m' : Nat) : Prop where
  unused : ∀ slot, (s.ptl1 ⟨m, slotCell slot⟩).status = PageTableL1Entry.statusUnused →
    (s'.ptl1 ⟨m', slotCell slot⟩).status = PageTableL1Entry.statusUnused
  trap : ∀ addr, s.accessPtl2 addr ⟨m, slotCell (slotOf addr)⟩ = .error .trap →
    s'.accessPtl2 addr ⟨m', slotCell (slotOf addr)⟩ = .error .trap
  paged : ∀ slot, (s.ptl1 ⟨m, slotCell slot⟩).status = PageTableL1Entry.statusPresent ∨
      (s.ptl1 ⟨m, slotCell slot⟩).status = PageTableL1Entry.statusPagedOut →
    (s'.ptl1 ⟨m', slotCell slot⟩).status = PageTableL1Entry.statusPagedOut ∧
      (s'.ptl1 ⟨m', slotCell slot⟩).block < s'.diskSize ∧
      s'.dvt (s'.ptl1 ⟨m', slotCell slot⟩).block = false
  image : ∀ slot, (s'.ptl1 ⟨m', slotCell slot⟩).status = PageTableL1Entry.statusPagedOut →
    ∃ page, s.tablePage (s.ptl1 ⟨m, slotCell slot⟩) = some page ∧
      ∀ i, Kept s.toUserSpace (page i) s'.toUserSpace
        (s'.disk (s'.ptl1 ⟨m', slotCell slot⟩).block i)
  segments : ∀ n, s'.ste ⟨m', segCell n⟩ = s.ste ⟨m, segCell n⟩

namespace KernelInv

variable {g : Layout} {s s' : KernelSystem} {h m c depth : Nat}

/-- The swap-out of a master table, which leaves a frame free. -/
theorem ksSwapOut_master (hinv : KernelInv g noHand noHand s)
    (hm : g.place (.master h) = .frame m)
    (hswap : ksSwapOut depth s ⟨m, true, nullCluster⟩ = .ok s') :
    ∃ g' c, KernelInv g' noHand noHand s' ∧
      Evicted (fun t => t = .master h ∨ ∃ slot, t = .table h slot) g s g' s' ∧
      g'.place (.master h) = .cluster c ∧
      (∀ slot, (g.place (.table h slot)).Swapped (g'.place (.table h slot))) ∧
      s'.ksEmpty ≠ [] := by
  obtain ⟨d, c, us, s₂, _, hinv₁, hquiet, howner, rfl⟩ := hinv.ksSwapOut_acquired rfl hswap
  obtain ⟨g', hinv', hevicted, hplace, hswapped, _⟩ := hinv₁.swapOwner_master hm rfl
    (fun x => ⟨False.elim, fun hx => hx.2 hx.1⟩) howner
  refine ⟨g', c, hinv', ?_, hplace, hswapped, by simp [ksSwapFinish, ksFreePage]⟩
  have htrans := hquiet.trans hevicted
  simp only [false_or] at htrans
  exact htrans

/-- What the swap-in writes: the table is in a frame again, and its cluster is free. -/
structure SwappedIn (s : KernelSystem) (c m : Nat) (s' : KernelSystem) : Prop where
  mem : ∀ i, s'.mem ⟨m, i⟩ = s.disk c i
  userspc : s'.userspc = s.userspc
  disk : s'.disk = s.disk
  diskSize : s'.diskSize = s.diskSize
  dvt : s'.dvt = update s.dvt c true

theorem masterTableLock_swapsIn {p : KernelProcess} (hp : s.pcbs h = some p)
    (hvalid : p.masterTableValid = false) (hnull : p.mtDisk ≠ nullCluster)
    (hempty : s.ksEmpty ≠ []) (hlock : s.masterTableLock h = .ok (m, s')) :
    SwappedIn s p.mtDisk m s' := by
  cases hlist : s.ksEmpty with
  | nil => exact absurd hlist hempty
  | cons page rest =>
      have hpcb : s.pcb h = .ok p := by simp [KernelSystem.pcb, hp]
      have htake : s.ksTakePage = .ok (page, { s with ksEmpty := rest }) := by
        simp [ksTakePage, ksGetEmptyPage, hlist]
      unfold masterTableLock at hlock
      simp only [hpcb, Outcome.ok_bind, hvalid, Bool.false_eq_true, if_false, swapMasterTable,
        ksRequestPage, ksAcquirePage, htake, if_neg hnull, if_true] at hlock
      obtain ⟨s₁, hswap, hrest⟩ := Outcome.bind_ok hlock
      simp only [KernelSystem.pcb, ksFtUpdate, setKrnlPage, KernelSystem.withUser, hp,
        Outcome.ok_bind, Except.ok.injEq] at hswap
      subst hswap
      simp only [KernelSystem.setPcb, KernelSystem.pcb, update_self, Outcome.ok_bind,
        Except.ok.injEq, Prod.mk.injEq] at hrest
      obtain ⟨rfl, rfl⟩ := hrest
      exact ⟨fun i => if_pos rfl, rfl, rfl, rfl, rfl⟩

theorem tablePage_eq {slot : Fin 64} (hinv : KernelInv g noHand noHand s)
    (hm : g.place (.master h) = .frame m)
    (hsome : g.place (.table h slot) ≠ .gone) (hlost : g.place (.table h slot) ≠ .lost) :
    s.tablePage (s.ptl1 ⟨m, slotCell slot⟩) = some (g.cells (.table h slot)) := by
  have hagree := hinv.agrees hm slot
  cases hpl : g.place (.table h slot) with
  | frame f =>
      rw [hpl] at hagree
      rw [tablePage, if_pos hagree.1, hagree.2]
      exact congrArg some (funext (hinv.mem_eq hpl))
  | cluster c =>
      rw [hpl] at hagree
      rw [tablePage, if_neg (by rw [hagree.1]; decide), if_pos hagree.1, hagree.2,
        hinv.disk_eq hpl]
  | gone => exact absurd hpl hsome
  | lost => exact absurd hpl hlost

theorem unused_iff {slot : Fin 64} (hinv : KernelInv g noHand noHand s) (hsound : g.Sound)
    (hm : g.place (.master h) = .frame m) :
    (s.ptl1 ⟨m, slotCell slot⟩).status = PageTableL1Entry.statusUnused ↔
      g.place (.table h slot) = .gone := by
  have hagree := hinv.agrees hm slot
  cases hpl : g.place (.table h slot) with
  | gone =>
      rw [hpl] at hagree
      exact iff_of_true hagree rfl
  | frame f =>
      rw [hpl] at hagree
      simp only [hagree.1, reduceCtorEq, iff_false]
      decide
  | cluster c =>
      rw [hpl] at hagree
      simp only [hagree.1, reduceCtorEq, iff_false]
      decide
  | lost => exact absurd hpl (hsound h _ m hm)

/-- After the master table went to the disk and came back into frame `m'`, a slot is paged
out, names a cluster in use and finds its page table there, if it had one. -/
theorem slot_back {s₁ : KernelSystem} {g₁ : Layout} {out : KTable → Prop} {m' : Nat}
    {slot : Fin 64} (hinv : KernelInv g noHand noHand s) (hinv₁ : KernelInv g₁ noHand noHand s₁)
    (hevicted : Evicted out g s g₁ s₁) (hm : g.place (.master h) = .frame m)
    (hc : g₁.place (.master h) = .cluster c) (hback : SwappedIn s₁ c m' s')
    (hswapped : (g.place (.table h slot)).Swapped (g₁.place (.table h slot)))
    (hgone : g.place (.table h slot) ≠ .gone) (hlost : g.place (.table h slot) ≠ .lost) :
    (s'.ptl1 ⟨m', slotCell slot⟩).status = PageTableL1Entry.statusPagedOut ∧
      (s'.ptl1 ⟨m', slotCell slot⟩).block < s'.diskSize ∧
      s'.dvt (s'.ptl1 ⟨m', slotCell slot⟩).block = false ∧
      ∃ page, s.tablePage (s.ptl1 ⟨m, slotCell slot⟩) = some page ∧
        ∀ i, Kept s.toUserSpace (page i) s'.toUserSpace
          (s'.disk (s'.ptl1 ⟨m', slotCell slot⟩).block i) := by
  obtain ⟨x, hx⟩ : ∃ x, g₁.place (.table h slot) = .cluster x := by
    revert hswapped
    cases hpl : g.place (.table h slot) with
    | frame f => exact id
    | cluster y => exact fun hsame => ⟨y, hsame⟩
    | gone => exact absurd hpl hgone
    | lost => exact absurd hpl hlost
  have hentry : s'.ptl1 ⟨m', slotCell slot⟩ = (g₁.cells (.master h) (slotCell slot)).toL1 := by
    rw [KernelSystem.ptl1, hback.mem, hinv₁.disk_eq hc]
  have hagree := hinv₁.entries h slot (by simp [hc]) (by simp [hc])
  rw [hx, ← hentry] at hagree
  have hne : x ≠ c := by
    rintro rfl
    cases hinv₁.cluster_inj hx hc
  have hheld : clusterHolds g₁.desc s₁.ot (clusterOf g₁ noHand) (.ext (.table (.table h slot))) x :=
    hx
  have hused := hinv₁.user.clusters.ledger.not_free hheld
  refine ⟨hagree.1, ?_, ?_, g.cells (.table h slot), hinv.tablePage_eq hm hgone hlost, fun i => ?_⟩
  · rw [hagree.2, hback.diskSize]
    exact hinv₁.user.clusters.ledger.holds_dom hheld
  · rw [hagree.2, hback.dvt, update_of_ne hne]
    exact Bool.eq_false_of_not_eq_true hused
  · have hkept := hevicted.pages ⟨h, slot, i⟩
    rw [hagree.2, hback.disk, hinv₁.disk_eq hx]
    refine ⟨hkept.1, Eq.trans ?_ hkept.2⟩
    exact content_of_eq (fun _ => by rw [hback.userspc]) (fun _ => by rw [hback.disk])

end KernelInv

/-- A master table comes back from the disk as it was exactly if it had no unused slot. -/
theorem masterTable_roundTrip {s s₁ s₂ : KernelSystem} {h depth m' : Nat} {p : KernelProcess}
    (hcons : s.Consistent) (hp : s.pcbs h = some p) (hvalid : p.masterTableValid = true)
    (hout : ksSwapOut depth s ⟨p.masterTable, true, nullCluster⟩ = .ok s₁)
    (hin : s₁.masterTableLock h = .ok (m', s₂)) :
    MasterKept s p.masterTable s₂ m' ↔
      ∀ slot, (s.ptl1 ⟨p.masterTable, slotCell slot⟩).status ≠ PageTableL1Entry.statusUnused := by
  obtain ⟨g, hinv, hsound⟩ := hcons
  obtain ⟨m, hm⟩ := hinv.hasMaster_iff.mp ⟨p, hp, hvalid⟩
  obtain ⟨q, _, hq, hat⟩ := hinv.pcb_ok hm
  rw [hp] at hq
  cases hq
  rw [hat.masterTable] at hout ⊢
  obtain ⟨g₁, c, hinv₁, hevicted, hc, hswapped, hempty⟩ := hinv.ksSwapOut_master hm hout
  obtain ⟨q, hq, hqvalid, hqdisk⟩ := hinv₁.stored h c hc
  have hnull : q.mtDisk ≠ nullCluster := by
    have hlt := hinv₁.cluster_lt (r := .table _) hc
    rw [hqdisk]
    unfold maxClusters at hlt
    unfold nullCluster
    omega
  have hback := KernelInv.masterTableLock_swapsIn hq hqvalid hnull hempty hin
  rw [hqdisk] at hback
  constructor
  · intro hkept slot hunused
    -- the slot was marked as paged out although it has no page table
    have hgone := (hinv.unused_iff hsound hm).mp hunused
    have hlost : g₁.place (.table h slot) = .lost := by
      have hslot := hswapped slot
      rw [hgone] at hslot
      exact hslot
    have hagree := hinv₁.entries h slot (by simp [hc]) (by simp [hc])
    rw [hlost] at hagree
    have hback' := hkept.unused slot hunused
    rw [KernelSystem.ptl1, hback.mem, hinv₁.disk_eq hc,
      show _ = PageTableL1Entry.statusPagedOut from hagree] at hback'
    cases hback'
  · intro hused
    have hslot : ∀ slot, g.place (.table h slot) ≠ .gone := fun slot hgone =>
      hused slot ((hinv.unused_iff hsound hm).mpr hgone)
    have hslots := fun slot => hinv.slot_back hinv₁ hevicted hm hc hback (hswapped slot)
      (hslot slot) (hsound h slot m hm)
    refine ⟨fun slot hunused => absurd hunused (hused slot), fun addr htrap => ?_,
      fun slot _ => ⟨(hslots slot).1, (hslots slot).2.1, (hslots slot).2.2.1⟩,
      fun slot _ => (hslots slot).2.2.2, fun n => ?_⟩
    · have hagree := hinv.agrees hm (slotOf addr)
      unfold accessPtl2 at htrap
      rw [if_neg (hused _)] at htrap
      split at htrap <;> cases htrap
    · rw [KernelSystem.ste, KernelSystem.ste, hback.mem, hinv₁.disk_eq hc, hinv.mem_eq hm,
        hevicted.segs h n]

/-- A kernel with one process, just created. -/
def oneProcess : Except Halt (Nat × KernelSystem) := do
  let s ← smallKernel 1 2 2 []
  s.createProcess

theorem oneProcess_consistent {s : KernelSystem} {h : Nat} (hmade : oneProcess = .ok (h, s)) :
    s.Consistent := by
  obtain ⟨s₀, hboot, hcreate⟩ := Outcome.bind_ok hmade
  obtain ⟨g, _, hinv, _, hcarried, _⟩ := (boot_inv (by decide) (by decide) hboot).createProcess_inv
    Layout.sound_none hcreate
  exact ⟨g, hinv, hcarried.sound Layout.sound_none⟩

/-- Its master table goes to the disk and comes back. -/
def outAndIn : Except Halt (KernelSystem × KernelProcess × KernelSystem × Nat × KernelSystem) := do
  let (h, s) ← oneProcess
  let p ← s.pcb h
  let s₁ ← ksSwapOut 1 s ⟨p.masterTable, true, nullCluster⟩
  let (m', s₂) ← s₁.masterTableLock h
  .ok (s, p, s₁, m', s₂)

theorem outAndIn_ok : ∃ (s : KernelSystem) (h : Nat) (p : KernelProcess) (s₁ : KernelSystem)
    (m' : Nat) (s₂ : KernelSystem), oneProcess = .ok (h, s) ∧ s.pcbs h = some p ∧
    p.masterTableValid = true ∧
    ksSwapOut 1 s ⟨p.masterTable, true, nullCluster⟩ = .ok s₁ ∧
    s₁.masterTableLock h = .ok (m', s₂) ∧
    (s.ptl1 ⟨p.masterTable, slotCell 0⟩).status = PageTableL1Entry.statusUnused ∧
    (s₂.ptl1 ⟨m', slotCell 0⟩).status = PageTableL1Entry.statusPagedOut := by
  have hruns : Outcome.holds outAndIn (fun (s, p, _, m', s₂) => p.masterTableValid &&
      decide ((s.ptl1 ⟨p.masterTable, slotCell 0⟩).status = PageTableL1Entry.statusUnused) &&
      decide ((s₂.ptl1 ⟨m', slotCell 0⟩).status = PageTableL1Entry.statusPagedOut)) = true := by
    decide +kernel
  obtain ⟨r, hr, hcheck⟩ := Outcome.of_holds hruns
  obtain ⟨⟨h, s⟩, hmade, hrest⟩ := Outcome.bind_ok hr
  obtain ⟨p, hp, hrest₁⟩ := Outcome.bind_ok hrest
  obtain ⟨s₁, hout, hrest₂⟩ := Outcome.bind_ok hrest₁
  obtain ⟨⟨m', s₂⟩, hin, hret⟩ := Outcome.bind_ok hrest₂
  cases hret
  simp only [Bool.and_eq_true, decide_eq_true_eq] at hcheck
  exact ⟨s, h, p, s₁, m', s₂, hmade, pcb_eq_ok.mp hp, hcheck.1.1, hout, hin, hcheck.1.2, hcheck.2⟩

theorem masterTable_roundTrip_oneProcess :
    ∃ (s s₁ s₂ : KernelSystem) (p : KernelProcess) (m' : Nat), s.Consistent ∧
    ksSwapOut 1 s ⟨p.masterTable, true, nullCluster⟩ = .ok s₁ ∧
    (MasterKept s p.masterTable s₂ m' ↔
      ∀ slot, (s.ptl1 ⟨p.masterTable, slotCell slot⟩).status ≠ PageTableL1Entry.statusUnused) := by
  obtain ⟨s, h, p, s₁, m', s₂, hmade, hp, hvalid, hout, hin, _, _⟩ := outAndIn_ok
  exact ⟨s, s₁, s₂, p, m', oneProcess_consistent hmade, hout,
    masterTable_roundTrip (oneProcess_consistent hmade) hp hvalid hout hin⟩

/-- The slots of a new process come back as paged out page tables that never were. -/
theorem masterTable_unused_lost : ¬ ∀ (s s₁ s₂ : KernelSystem) (h depth m' : Nat)
    (p : KernelProcess), s.Consistent → s.pcbs h = some p → p.masterTableValid = true →
    ksSwapOut depth s ⟨p.masterTable, true, nullCluster⟩ = .ok s₁ →
    s₁.masterTableLock h = .ok (m', s₂) → MasterKept s p.masterTable s₂ m' := by
  intro hall
  obtain ⟨s, h, p, s₁, m', s₂, hmade, hp, hvalid, hout, hin, hunused, hpaged⟩ := outAndIn_ok
  have hkept := hall s s₁ s₂ h 1 m' p (oneProcess_consistent hmade) hp hvalid hout hin
  have hback := hkept.unused 0 hunused
  rw [hpaged] at hback
  cases hback

end VirtualMemory
