import VirtualMemory.Processes

/-!
# Address spaces

What a process's tables say, wherever they are: its master table is in the frame or the
cluster that its object names, a page table where its first level entry says. These
readings use nothing but the state, so that what is said about a state can be said
without a layout; in a consistent state they agree with every layout of it.
-/

namespace VirtualMemory

open Function UserSpace KernelSystem PageTableL2Entry

namespace KernelSystem

/-- The master table of a process. -/
def masterPage (s : KernelSystem) (h : Nat) : Option Page :=
  (s.pcbs h).map fun p => if p.masterTableValid then s.krnlPage p.masterTable else s.disk p.mtDisk

/-- The first level entry of a slot. -/
def slotEntry (s : KernelSystem) (h : Nat) (slot : Fin 64) : Option PageTableL1Entry :=
  (s.masterPage h).map fun page => (page (slotCell slot)).toL1

/-- An entry of the segment table. -/
def segmentEntry (s : KernelSystem) (h : Nat) (n : Fin 192) : Option SegTableEntry :=
  (s.masterPage h).map fun page => (page (segCell n)).toSeg

/-- The page table that a first level entry names. -/
def tablePage (s : KernelSystem) (e : PageTableL1Entry) : Option Page :=
  if e.status = PageTableL1Entry.statusPresent then some (s.krnlPage e.block)
  else if e.status = PageTableL1Entry.statusPagedOut then some (s.disk e.block)
  else none

/-- The descriptor of a page, if there is a page table for it. -/
def descriptor (s : KernelSystem) (v : LPage) : Option PageTableL2Entry :=
  ((s.slotEntry v.proc v.slot).bind s.tablePage).map fun page => page v.cell

@[simp] theorem descriptor_pageUnlock (s : KernelSystem) (pg : Nat) (v : LPage) :
    (s.pageUnlock pg).descriptor v = s.descriptor v := by
  unfold pageUnlock
  split <;> rfl

/-- A page that belongs to a segment. -/
def InSegment (s : KernelSystem) (v : LPage) : Prop :=
  ∃ e, s.descriptor v = some e ∧ e.getInseg = true

/-- A process whose master table is in memory. -/
def HasMaster (s : KernelSystem) (h : Nat) : Prop :=
  ∃ p, s.pcbs h = some p ∧ p.masterTableValid = true

/-- The page table of a slot is present, in frame `f`. -/
def InFrame (s : KernelSystem) (h : Nat) (slot : Fin 64) (f : Nat) : Prop :=
  ∃ e, s.slotEntry h slot = some e ∧ e.status = PageTableL1Entry.statusPresent ∧ e.block = f

/-- Between operations the state has a layout, with no frame and no cluster in hand. -/
def Consistent (s : KernelSystem) : Prop := ∃ g, KernelInv g noHand noHand s ∧ g.Sound

end KernelSystem

namespace KernelInv

variable {g : Layout} {s : KernelSystem} {h m : Nat} {slot : Fin 64} {n : Fin 192} {v : LPage}

theorem hasMaster_iff (hinv : KernelInv g noHand noHand s) :
    s.HasMaster h ↔ ∃ m, g.place (.master h) = .frame m := by
  constructor
  · rintro ⟨p, hp, hvalid⟩
    cases hpl : g.place (.master h) with
    | frame m => exact ⟨m, rfl⟩
    | cluster c =>
        obtain ⟨q, hq, hqvalid, _⟩ := hinv.stored h c hpl
        rw [hp] at hq
        cases hq
        rw [hvalid] at hqvalid
        cases hqvalid
    | gone =>
        rw [← hinv.live h, hp] at hpl
        cases hpl
    | lost =>
        obtain ⟨q, hq, hqvalid⟩ := hinv.newborn h hpl
        rw [hp] at hq
        cases hq
        rw [hvalid] at hqvalid
        cases hqvalid
  · rintro ⟨m, hm⟩
    obtain ⟨p, _, hp, hat⟩ := hinv.pcb_ok hm
    exact ⟨p, hp, hat.valid⟩

theorem masterPage_eq (hinv : KernelInv g noHand noHand s) (hnone : ¬ g.NoMaster h) :
    s.masterPage h = some (g.cells (.master h)) := by
  unfold masterPage
  cases hpl : g.place (.master h) with
  | frame m =>
      obtain ⟨p, _, hp, hat⟩ := hinv.pcb_ok hpl
      rw [hp, Option.map_some, if_pos hat.valid, hat.masterTable]
      exact congrArg some (funext (hinv.mem_eq hpl))
  | cluster c =>
      obtain ⟨p, hp, hvalid, hdisk⟩ := hinv.stored h c hpl
      rw [hp, Option.map_some, if_neg (by simp [hvalid]), hdisk, hinv.disk_eq hpl]
  | gone => exact absurd (.inl hpl) hnone
  | lost => exact absurd (.inr hpl) hnone

theorem not_noMaster (hm : g.place (.master h) = .frame m) : ¬ g.NoMaster h := by
  simp [Layout.NoMaster, hm]

theorem slotEntry_eq (hinv : KernelInv g noHand noHand s) (hnone : ¬ g.NoMaster h) :
    s.slotEntry h slot = some (g.cells (.master h) (slotCell slot)).toL1 := by
  simp [slotEntry, hinv.masterPage_eq hnone]

theorem segmentEntry_eq (hinv : KernelInv g noHand noHand s) (hnone : ¬ g.NoMaster h) :
    s.segmentEntry h n = some (g.segment h n) := by
  simp [segmentEntry, hinv.masterPage_eq hnone, Layout.segment]

/-- What a first level entry says of a page table that there is. -/
theorem slotEntry_agrees (hinv : KernelInv g noHand noHand s) (slot : Fin 64)
    (hnone : ¬ g.NoMaster h) :
    ∃ e, s.slotEntry h slot = some e ∧ L1Agrees (g.place (.table h slot)) e := by
  refine ⟨_, hinv.slotEntry_eq hnone, hinv.entries h slot ?_ ?_⟩
  · exact fun hgone => hnone (.inl hgone)
  · exact fun hlost => hnone (.inr hlost)

theorem inFrame_iff {f : Nat} (hinv : KernelInv g noHand noHand s) (hnone : ¬ g.NoMaster h) :
    s.InFrame h slot f ↔ g.place (.table h slot) = .frame f := by
  obtain ⟨e, he, hagree⟩ := hinv.slotEntry_agrees slot hnone
  constructor
  · rintro ⟨e', he', hstatus, rfl⟩
    cases he.symm.trans he'
    exact hagree.present hstatus
  · intro hf
    rw [hf] at hagree
    exact ⟨e, he, hagree⟩

/-- The descriptor of a page whose page table is somewhere. -/
theorem descriptor_eq (hinv : KernelInv g noHand noHand s) (hnone : ¬ g.NoMaster v.proc)
    (hlost : g.place (.table v.proc v.slot) ≠ .lost) :
    s.descriptor v =
      if g.place (.table v.proc v.slot) = .gone then none else some (g.desc v) := by
  obtain ⟨e, he, hagree⟩ := hinv.slotEntry_agrees v.slot hnone
  simp only [descriptor, he, Option.bind_some, tablePage]
  cases hpl : g.place (.table v.proc v.slot) with
  | frame f =>
      rw [hpl] at hagree
      rw [if_pos hagree.1, hagree.2]
      simp [krnlPage, hinv.mem_eq hpl, Layout.desc]
  | cluster c =>
      rw [hpl] at hagree
      rw [if_neg (by rw [hagree.1]; decide), if_pos hagree.1, hagree.2]
      simp [hinv.disk_eq hpl, Layout.desc]
  | gone =>
      rw [hpl] at hagree
      rw [if_neg (by rw [show e.status = _ from hagree]; decide),
        if_neg (by rw [show e.status = _ from hagree]; decide)]
      simp
  | lost => exact absurd hpl hlost

/-- The descriptor of a page that has one is what every layout says. -/
theorem desc_of_descriptor {e : PageTableL2Entry} (hinv : KernelInv g noHand noHand s)
    (hsound : g.Sound) (hm : g.place (.master v.proc) = .frame m)
    (he : s.descriptor v = some e) : g.desc v = e := by
  rw [hinv.descriptor_eq (not_noMaster hm) (hsound _ _ m hm)] at he
  split at he
  · cases he
  · exact Option.some.inj he

/-- A page table that is nowhere has no page of a segment. -/
theorem inseg_nowhere (hinv : KernelInv g noHand noHand s)
    (hnone : g.place (.table v.proc v.slot) = .gone ∨ g.place (.table v.proc v.slot) = .lost) :
    (g.desc v).getInseg = false := by
  rw [Layout.desc, hinv.cells_blank hnone]
  change (⟨0#16, 0#8, 0#8⟩ : PageTableL2Entry).getInseg = false
  decide

/-- Nor has it a page of a mapping. -/
theorem shared_nowhere (hinv : KernelInv g noHand noHand s)
    (hnone : g.place (.table v.proc v.slot) = .gone ∨ g.place (.table v.proc v.slot) = .lost) :
    (g.desc v).getShared = false := by
  rw [Layout.desc, hinv.cells_blank hnone]
  change (⟨0#16, 0#8, 0#8⟩ : PageTableL2Entry).getShared = false
  decide

/-- Pages of segments, of a process whose master table is in memory. -/
theorem inSegment_iff (hinv : KernelInv g noHand noHand s) (hsound : g.Sound)
    (hm : g.place (.master v.proc) = .frame m) :
    s.InSegment v ↔ (g.desc v).getInseg = true := by
  rw [InSegment, hinv.descriptor_eq (not_noMaster hm) (hsound _ _ m hm)]
  split
  · rename_i hgone
    simp [hinv.inseg_nowhere (.inl hgone)]
  · simp

end KernelInv

end VirtualMemory
