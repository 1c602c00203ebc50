import VirtualMemory.KernelCalls
import VirtualMemory.UserPage

/-!
# Where the tables are

A `Layout` says of every table that a process may have where it is and what its cells
contain; kernel memory, the disk and the process objects are one way of keeping it.
`KernelInv` ties the two together: every frame of kernel space is free, in the hands of a
caller, or houses one table, whose frame table entry points back at the table's owner;
every first level entry agrees with the place of its page table; and the private pages,
whose descriptors are the cells of the page tables, are accounted for as in user paging,
with the clusters of paged out tables held from outside.
-/

namespace VirtualMemory

open Function UserSpace

/-- A table of a process: its master table, or the page table of a slot. -/
inductive KTable where
  | master (h : Nat)
  | table (h : Nat) (slot : Fin 64)
  deriving DecidableEq

/-- Where a table is. A master table is `lost` before it got its first frame, a page table
when its slot names a cluster although it never had one. -/
inductive Place where
  | gone
  | lost
  | frame (f : Nat)
  | cluster (c : Nat)
  deriving DecidableEq

/-- A virtual page of a process, by the slots of its descriptor. -/
structure LPage where
  proc : Nat
  slot : Fin 64
  cell : Fin 256
  deriving DecidableEq

/-- The slot of an address in the first level table. -/
def slotOf (addr : Nat) : Fin 64 := ⟨ptl1Slot addr, Nat.mod_lt _ (by decide)⟩

/-- The slot of an address in its second level table. -/
def cellOf (addr : Nat) : Fin 256 := ⟨ptl2Slot addr, Nat.mod_lt _ (by decide)⟩

/-- The page of a process that an address belongs to. -/
def pageOf (h addr : Nat) : LPage := ⟨h, slotOf addr, cellOf addr⟩

/-- The cell of a master table that is the entry of a page table. -/
def slotCell (slot : Fin 64) : Fin 256 := ⟨slot, by omega⟩

/-- The cell of a master table that is an entry of the segment table. -/
def segCell (n : Fin 192) : Fin 256 := ⟨64 + n, by omega⟩

theorem slotCell_inj {slot slot' : Fin 64} : slotCell slot = slotCell slot' ↔ slot = slot' := by
  simp [slotCell, Fin.ext_iff]

theorem slotCell_ne_segCell (slot : Fin 64) (n : Fin 192) : slotCell slot ≠ segCell n := by
  simp only [slotCell, segCell, ne_eq, Fin.mk.injEq]
  omega

theorem index_slotCell (m : Nat) (slot : Fin 64) :
    (KAddr.page m).index slot = ⟨m, slotCell slot⟩ := KAddr.index_page m (by omega)

theorem index_segCell (m : Nat) (n : Fin 192) :
    ((KAddr.page m).index maxPageTablesL1).index n = ⟨m, segCell n⟩ :=
  KAddr.index_index_page m (by unfold maxPageTablesL1; omega)

/-- A page of zeroed cells. -/
def blankPage : Page := fun _ => ⟨0#16, 0#8, 0#8⟩

structure Layout where
  place : KTable → Place
  cells : KTable → Page

namespace Layout

/-- The descriptor of a page. -/
def desc (g : Layout) (v : LPage) : PageTableL2Entry := g.cells (.table v.proc v.slot) v.cell

/-- The descriptor's address while its table is in memory. -/
def addr (g : Layout) (v : LPage) : Option KAddr :=
  match g.place (.table v.proc v.slot) with
  | .frame f => some ⟨f, v.cell⟩
  | _ => none

def view (g : Layout) : PageView LPage KAddr := ⟨g.desc, g.addr⟩

@[simp] theorem view_desc (g : Layout) : g.view.desc = g.desc := rfl

@[simp] theorem view_addr (g : Layout) : g.view.addr = g.addr := rfl

theorem addr_eq_some {g : Layout} {v : LPage} {a : KAddr} :
    g.addr v = some a ↔ g.place (.table v.proc v.slot) = .frame a.frame ∧ a.cell = v.cell := by
  obtain ⟨f, i⟩ := a
  unfold addr
  split
  · rename_i k hk
    simp [hk, eq_comm]
  · rename_i hnot
    simp only [reduceCtorEq, false_iff, not_and]
    intro hf
    exact absurd hf (hnot f)

theorem addr_of_frame {g : Layout} {h : Nat} {slot : Fin 64} {f : Nat}
    (hplace : g.place (.table h slot) = .frame f) (i : Fin 256) :
    g.addr ⟨h, slot, i⟩ = some ⟨f, i⟩ := addr_eq_some.mpr ⟨hplace, rfl⟩

/-- The layout with other descriptors. -/
def withDesc (g : Layout) (desc : LPage → PageTableL2Entry) : Layout where
  place := g.place
  cells
    | .master h => g.cells (.master h)
    | .table h slot => fun i => desc ⟨h, slot, i⟩

@[simp] theorem withDesc_place (g : Layout) (desc : LPage → PageTableL2Entry) :
    (g.withDesc desc).place = g.place := rfl

@[simp] theorem withDesc_desc (g : Layout) (desc : LPage → PageTableL2Entry) :
    (g.withDesc desc).desc = desc := rfl

@[simp] theorem withDesc_addr (g : Layout) (desc : LPage → PageTableL2Entry) :
    (g.withDesc desc).addr = g.addr := rfl

@[simp] theorem withDesc_master (g : Layout) (desc : LPage → PageTableL2Entry) (h : Nat) :
    (g.withDesc desc).cells (.master h) = g.cells (.master h) := rfl

end Layout

/-- A table, or the caller that a frame or a cluster was handed to. -/
inductive KHolder where
  | table (t : KTable)
  | hand (n : Nat)

def frameOf (g : Layout) (hand : Nat → Prop) : KHolder → Nat → Prop
  | .table t, f => g.place t = .frame f
  | .hand n, f => hand n ∧ n = f

def clusterOf (g : Layout) (handC : Nat → Prop) : KHolder → Nat → Prop
  | .table t, c => g.place t = .cluster c
  | .hand n, c => handC n ∧ n = c

/-- The cells of a table, read where it is. -/
def imageAt (us : UserSpace KAddr) : Place → Page
  | .frame f => fun i => us.mem ⟨f, i⟩
  | .cluster c => us.disk c
  | .gone | .lost => blankPage

/-- A first level entry says where its page table is. -/
def L1Agrees : Place → PageTableL1Entry → Prop
  | .gone, e => e.status = PageTableL1Entry.statusUnused
  | .lost, e => e.status = PageTableL1Entry.statusPagedOut
  | .frame f, e => e.status = PageTableL1Entry.statusPresent ∧ e.block = f
  | .cluster c, e => e.status = PageTableL1Entry.statusPagedOut ∧ e.block = c

theorem L1Agrees.present {pl : Place} {e : PageTableL1Entry} (hagree : L1Agrees pl e)
    (hstatus : e.status = PageTableL1Entry.statusPresent) : pl = .frame e.block := by
  cases pl with
  | frame f => rw [hagree.2]
  | cluster c => cases hagree.1.symm.trans hstatus
  | gone => cases (show e.status = _ from hagree).symm.trans hstatus
  | lost => cases (show e.status = _ from hagree).symm.trans hstatus

theorem L1Agrees.pagedOut {pl : Place} {e : PageTableL1Entry} (hagree : L1Agrees pl e)
    (hstatus : e.status = PageTableL1Entry.statusPagedOut) :
    pl = .cluster e.block ∨ pl = .lost := by
  cases pl with
  | frame f => cases hagree.1.symm.trans hstatus
  | cluster c => exact .inl (by rw [hagree.2])
  | gone => cases (show e.status = _ from hagree).symm.trans hstatus
  | lost => exact .inr rfl

/-- The three pointers of a process object refer to one frame. -/
structure KernelProcess.At (p : KernelProcess) (m : Nat) : Prop where
  valid : p.masterTableValid = true
  masterTable : p.masterTable = m
  ptl1Ptr : p.ptl1Ptr = KAddr.page m
  stPtr : p.stPtr = (KAddr.page m).index maxPageTablesL1

/-- The unreserved frames of kernel space. -/
def KernelSystem.HasFrame (s : KernelSystem) (f : Nat) : Prop :=
  s.ksReserved ≤ f ∧ f < s.krnlspcSize

structure KernelInv (g : Layout) (hand handC : Nat → Prop) (s : KernelSystem) : Prop where
  user : UserInv g.view noHand (clusterOf g handC) s.toUserSpace
  krnl_le : s.krnlspcSize ≤ 65536
  nodup : s.ksEmpty.Nodup
  frames : Ledger.Exact s.HasFrame (· ∈ s.ksEmpty) (frameOf g hand)
  typed : ∀ f, (s.ksFt f).type = .ksPageTable ∨ (s.ksFt f).type = .ksSegTable → s.HasFrame f
  image : ∀ t, imageAt s.toUserSpace (g.place t) = g.cells t
  entries : ∀ h slot, g.place (.master h) ≠ .gone → g.place (.master h) ≠ .lost →
    L1Agrees (g.place (.table h slot)) (g.cells (.master h) (slotCell slot)).toL1
  tables : ∀ h slot f, g.place (.table h slot) = .frame f →
    (s.ksFt f).type = .ksPageTable ∧ ∃ m, g.place (.master h) = .frame m ∧
      (s.ksFt f).owner = some (.ptl1e ⟨m, slotCell slot⟩)
  masters : ∀ h m, g.place (.master h) = .frame m →
    (s.ksFt m).type = .ksSegTable ∧ (s.ksFt m).owner = some (.pcb h) ∧
      ∃ p, s.pcbs h = some p ∧ p.At m
  stored : ∀ h c, g.place (.master h) = .cluster c →
    ∃ p, s.pcbs h = some p ∧ p.masterTableValid = false ∧ p.mtDisk = c
  newborn : ∀ h, g.place (.master h) = .lost →
    ∃ p, s.pcbs h = some p ∧ p.masterTableValid = false
  live : ∀ h, s.pcbs h = none ↔ g.place (.master h) = .gone
  fresh : ∀ h, s.nextPcb ≤ h → g.place (.master h) = .gone ∧ ∀ slot, g.place (.table h slot) = .gone

/-- No resident master table has an entry for a page table that never was. -/
def Layout.Sound (g : Layout) : Prop :=
  ∀ h slot m, g.place (.master h) = .frame m → g.place (.table h slot) ≠ .lost

namespace KernelInv

variable {g : Layout} {hand handC : Nat → Prop} {s : KernelSystem} {h : Nat} {slot : Fin 64}
  {t : KTable} {f m c : Nat}

/-- Two tables are not in one frame. -/
theorem frame_inj (hinv : KernelInv g hand handC s) {t t' : KTable}
    (ht : g.place t = .frame f) (ht' : g.place t' = .frame f) : t = t' := by
  have hsame : KHolder.table t = KHolder.table t' := hinv.frames.inj (c := f) ht ht'
  injection hsame

theorem hasFrame (hinv : KernelInv g hand handC s) (ht : g.place t = .frame f) : s.HasFrame f :=
  hinv.frames.holds_dom (r := .table t) ht

theorem frame_lt (hinv : KernelInv g hand handC s) (hf : s.HasFrame f) : f < 65536 :=
  Nat.lt_of_lt_of_le hf.2 hinv.krnl_le

theorem frame_ne_hand (hinv : KernelInv g hand handC s) (ht : g.place t = .frame f)
    (hm : hand m) : f ≠ m := by
  rintro rfl
  have hsame : KHolder.table t = KHolder.hand f := hinv.frames.inj (c := f) ht ⟨hm, rfl⟩
  cases hsame

/-- A table in memory, cell by cell. -/
theorem mem_eq (hinv : KernelInv g hand handC s) (ht : g.place t = .frame f) (i : Fin 256) :
    s.mem ⟨f, i⟩ = g.cells t i := by
  rw [← hinv.image t, ht]
  rfl

theorem disk_eq (hinv : KernelInv g hand handC s) (ht : g.place t = .cluster c) :
    s.disk c = g.cells t := by
  rw [← hinv.image t, ht]
  rfl

/-- The entry of a page table, read in a resident master table. -/
theorem agrees (hinv : KernelInv g hand handC s) (hm : g.place (.master h) = .frame m)
    (slot : Fin 64) : L1Agrees (g.place (.table h slot)) (s.ptl1 ⟨m, slotCell slot⟩) := by
  rw [KernelSystem.ptl1, hinv.mem_eq hm]
  exact hinv.entries h slot (by simp [hm]) (by simp [hm])

/-- The process of a resident master table. -/
theorem pcb_ok (hinv : KernelInv g hand handC s) (hm : g.place (.master h) = .frame m) :
    ∃ p, s.pcb h = .ok p ∧ s.pcbs h = some p ∧ p.At m := by
  obtain ⟨_, _, p, hp, hat⟩ := hinv.masters h m hm
  exact ⟨p, by simp [KernelSystem.pcb, hp], hp, hat⟩

theorem master_of_table (hinv : KernelInv g hand handC s)
    (ht : g.place (.table h slot) = .frame f) : ∃ m, g.place (.master h) = .frame m := by
  obtain ⟨_, m, hm, _⟩ := hinv.tables h slot f ht
  exact ⟨m, hm⟩

/-- A page table that is nowhere has no pages. -/
theorem cells_blank (hinv : KernelInv g hand handC s)
    (ht : g.place t = .gone ∨ g.place t = .lost) : g.cells t = blankPage := by
  rw [← hinv.image t]
  obtain ht | ht := ht <;> rw [ht] <;> rfl

/-- The descriptor of a resident page is in memory. -/
theorem resident_frame (hinv : KernelInv g hand handC s) {v : LPage}
    (hv : (g.desc v).Resident) : ∃ f, g.place (.table v.proc v.slot) = .frame f := by
  obtain ⟨_, a, ha, _⟩ := hinv.user.frames.owner v hv
  exact ⟨a.frame, (Layout.addr_eq_some.mp ha).1⟩

end KernelInv

/-- The fields of a process object that neither paging nor a segment changes. -/
def KernelProcess.rest (p : KernelProcess) : Nat × Option Nat := (p.pid, p.sscb)

/-- The objects of the kernel, apart from where the master tables are. -/
structure SameObjects (s s' : KernelSystem) : Prop where
  krnlspcSize : s'.krnlspcSize = s.krnlspcSize
  ksReserved : s'.ksReserved = s.ksReserved
  userspcSize : s'.userspcSize = s.userspcSize
  diskSize : s'.diskSize = s.diskSize
  pcbs : ∀ h, (s'.pcbs h).map KernelProcess.rest = (s.pcbs h).map KernelProcess.rest
  nextPcb : s'.nextPcb = s.nextPcb
  pcbVec : s'.pcbVec = s.pcbVec
  ssegVec : s'.ssegVec = s.ssegVec
  ssegMap : s'.ssegMap = s.ssegMap
  sscbs : s'.sscbs = s.sscbs
  nextSscb : s'.nextSscb = s.nextSscb
  ssegCount : s'.ssegCount = s.ssegCount

namespace SameObjects

variable {s s' s'' : KernelSystem}

theorem refl (s : KernelSystem) : SameObjects s s :=
  ⟨rfl, rfl, rfl, rfl, fun _ => rfl, rfl, rfl, rfl, rfl, rfl, rfl, rfl⟩

theorem trans (h : SameObjects s s') (h' : SameObjects s' s'') : SameObjects s s'' where
  krnlspcSize := h'.krnlspcSize.trans h.krnlspcSize
  ksReserved := h'.ksReserved.trans h.ksReserved
  userspcSize := h'.userspcSize.trans h.userspcSize
  diskSize := h'.diskSize.trans h.diskSize
  pcbs x := (h'.pcbs x).trans (h.pcbs x)
  nextPcb := h'.nextPcb.trans h.nextPcb
  pcbVec := h'.pcbVec.trans h.pcbVec
  ssegVec := h'.ssegVec.trans h.ssegVec
  ssegMap := h'.ssegMap.trans h.ssegMap
  sscbs := h'.sscbs.trans h.sscbs
  nextSscb := h'.nextSscb.trans h.nextSscb
  ssegCount := h'.ssegCount.trans h.ssegCount

end SameObjects

/-- The tables `out` are not in memory afterwards and nothing else happened: other pages
were at most paged out. -/
structure Left (out : KTable → Prop) (g : Layout) (s : KernelSystem) (g' : Layout)
    (s' : KernelSystem) : Prop where
  pages : ∀ v, Kept s.toUserSpace (g.desc v) s'.toUserSpace (g'.desc v)
  place : ∀ t, ¬ out t → g'.place t = g.place t
  gone : ∀ t, out t → ∀ f, g'.place t ≠ .frame f
  ksFt : ∀ t f, g'.place t = .frame f → s'.ksFt f = s.ksFt f
  segs : ∀ h n, g'.cells (.master h) (segCell n) = g.cells (.master h) (segCell n)
  objects : SameObjects s s'

/-- An eviction that is over: page tables are lost with their master table only. -/
structure Evicted (out : KTable → Prop) (g : Layout) (s : KernelSystem) (g' : Layout)
    (s' : KernelSystem) : Prop extends Left out g s g' s' where
  was : ∀ h slot, out (.table h slot) →
    (∃ f m, g.place (.table h slot) = .frame f ∧ g.place (.master h) = .frame m) ∨
      out (.master h)
  lost : ∀ h slot, g'.place (.table h slot) = .lost →
    g.place (.table h slot) = .lost ∨ out (.master h)
  master : ∀ h, out (.master h) →
    (∃ m, g.place (.master h) = .frame m) ∧ ∃ c, g'.place (.master h) = .cluster c
  stored : ∀ t c, g.place t = .cluster c → g'.place t = .cluster c

namespace Left

variable {out out' : KTable → Prop} {g g' g'' : Layout} {s s' s'' : KernelSystem}

theorem refl (g : Layout) (s : KernelSystem) : Left (fun _ => False) g s g s :=
  ⟨fun _ => .refl _ _, fun _ _ => rfl, nofun, fun _ _ _ => rfl, fun _ _ => rfl, .refl s⟩

theorem trans (h : Left out g s g' s') (h' : Left out' g' s' g'' s'') :
    Left (fun t => out t ∨ out' t) g s g'' s'' where
  pages v := (h.pages v).trans (h'.pages v)
  place t ht := by
    rw [not_or] at ht
    exact (h'.place t ht.2).trans (h.place t ht.1)
  gone t ht f := by
    by_cases ht' : out' t
    · exact h'.gone t ht' f
    · rw [h'.place t ht']
      exact h.gone t (ht.resolve_right ht') f
  ksFt t f hf := by
    have ht : ¬ out' t := fun hout => h'.gone t hout f hf
    exact (h'.ksFt t f hf).trans (h.ksFt t f (h'.place t ht ▸ hf))
  segs h₁ n := (h'.segs h₁ n).trans (h.segs h₁ n)
  objects := h.objects.trans h'.objects

theorem place_of_frame (h : Left out g s g' s') {t : KTable} {f : Nat}
    (hf : g'.place t = .frame f) : g.place t = .frame f := by
  rw [← h.place t (fun hout => h.gone t hout f hf), hf]

/-- The tables that left can be named by any property that says the same of them. -/
theorem congr (h : Left out g s g' s') (hout : ∀ t, out' t ↔ out t) : Left out' g s g' s' := by
  obtain rfl : out' = out := funext fun t => propext (hout t)
  exact h

end Left

namespace Evicted

variable {out out' : KTable → Prop} {g g' g'' : Layout} {s s' s'' : KernelSystem}

/-- Nothing is evicted where no page's contents and no frame's entry change. -/
theorem quiet (g : Layout) (hcontent : ∀ e, s'.content e = s.content e)
    (hft : s'.ksFt = s.ksFt) (hobjects : SameObjects s s') :
    Evicted (fun _ => False) g s g s' :=
  ⟨⟨fun v => ⟨.inl rfl, hcontent (g.desc v)⟩, fun _ _ => rfl, nofun,
    fun _ f _ => congrFun hft f, fun _ _ => rfl, hobjects⟩, nofun, fun _ _ => .inl, nofun,
    fun _ _ hc => hc⟩

theorem refl (g : Layout) (s : KernelSystem) : Evicted (fun _ => False) g s g s :=
  quiet g (fun _ => rfl) rfl (.refl s)

theorem trans (h : Evicted out g s g' s') (h' : Evicted out' g' s' g'' s'') :
    Evicted (fun t => out t ∨ out' t) g s g'' s'' := by
  refine ⟨h.toLeft.trans h'.toLeft, fun x slot hout => ?_, fun x slot hl => ?_, fun x hout => ?_,
    fun t c hc => h'.stored t c (h.stored t c hc)⟩
  · by_cases hfirst : out (.table x slot)
    · exact (h.was x slot hfirst).imp_right .inl
    · obtain ⟨f, m, hf, hm⟩ | hm := h'.was x slot (hout.resolve_left hfirst)
      · exact .inl ⟨f, m, h.place _ hfirst ▸ hf, h.place_of_frame hm⟩
      · exact .inr (.inr hm)
  · obtain hl | hm := h'.lost x slot hl
    · exact (h.lost x slot hl).imp_right .inl
    · exact .inr (.inr hm)
  · by_cases hfirst : out (.master x)
    · obtain ⟨hframe, c, hc⟩ := h.master x hfirst
      refine ⟨hframe, c, ?_⟩
      rw [h'.place _ fun hout' => ?_, hc]
      obtain ⟨⟨m, hm⟩, _⟩ := h'.master x hout'
      rw [hc] at hm
      cases hm
    · obtain ⟨hframe, hcluster⟩ := h'.master x (hout.resolve_left hfirst)
      exact ⟨h.place _ hfirst ▸ hframe, hcluster⟩

/-- The tables that were evicted can be named by any property that says the same of them. -/
theorem congr (h : Evicted out g s g' s') (hout : ∀ t, out' t ↔ out t) :
    Evicted out' g s g' s' := by
  obtain rfl : out' = out := funext fun t => propext (hout t)
  exact h

theorem sound (h : Evicted out g s g' s') (hg : g.Sound) : g'.Sound := by
  intro x slot m hm hlost
  obtain hl | hout := h.lost x slot hlost
  · exact hg x slot m (h.place_of_frame hm) hl
  · exact h.gone _ hout m hm

end Evicted

/-- A table in frame `f`, which is locked. -/
def LockedIn (g : Layout) (s : KernelSystem) (t : KTable) (f : Nat) : Prop :=
  g.place t = .frame f ∧ (s.ksFt f).getLocked = true

/-- A table that is not a victim, and will not be evicted with one: it is locked, and so is
the master table it belongs to. -/
def Pinned (g : Layout) (s : KernelSystem) : KTable → Nat → Prop
  | .master h, f => LockedIn g s (.master h) f
  | .table h slot, f => LockedIn g s (.table h slot) f ∧ ∃ m, LockedIn g s (.master h) m

theorem Pinned.place {g : Layout} {s : KernelSystem} {t : KTable} {f : Nat}
    (h : Pinned g s t f) : g.place t = .frame f := by
  cases t with
  | master x => exact h.1
  | table x slot => exact h.1.1

/-- A process that has no master table, because it is not there or has only just begun. -/
def Layout.NoMaster (g : Layout) (h : Nat) : Prop :=
  g.place (.master h) = .gone ∨ g.place (.master h) = .lost

/-- A process whose master table is not in memory. -/
def Layout.Away (g : Layout) (h : Nat) : Prop := ∀ m, g.place (.master h) ≠ .frame m

def KTable.IsTable (t : KTable) : Prop := ∃ h slot, t = .table h slot

/-- What an operation leaves alone whatever was evicted on the way: the pages it is not
about, the tables that are pinned (`loose` are those it may unlock itself), and the segment
entries of the processes it is not about, with all the tables of those that have no master
table. -/
structure Carried (loose : KTable → Prop) (mine : Nat → Prop) (but : LPage → Prop) (g : Layout)
    (s : KernelSystem) (g' : Layout) (s' : KernelSystem) : Prop where
  pages : ∀ v, ¬ but v → Kept s.toUserSpace (g.desc v) s'.toUserSpace (g'.desc v)
  stay : ∀ t f, ¬ loose t → Pinned g s t f → Pinned g' s' t f
  sound : g.Sound → g'.Sound
  segs : ∀ h n, ¬ mine h → g'.cells (.master h) (segCell n) = g.cells (.master h) (segCell n)
  dead : ∀ h, ¬ mine h → g'.NoMaster h →
    g.NoMaster h ∧ ∀ slot, g'.place (.table h slot) = g.place (.table h slot)
  away : ∀ h, ¬ mine h → g.Away h →
    g'.Away h ∧ ∀ slot, g'.place (.table h slot) = g.place (.table h slot)

namespace Carried

variable {loose loose' : KTable → Prop} {mine mine' : Nat → Prop} {but but' : LPage → Prop}
  {g g' g'' : Layout} {s s' s'' : KernelSystem}

theorem refl (g : Layout) (s : KernelSystem) : Carried loose mine but g s g s :=
  ⟨fun _ _ => .refl _ _, fun _ _ _ h => h, id, fun _ _ _ => rfl, fun _ _ h => ⟨h, fun _ => rfl⟩,
    fun _ _ h => ⟨h, fun _ => rfl⟩⟩

theorem trans (h : Carried loose mine but g s g' s') (h' : Carried loose mine but g' s' g'' s'') :
    Carried loose mine but g s g'' s'' where
  pages v hv := (h.pages v hv).trans (h'.pages v hv)
  stay t f ht hpin := h'.stay t f ht (h.stay t f ht hpin)
  sound hg := h'.sound (h.sound hg)
  segs x n hx := (h'.segs x n hx).trans (h.segs x n hx)
  dead x hx hnone := by
    obtain ⟨hnone', hplace'⟩ := h'.dead x hx hnone
    obtain ⟨hnone'', hplace''⟩ := h.dead x hx hnone'
    exact ⟨hnone'', fun slot => (hplace' slot).trans (hplace'' slot)⟩
  away x hx haway := by
    obtain ⟨haway', hplace⟩ := h.away x hx haway
    obtain ⟨haway'', hplace'⟩ := h'.away x hx haway'
    exact ⟨haway'', fun slot => (hplace' slot).trans (hplace slot)⟩

theorem mono (h : Carried loose mine but g s g' s') (hloose : ∀ t, loose t → loose' t)
    (hmine : ∀ x, mine x → mine' x) (hbut : ∀ v, but v → but' v) :
    Carried loose' mine' but' g s g' s' where
  pages v hv := h.pages v (fun hb => hv (hbut v hb))
  stay t f ht := h.stay t f (fun hl => ht (hloose t hl))
  sound := h.sound
  segs x n hx := h.segs x n (fun hm => hx (hmine x hm))
  dead x hx := h.dead x (fun hm => hx (hmine x hm))
  away x hx := h.away x (fun hm => hx (hmine x hm))

theorem of_evicted {out : KTable → Prop} (h : Evicted out g s g' s')
    (hfree : ∀ t f, out t → ¬ Pinned g s t f) : Carried loose mine but g s g' s' where
  pages v _ := h.pages v
  stay t f _ hpin := by
    have hlocked : ∀ u x, ¬ out u → LockedIn g s u x → LockedIn g' s' u x := by
      rintro u x hu ⟨hx, hlocked⟩
      have hx' : g'.place u = .frame x := (h.place u hu).trans hx
      exact ⟨hx', by rwa [h.ksFt u x hx']⟩
    have hin : ¬ out t := fun hout => hfree t f hout hpin
    cases t with
    | master x => exact hlocked _ f hin hpin
    | table x slot =>
        obtain ⟨hf, m, hm⟩ := hpin
        exact ⟨hlocked _ f hin hf, m, hlocked _ m (fun hout => hfree _ m hout hm) hm⟩
  sound := h.sound
  segs x n _ := h.segs x n
  dead x _ hnone := by
    have hin : ¬ out (.master x) := fun hout => by
      obtain ⟨_, c, hc⟩ := h.master x hout
      simp [Layout.NoMaster, hc] at hnone
    rw [Layout.NoMaster, h.place _ hin] at hnone
    refine ⟨hnone, fun slot => h.place _ fun hout => ?_⟩
    obtain ⟨_, m, _, hm⟩ | hout' := h.was x slot hout
    · simp [hm] at hnone
    · exact hin hout'
  away x _ haway := by
    have hin : ¬ out (.master x) := fun hout => by
      obtain ⟨⟨m, hm⟩, _⟩ := h.master x hout
      exact haway m hm
    refine ⟨fun m hm => haway m ((h.place _ hin).symm.trans hm),
      fun slot => h.place _ fun hout => ?_⟩
    obtain ⟨_, m, _, hm⟩ | hout' := h.was x slot hout
    · exact haway m hm
    · exact hin hout'

end Carried

/-- Nothing happened but that pages and tables that are not pinned were paged out. -/
abbrev OnlyPaged (g : Layout) (s : KernelSystem) (g' : Layout) (s' : KernelSystem) : Prop :=
  Carried (fun _ => False) (fun _ => False) (fun _ => False) g s g' s'

theorem OnlyPaged.carried {loose : KTable → Prop} {mine : Nat → Prop} {but : LPage → Prop}
    {g g' : Layout} {s s' : KernelSystem} (h : OnlyPaged g s g' s') :
    Carried loose mine but g s g' s' := h.mono nofun nofun nofun

end VirtualMemory
