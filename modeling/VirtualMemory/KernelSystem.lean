import VirtualMemory.ConsVec
import VirtualMemory.UserSpace

/-!
# Kernel space: page tables, their frames and the processes

The rest of `KernelSystem`, over the user space whose descriptors are cells of kernel
memory. A `KernelProcess` object is known by a handle, which stands for its address; a
deleted object's handle leads to nothing. Kernel space below `ksReserved` houses the
tables that `UserSpace` keeps as functions, so only the frames above it matter as memory.
As in user space, the links through free pages are not recorded.

`ks_swap_out` of a master table swaps out page tables in turn. `depth` bounds that
recursion, and running out of it is running out of stack.
-/

namespace VirtualMemory

open Function

/-- A four-byte cell of a kernel frame, which is where a table pointer points. -/
structure KAddr where
  frame : Nat
  cell : Fin 256
  deriving DecidableEq, Repr

namespace KAddr

/-- `ptr + n`, or the address of `ptr[n]`. -/
def index (a : KAddr) (n : Nat) : KAddr where
  frame := (a.frame * 256 + a.cell + n) / 256
  cell := ⟨(a.cell + n) % 256, Nat.mod_lt _ (by decide)⟩

/-- The first cell of a frame, which is `ks_page_addr`. -/
def page (ordinal : Nat) : KAddr := ⟨ordinal, 0⟩

theorem index_page (f : Nat) {n : Nat} (hn : n < 256) : (page f).index n = ⟨f, ⟨n, hn⟩⟩ := by
  have hcell : ((0 : Fin 256) : Nat) = 0 := rfl
  simp only [index, page, hcell, KAddr.mk.injEq, Fin.mk.injEq]
  omega

theorem index_index_page (f : Nat) {m n : Nat} (hmn : m + n < 256) :
    ((page f).index m).index n = ⟨f, ⟨m + n, hmn⟩⟩ := by
  rw [index_page f (by omega)]
  simp only [index, KAddr.mk.injEq, Fin.mk.injEq]
  omega

end KAddr

/-- What the owner pointer of a kernel frame leads to: the process of a master table, the
first level entry of a page table. -/
inductive KsOwner where
  | pcb (handle : Nat)
  | ptl1e (addr : KAddr)
  deriving DecidableEq, Repr

/-- `KernelProcess`. `masterTable` is the frame that its `char*` points to, and `sscb` the
handle of the control block it is the dummy of, if it is one. -/
structure KernelProcess where
  pid : Nat
  segCount : Nat
  masterTable : Nat
  masterTableValid : Bool
  mtDisk : Nat
  ptl1Ptr : KAddr
  stPtr : KAddr
  sscb : Option Nat
  deriving Repr

structure PcbAndIndex where
  pcb : Nat
  index : Nat
  deriving DecidableEq, Repr

/-- `SsegControlBlock`; `dummy` is the handle of the dummy's process object. -/
structure SsegControlBlock where
  dummy : Nat
  ssegVecIndex : Nat
  users : List PcbAndIndex
  deriving Repr

structure KernelSystem extends UserSpace KAddr where
  krnlspcSize : Nat
  ksReserved : Nat
  ksEmpty : List Nat
  ksFt : Nat → FrameTableEntry KsOwner
  pcbs : Nat → Option KernelProcess
  nextPcb : Nat
  pcbVec : ConsVec (Option Nat)
  ssegVec : ConsVec Nat
  ssegMap : List (String × Nat)
  sscbs : Nat → Option SsegControlBlock
  nextSscb : Nat
  ssegCount : Nat

/-- `MAX_PAGE_TABLES_L1`, `MAX_SEGMENTS` and `PAGE_TABLE_SIZE_L2`. -/
def maxPageTablesL1 : Nat := 64
def maxSegments : Nat := 192
def pageTableSizeL2 : Nat := 256

namespace KernelSystem

/-- The same system with its user space, kernel memory and disk replaced. -/
def withUser (s : KernelSystem) (us : UserSpace KAddr) : KernelSystem :=
  { s with toUserSpace := us }

/-- An operation of user paging, run in the kernel. -/
def onUser (s : KernelSystem) (op : UserSpace KAddr → Except Halt (UserSpace KAddr)) :
    Except Halt KernelSystem := do
  let us ← op s.toUserSpace
  .ok (s.withUser us)

/-- The page in a kernel frame. -/
def krnlPage (s : KernelSystem) (ordinal : Nat) : Page := fun i => s.mem ⟨ordinal, i⟩

/-- A page is copied into a kernel frame. -/
def setKrnlPage (s : KernelSystem) (ordinal : Nat) (page : Page) : KernelSystem :=
  s.withUser { s.toUserSpace with
    mem := fun a => if a.frame = ordinal then page a.cell else s.mem a }

def ptl1 (s : KernelSystem) (ptl1e : KAddr) : PageTableL1Entry := (s.mem ptl1e).toL1

def setPtl1 (s : KernelSystem) (ptl1e : KAddr) (e : PageTableL1Entry) : KernelSystem :=
  s.withUser (s.toUserSpace.setPte ptl1e e.toCell)

def ste (s : KernelSystem) (a : KAddr) : SegTableEntry := (s.mem a).toSeg

def setSte (s : KernelSystem) (a : KAddr) (e : SegTableEntry) : KernelSystem :=
  s.withUser (s.toUserSpace.setPte a e.toCell)

/-- Dereferencing a process pointer. -/
def pcb (s : KernelSystem) (h : Nat) : Except Halt KernelProcess :=
  match s.pcbs h with
  | none => .error .nullDereference
  | some p => .ok p

theorem pcb_eq_ok {s : KernelSystem} {h : Nat} {p : KernelProcess} :
    s.pcb h = .ok p ↔ s.pcbs h = some p := by
  unfold pcb
  split <;> simp_all

def setPcb (s : KernelSystem) (h : Nat) (p : KernelProcess) : KernelSystem :=
  { s with pcbs := update s.pcbs h (some p) }

def ksFtUpdate (s : KernelSystem) (entry : Nat) (flags : BitVec 8) (type : PageType)
    (owner : KsOwner) : KernelSystem :=
  { s with ksFt := update s.ksFt entry ⟨flags, type, some owner⟩ }

def ksLockPage (s : KernelSystem) (ordinal : Nat) : KernelSystem :=
  { s with ksFt := update s.ksFt ordinal ((s.ksFt ordinal).setLocked true) }

def ksUnlockPage (s : KernelSystem) (ordinal : Nat) : KernelSystem :=
  { s with ksFt := update s.ksFt ordinal ((s.ksFt ordinal).setLocked false) }

/-- `PageUnlocker::unlock`: an ordinal of `NULL_CLUSTER` means that nothing is held. -/
def pageUnlock (s : KernelSystem) (pg : Nat) : KernelSystem :=
  if pg = nullCluster then s else s.ksUnlockPage pg

@[simp] theorem pageUnlock_user (s : KernelSystem) (pg : Nat) :
    (s.pageUnlock pg).toUserSpace = s.toUserSpace := by
  unfold pageUnlock
  split <;> rfl

/-- `lst_get_empty_page` on the kernel list. -/
def ksGetEmptyPage (s : KernelSystem) : Option (Nat × KernelSystem) :=
  match s.ksEmpty with
  | [] => none
  | page :: rest => some (page, { s with ksEmpty := rest })

/-- The link that `lst_return_page` writes into a page on the list is in `PageList` only. -/
def ksFreePage (s : KernelSystem) (ordinal : Nat) : KernelSystem :=
  { s with ksEmpty := s.ksEmpty ++ [ordinal] }

/-- The statements at `PASS_ON`: a master table with an unlocked resident page table is
passed over for the first such table. -/
def passOn (s : KernelSystem) (place : Nat) : Nat :=
  if (s.ksFt place).type = .ksSegTable then
    match (List.range maxPageTablesL1).find? fun i =>
        let e := s.ptl1 ((KAddr.page place).index i)
        decide (e.status = PageTableL1Entry.statusPresent) && !(s.ksFt e.block).getLocked with
    | some i => (s.ptl1 ((KAddr.page place).index i)).block
    | none => place
  else place

/-- The linear scan from a locked frame. A whole round without an unlocked frame goes on
for ever. -/
def findUnlocked (s : KernelSystem) : Nat → Nat → Option Nat
  | 0, _ => none
  | n + 1, place =>
      let place := if s.krnlspcSize ≤ place + 1 then s.ksReserved else place + 1
      if (s.ksFt place).getLocked then findUnlocked s n place
      else if (s.ksFt place).type = .ksSegTable then
        let place := s.passOn place
        if (s.ksFt place).getLocked then findUnlocked s n place else some place
      else some place

/-- Some frame that is not reserved is unlocked. -/
def unlockedFrame (s : KernelSystem) : Bool :=
  (List.range s.krnlspcSize).any fun f => decide (s.ksReserved ≤ f) && !(s.ksFt f).getLocked

def ksGetVictim (s : KernelSystem) : Except Halt (Victim × KernelSystem) :=
  match s.dice with
  | [] => .error (if s.unlockedFrame then .stillSearching else .noVictim)
  | roll :: dice =>
      let s := s.withUser { s.toUserSpace with dice := dice }
      let place := s.passOn (s.ksReserved + roll % (s.krnlspcSize - s.ksReserved))
      if (s.ksFt place).getLocked then
        match s.findUnlocked s.krnlspcSize place with
        | none => .error .noVictim
        | some place => .ok (⟨place, true, nullCluster⟩, s)
      else .ok (⟨place, true, nullCluster⟩, s)

/-- One descriptor of `page_table_evict_children`. -/
def pageTableEvictChild (page : Nat) (us : UserSpace KAddr) (i : Nat) :
    Except Halt (UserSpace KAddr) :=
  let e := us.mem ((KAddr.page page).index i)
  if e.getShared then .ok us
  else if e.getValid then us.usEvictPage e.block e.getDirty
  else .ok us

/-- `page_table_evict_children` with `destroy` off. -/
def pageTableEvictChildren (us : UserSpace KAddr) (page : Nat) :
    Except Halt (UserSpace KAddr) :=
  (List.range pageTableSizeL2).foldlM (pageTableEvictChild page) us

/-- The page table of a slot goes to the disk, if it is in memory. -/
def evictPresent (evict : KernelSystem → Nat → Except Halt KernelSystem) (s : KernelSystem)
    (e : PageTableL1Entry) : Except Halt KernelSystem :=
  if e.status = PageTableL1Entry.statusPresent then do
    let s ← s.onUser (pageTableEvictChildren · e.block)
    evict s e.block
  else .ok s

/-- One slot of `master_table_evict_children`, with the way to evict a kernel page. -/
def masterTableEvictChild (evict : KernelSystem → Nat → Except Halt KernelSystem) (h : Nat)
    (s : KernelSystem) (i : Nat) : Except Halt KernelSystem := do
  let p ← s.pcb h
  let s ← s.evictPresent evict (s.ptl1 (p.ptl1Ptr.index i))
  let p ← s.pcb h
  .ok (s.setPtl1 (p.ptl1Ptr.index i)
    { s.ptl1 (p.ptl1Ptr.index i) with status := PageTableL1Entry.statusPagedOut })

/-- `master_table_evict_children` with `destroy` off. -/
def masterTableEvictChildren (evict : KernelSystem → Nat → Except Halt KernelSystem) (h : Nat)
    (s : KernelSystem) : Except Halt KernelSystem :=
  (List.range maxPageTablesL1).foldlM (masterTableEvictChild evict h) s

/-- The cluster that `ks_swap_out` uses, and whether it writes the page there. -/
def ksSwapCluster (s : KernelSystem) (victim : Victim) :
    Except Halt (Nat × Bool × KernelSystem) :=
  if victim.cluster = nullCluster then
    match s.dvtAcquireCluster with
    | none => .error .diskFullKs
    | some (cn, us) => .ok (cn, true, s.withUser us)
  else .ok (victim.cluster, victim.dirty, s)

/-- The end of `ks_swap_out`: the page is written and its frame freed. -/
def ksSwapFinish (s : KernelSystem) (ordinal cn : Nat) (writeBack : Bool) : KernelSystem :=
  let s := if writeBack then s.withUser (s.diskPut cn (s.krnlPage ordinal)) else s
  let s := { s with ksFt := update s.ksFt ordinal { s.ksFt ordinal with type := .ksUnused } }
  s.ksFreePage ordinal

/-- The `switch` of `ks_swap_out`: the children go first, then the owner is updated. A frame
table entry whose type and owner do not belong together is a wild pointer. -/
def ksSwapOwner (evict : KernelSystem → Nat → Except Halt KernelSystem) (s : KernelSystem)
    (ordinal cn : Nat) : Except Halt KernelSystem :=
  match (s.ksFt ordinal).type, (s.ksFt ordinal).owner with
  | .ksPageTable, some (.ptl1e a) => do
      let s ← s.onUser (pageTableEvictChildren · ordinal)
      .ok (s.setPtl1 a { s.ptl1 a with
        blockDisk := BitVec.ofNat 16 cn
        status := PageTableL1Entry.statusPagedOut })
  | .ksSegTable, some (.pcb h) => do
      let s ← masterTableEvictChildren evict h s
      let p ← s.pcb h
      .ok (s.setPcb h { p with mtDisk := cn, masterTableValid := false })
  | .ksPageTable, _ | .ksSegTable, _ => .error .nullDereference
  | _, _ => .error .ksIncorrectType

/-- `ks_evict_page` of a dirty page, with the way to swap it out. -/
def ksEvictWith (swapOut : KernelSystem → Victim → Except Halt KernelSystem)
    (s : KernelSystem) (ordinal : Nat) : Except Halt KernelSystem :=
  match s.dvtAcquireCluster with
  | none => .error .diskFullEvict
  | some (cluster, us) => swapOut (s.withUser us) ⟨ordinal, true, cluster⟩

def ksSwapOut : Nat → KernelSystem → Victim → Except Halt KernelSystem
  | 0, _, _ => .error .stackOverflow
  | depth + 1, s, victim => do
      let (cn, writeBack, s) ← s.ksSwapCluster victim
      let s ← s.ksSwapOwner (ksEvictWith (ksSwapOut depth)) victim.ordinal cn
      .ok (s.ksSwapFinish victim.ordinal cn writeBack)

/-- More stack than page tables can nest. -/
def stackDepth (s : KernelSystem) : Nat := s.krnlspcSize + 2

/-- `ks_acquire_page` up to `ul.unlock()`. -/
def ksTakePage (s : KernelSystem) : Except Halt (Nat × KernelSystem) :=
  match s.ksGetEmptyPage with
  | some (page, s) => .ok (page, s)
  | none => do
      let (victim, s) ← s.ksGetVictim
      let s ← ksSwapOut s.stackDepth s victim
      match s.ksGetEmptyPage with
      | some (page, s) => .ok (page, s)
      | none => .error .ksCouldNotAcquire

def ksAcquirePage (s : KernelSystem) (newType : PageType) (newOwner : KsOwner) (lock : Bool) :
    Except Halt (Nat × KernelSystem) := do
  let (page, s) ← s.ksTakePage
  let flags := if lock then FrameTableEntry.ftLocked else FrameTableEntry.ftNone
  .ok (page, s.ksFtUpdate page flags newType newOwner)

def ksRequestPage (s : KernelSystem) (newType : PageType) (newOwner : KsOwner) (cluster : Nat)
    (lock : Bool) : Except Halt (Nat × KernelSystem) := do
  let (page, s) ← s.ksAcquirePage newType newOwner lock
  if cluster = nullCluster then .ok (page, s)
  else
    let s := s.setKrnlPage page (s.disk cluster)
    .ok (page, s.withUser (s.dvtMark cluster true))

def ksEvictPage (s : KernelSystem) (ordinal : Nat) : Except Halt KernelSystem :=
  ksEvictWith (ksSwapOut s.stackDepth) s ordinal

/-- `ks_relinquish_page`. -/
def ksRelinquishPage (s : KernelSystem) (ordinal : Nat) : KernelSystem := s.ksFreePage ordinal

end KernelSystem

end VirtualMemory
