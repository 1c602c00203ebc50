import VirtualMemory.KernelSystem

/-!
# Processes: segments, faults and accesses

The methods of `KernelProcess` and the public operations of `KernelSystem`. A process is
given by the handle of its object. Virtual addresses and page counts are 32-bit unsigned
integers, and so is `size_t`; where the code adds to one of them the sum wraps.

`page_fault` and `access` on a shared page call themselves on the dummy process of the
segment. `depth` bounds the recursion, as for `ks_swap_out`.
-/

namespace VirtualMemory

open Function

/-- The slot of an address in the first level table. -/
def ptl1Slot (addr : Nat) : Nat := addr / 2 ^ 18 % 64

/-- The slot of an address in its second level table. -/
def ptl2Slot (addr : Nat) : Nat := addr / 2 ^ 10 % 256

/-- `start_addr + i * PAGE_SIZE`. -/
def pageAddr (startAddr i : Nat) : Nat := (startAddr + i * pageSize) % 2 ^ 32

/-- The address of a page's byte in the dummy process: the page index of the mapping with
the offset of the address. -/
def ssegAddr (ptl2e : PageTableL2Entry) (addr : Nat) : Nat :=
  ptl2e.block * pageSize + addr % pageSize

namespace KernelSystem

/-- `swap_master_table` with `MODE_IN`. Only `master_table` and its flag are set. -/
def swapMasterTable (s : KernelSystem) (h : Nat) (lock : Bool) : Except Halt KernelSystem := do
  let p ← s.pcb h
  let (page, s) ← s.ksRequestPage .ksSegTable (.pcb h) p.mtDisk lock
  let p ← s.pcb h
  .ok (s.setPcb h { p with masterTable := page, masterTableValid := true })

def masterTableLock (s : KernelSystem) (h : Nat) : Except Halt (Nat × KernelSystem) := do
  let p ← s.pcb h
  if p.masterTableValid then .ok (p.masterTable, s.ksLockPage p.masterTable)
  else do
    let s ← s.swapMasterTable h true
    let p ← s.pcb h
    .ok (p.masterTable, s)

/-- A page table comes back from the disk: its first level entry names the new frame. -/
def fetchPageTable (s : KernelSystem) (ptl1e : KAddr) (lock : Bool) :
    Except Halt KernelSystem := do
  let (page, s) ← s.ksRequestPage .ksPageTable (.ptl1e ptl1e) (s.ptl1 ptl1e).block lock
  .ok (s.setPtl1 ptl1e { s.ptl1 ptl1e with
    blockDisk := BitVec.ofNat 16 page
    status := PageTableL1Entry.statusPresent })

/-- A slot that is neither present nor paged out keeps the loop going for ever. -/
def pageTableLock (s : KernelSystem) (h addr : Nat) : Except Halt (Nat × KernelSystem) := do
  let p ← s.pcb h
  let ptl1e := p.ptl1Ptr.index (ptl1Slot addr)
  if (s.ptl1 ptl1e).status = PageTableL1Entry.statusPagedOut then do
    let s ← s.fetchPageTable ptl1e true
    .ok ((s.ptl1 ptl1e).block, s)
  else if (s.ptl1 ptl1e).status = PageTableL1Entry.statusPresent then
    .ok ((s.ptl1 ptl1e).block, s.ksLockPage (s.ptl1 ptl1e).block)
  else .error .stillSearching

/-- `access_ptl1`; null while the master table is paged out. -/
def accessPtl1 (s : KernelSystem) (h addr : Nat) : Except Halt (Option KAddr) := do
  let p ← s.pcb h
  .ok (if p.masterTableValid then some (p.ptl1Ptr.index (ptl1Slot addr)) else none)

/-- `access_ptl2`, with the status it sets when it returns null. -/
def accessPtl2 (s : KernelSystem) (addr : Nat) (ptl1e : KAddr) : Except Status KAddr :=
  if (s.ptl1 ptl1e).status = PageTableL1Entry.statusUnused then .error .trap
  else if (s.ptl1 ptl1e).status = PageTableL1Entry.statusPagedOut then .error .pageFault
  else .ok ((KAddr.page (s.ptl1 ptl1e).block).index (ptl2Slot addr))

/-- A pointer that is about to be dereferenced. -/
def deref (pointer : Option KAddr) : Except Halt KAddr :=
  match pointer with
  | none => .error .nullDereference
  | some a => .ok a

/-- The result of `access_ptl2`, dereferenced without a look at the status. -/
def derefPtl2 (r : Except Status KAddr) : Except Halt KAddr :=
  match r with
  | .error _ => .error .nullDereference
  | .ok a => .ok a

/-- `swap_page_table` with `MODE_IN`. -/
def swapPageTable (s : KernelSystem) (h addr : Nat) : Except Halt KernelSystem := do
  match ← s.accessPtl1 h addr with
  | none => .error .couldNotFetchDescriptor
  | some ptl1e => s.fetchPageTable ptl1e false

/-- `access_phys`, as the frame and the offset of the byte. -/
def accessPhys (addr : Nat) (e : PageTableL2Entry) : Except Status (Nat × Nat) :=
  if !e.getInseg then .error .trap
  else if !e.getValid then .error .pageFault
  else .ok (e.block, addr % pageSize)

/-- The loop of `page_fault`: the descriptor, once its page table is in memory. -/
def faultPtl2 (s : KernelSystem) (h addr : Nat) (ptl1e : KAddr) :
    Except Halt (KAddr × KernelSystem) :=
  match s.accessPtl2 addr ptl1e with
  | .ok ptl2e => .ok (ptl2e, s)
  | .error .pageFault => do
      let s ← s.swapPageTable h addr
      let ptl2e ← derefPtl2 (s.accessPtl2 addr ptl1e)
      .ok (ptl2e, s)
  | .error _ => .error .accessedUnusedPageTable

/-- The end of `page_fault`, once the descriptor is in memory. -/
def faultEntry (onShared : KernelSystem → Nat → Nat → Except Halt KernelSystem)
    (s : KernelSystem) (addr : Nat) (ptl2e : KAddr) : Except Halt KernelSystem :=
  if (s.mem ptl2e).getShared then do
    let dummy ← s.ssegVec.atIndex (s.mem ptl2e).ssegInd.toNat
    onShared s dummy (ssegAddr (s.mem ptl2e) addr)
  else s.onUser (·.faultPage ptl2e)

def pageFault : Nat → KernelSystem → Nat → Nat → Except Halt KernelSystem
  | 0, _, _, _ => .error .stackOverflow
  | depth + 1, s, h, addr => do
      let (mt, s) ← s.masterTableLock h
      let ptl1e ← deref (← s.accessPtl1 h addr)
      if (s.ptl1 ptl1e).status = PageTableL1Entry.statusUnused then .error .masterTableError
      else do
        let (ptl2e, s) ← s.faultPtl2 h addr ptl1e
        let s ← s.faultEntry (pageFault depth) addr ptl2e
        .ok (s.pageUnlock mt)

/-- `access_is_ok`. -/
def accessIsOk (requested granted : Nat) : Bool := Nat.testBit 0x8465 (requested * 4 + granted)

/-- `SSEG_START_IND`: process ids from here on are shared segment indices. -/
def ssegStartInd : Nat := 60000

/-- The process that `access` looks up for an id. -/
def accessPcb (s : KernelSystem) (pid : Nat) : Except Halt Nat :=
  if pid < ssegStartInd then do
    match ← s.pcbVec.atIndex pid with
    | none => .error .nullDereference
    | some h => .ok h
  else s.ssegVec.atIndex (pid - ssegStartInd)

/-- `access` once the descriptor was found. -/
def accessEntry (onShared : KernelSystem → Nat → Nat → Except Halt (Status × KernelSystem))
    (s : KernelSystem) (address : Nat) (type : AccessType) (ignoreAccess : Bool)
    (ptl2e : KAddr) : Except Halt (Status × KernelSystem) :=
  let e := s.mem ptl2e
  if !ignoreAccess && !accessIsOk type.code e.getAccess then .ok (.trap, s)
  else if e.getShared then onShared s (ssegStartInd + e.ssegInd.toNat) (ssegAddr e address)
  else match accessPhys address e with
    | .error status => .ok (status, s)
    | .ok _ => .ok (.ok, if type = .write then s.withUser (s.markDirty ptl2e) else s)

def access : Nat → KernelSystem → Nat → Nat → AccessType → Bool →
    Except Halt (Status × KernelSystem)
  | 0, _, _, _, _, _ => .error .stackOverflow
  | depth + 1, s, pid, address, type, ignoreAccess => do
      let h ← s.accessPcb pid
      let (mt, s) ← s.masterTableLock h
      match ← s.accessPtl1 h address with
      | none => .ok (.pageFault, s.pageUnlock mt)
      | some ptl1e =>
          match s.accessPtl2 address ptl1e with
          | .error status => .ok (status, s.pageUnlock mt)
          | .ok ptl2e => do
              let (status, s) ← s.accessEntry
                (fun s pid address => access depth s pid address type true)
                address type ignoreAccess ptl2e
              .ok (status, s.pageUnlock mt)

/-- `get_pa`, as the frame and the offset, or null. -/
def getPa : Nat → KernelSystem → Nat → Nat → Except Halt (Option (Nat × Nat))
  | 0, _, _, _ => .error .stackOverflow
  | depth + 1, s, h, addr => do
      let ptl1e ← deref (← s.accessPtl1 h addr)
      let ptl2e ← derefPtl2 (s.accessPtl2 addr ptl1e)
      let e := s.mem ptl2e
      if e.getShared then do
        let dummy ← s.ssegVec.atIndex e.ssegInd.toNat
        getPa depth s dummy (ssegAddr e addr)
      else .ok (accessPhys addr e).toOption

/-- `init_page_table`. -/
def initPageTable (s : KernelSystem) (page : Nat) : KernelSystem :=
  s.setKrnlPage page fun _ => ⟨0#16, 0#8, 0#8⟩

/-- The page table of a page of a new segment, locked; it is made if there is none. Returns
the ordinal to unlock. -/
def lockPtl2 (s : KernelSystem) (h addr : Nat) (ptl1e : KAddr) :
    Except Halt (Nat × KernelSystem) :=
  if (s.ptl1 ptl1e).status = PageTableL1Entry.statusUnused then do
    let (pa, s) ← s.ksRequestPage .ksPageTable (.ptl1e ptl1e) nullCluster true
    let s := s.setPtl1 ptl1e { s.ptl1 ptl1e with
      blockDisk := BitVec.ofNat 16 pa
      status := PageTableL1Entry.statusPresent }
    .ok (pa, s.initPageTable pa)
  else s.pageTableLock h addr

/-- One page of a new segment, with what is done to its descriptor. -/
def segmentPage (h startAddr : Nat)
    (work : KernelSystem → KAddr → Nat → Except Halt KernelSystem) (s : KernelSystem)
    (i : Nat) : Except Halt KernelSystem := do
  let ptl1e ← deref (← s.accessPtl1 h (pageAddr startAddr i))
  let (punl1, s) ← s.lockPtl2 h (pageAddr startAddr i) ptl1e
  let ptl2e ← derefPtl2 (s.accessPtl2 (pageAddr startAddr i) ptl1e)
  let s ← work s ptl2e i
  .ok (s.pageUnlock punl1)

/-- The tests on the arguments that the segment creating calls share. -/
def segmentArgs (p : KernelProcess) (startAddr size : Nat) : Bool :=
  decide (size ≤ 2 ^ 14) && decide (size ≠ 0) && decide (p.segCount ≠ maxSegments) &&
    decide (startAddr % pageSize = 0)

/-- The overlap test of one entry of the segment table. Its last page is compared with the
page of the new segment, but its first page with a byte address. -/
def overlaps (ste : SegTableEntry) (ordinal startAddr size : Nat) : Bool :=
  decide (ste.getKind ≠ .free) &&
    !(decide ((ste.start + ste.getLength + (2 ^ 32 - 1)) % 2 ^ 32 < ordinal) ||
      decide ((startAddr + size + (2 ^ 32 - 1)) % 2 ^ 32 < ste.start))

def anyOverlap (s : KernelSystem) (p : KernelProcess) (ordinal startAddr size : Nat) : Bool :=
  (List.range maxSegments).any fun i =>
    overlaps (s.ste (p.stPtr.index i)) ordinal startAddr size

/-- The new entry of the segment table. With no free entry the index is never assigned. -/
def recordSegment (s : KernelSystem) (h ordinal size : Nat) (kind : KindEnum) :
    Except Halt (Nat × KernelSystem) := do
  let p ← s.pcb h
  match (List.range maxSegments).find? fun i =>
      decide ((s.ste (p.stPtr.index i)).getKind = .free) with
  | none => .error .uninitialised
  | some entry =>
      let a := p.stPtr.index entry
      let s := s.setSte a ((((s.ste a).setStartPage ordinal).setKind kind).setLength size)
      .ok (entry, s.setPcb h { p with segCount := p.segCount + 1 })

/-- The part that the calls creating a segment share, from the record on. -/
def fillSegment (s : KernelSystem) (h startAddr size : Nat)
    (work : KernelSystem → KAddr → Nat → Except Halt KernelSystem) : Except Halt KernelSystem :=
  (List.range size).foldlM (segmentPage h startAddr work) s

/-- `create_segment` and `load_segment` up to the page number they record and what they do
to each descriptor. -/
def newSegment (s : KernelSystem) (h ordinal startAddr size : Nat)
    (work : KernelSystem → KAddr → Nat → Except Halt KernelSystem) :
    Except Halt (Status × KernelSystem) := do
  let p ← s.pcb h
  if !segmentArgs p startAddr size then .ok (.trap, s)
  else do
    let (mt, s) ← s.masterTableLock h
    let p ← s.pcb h
    if s.anyOverlap p ordinal startAddr size then .ok (.trap, s.pageUnlock mt)
    else do
      let (_, s) ← s.recordSegment h ordinal size .occupied
      let s ← s.fillSegment h startAddr size work
      .ok (.ok, s.pageUnlock mt)

def createSegment (s : KernelSystem) (h startAddr size : Nat) (accType : AccessType) :
    Except Halt (Status × KernelSystem) :=
  s.newSegment h (startAddr / 2 ^ 10 % 2 ^ 14) startAddr size fun s ptl2e _ =>
    .ok (s.withUser (s.mapPage ptl2e accType))

/-- The page number is taken with ten bits here. -/
def loadSegment (s : KernelSystem) (h startAddr size : Nat) (accType : AccessType)
    (content : Nat → Page) : Except Halt (Status × KernelSystem) :=
  s.newSegment h (startAddr / 2 ^ 10 % 2 ^ 10) startAddr size fun s ptl2e i =>
    s.onUser (·.loadPage ptl2e accType (content i))

end KernelSystem

end VirtualMemory
