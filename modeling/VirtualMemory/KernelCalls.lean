import VirtualMemory.KernelProcess

/-!
# Removing segments, shared segments, and the life of a process

The remaining public operations. The processes of a run are told apart by the handles of
their objects; a handle is never used twice, so that a pointer to a deleted object is not
mistaken for a pointer to a new one.
-/

namespace VirtualMemory

open Function

namespace KernelSystem

/-- The control block behind `sseg_vec[sscb_index]->sscb`. -/
def ssegBlock (s : KernelSystem) (ssegInd : Nat) : Except Halt (Nat × SsegControlBlock) := do
  let dummy ← s.ssegVec.atIndex ssegInd
  let p ← s.pcb dummy
  match p.sscb with
  | none => .error .nullDereference
  | some b =>
      match s.sscbs b with
      | none => .error .nullDereference
      | some sscb => .ok (b, sscb)

def setSscb (s : KernelSystem) (b : Nat) (sscb : SsegControlBlock) : KernelSystem :=
  { s with sscbs := update s.sscbs b (some sscb) }

/-- `connect_shared_segment`. -/
def connectSharedSegment (s : KernelSystem) (h ssegInd localIndex : Nat) :
    Except Halt KernelSystem := do
  let (b, sscb) ← s.ssegBlock ssegInd
  .ok (s.setSscb b { sscb with users := sscb.users ++ [⟨h, localIndex⟩] })

/-- `KernelSystem::disconnect_shared_segment`: the first entry of the process goes. -/
def dropUser (s : KernelSystem) (h ssegInd : Nat) : Except Halt (Nat × KernelSystem) := do
  let (b, sscb) ← s.ssegBlock ssegInd
  match sscb.users.find? fun user => decide (user.pcb = h) with
  | none => .error .noMatchFound
  | some user =>
      .ok (user.index, s.setSscb b { sscb with
        users := sscb.users.eraseP fun user => decide (user.pcb = h) })

/-- What `delete_segment_ind` does to the descriptor of one page. The first shared page
takes the process off the list of users. -/
def deleteEntry (h : Nat) (doReleaseShared released : Bool) (s : KernelSystem)
    (ptl2e : KAddr) : Except Halt (Bool × KernelSystem) :=
  if !(s.mem ptl2e).getInseg then .error .notInSegment
  else if (s.mem ptl2e).getShared then
    if !released && doReleaseShared then do
      let (_, s) ← s.dropUser h (s.mem ptl2e).ssegInd.toNat
      .ok (true, s.withUser (s.setPte ptl2e ((s.mem ptl2e).setFlags 0#8)))
    else .ok (released, s.withUser (s.setPte ptl2e ((s.mem ptl2e).setFlags 0#8)))
  else do
    let s ← s.onUser (·.releasePage ptl2e)
    .ok (released, s)

/-- One page of `delete_segment_ind`. The page table that is locked is that of the first
page of the segment. -/
def deletePage (h startAddr : Nat) (doReleaseShared : Bool) (r : Bool × KernelSystem)
    (i : Nat) : Except Halt (Bool × KernelSystem) := do
  let (released, s) := r
  let ptl1e ← deref (← s.accessPtl1 h (pageAddr startAddr i))
  if (s.ptl1 ptl1e).status = PageTableL1Entry.statusUnused then .error .unusedPageTable
  else do
    let (pt, s) ← s.pageTableLock h startAddr
    let ptl2e ← derefPtl2 (s.accessPtl2 (pageAddr startAddr i) ptl1e)
    let (released, s) ← deleteEntry h doReleaseShared released s ptl2e
    .ok (released, s.pageUnlock pt)

def deleteSegmentInd (s : KernelSystem) (h entry : Nat) (doReleaseShared : Bool) :
    Except Halt KernelSystem := do
  let p ← s.pcb h
  let ste := s.ste (p.stPtr.index entry)
  let (_, s) ← (List.range ste.getLength).foldlM
    (deletePage h (ste.start * pageSize) doReleaseShared) (false, s)
  let p ← s.pcb h
  let a := p.stPtr.index entry
  let s := s.setSte a ((s.ste a).setKind .free)
  .ok (s.setPcb h { p with segCount := (p.segCount + (2 ^ 32 - 1)) % 2 ^ 32 })

/-- The entry is looked for by its start page alone, taken with ten bits. -/
def deleteSegment (s : KernelSystem) (h startAddr : Nat) :
    Except Halt (Status × KernelSystem) := do
  let p ← s.pcb h
  if p.segCount = 0 ∨ startAddr % pageSize ≠ 0 then .ok (.trap, s)
  else do
    let (mt, s) ← s.masterTableLock h
    let p ← s.pcb h
    match (List.range maxSegments).find? fun i =>
        decide ((s.ste (p.stPtr.index i)).start = startAddr / 2 ^ 10 % 2 ^ 10) with
    | none => .ok (.trap, s.pageUnlock mt)
    | some entry => do
        let s ← s.deleteSegmentInd h entry true
        .ok (.ok, s.pageUnlock mt)

/-- `set_master_table` of a new table: the statuses and the kinds are set, whatever else
is in the page stays. -/
def initMasterTable (page : Page) : Page := fun i =>
  if i.val < maxPageTablesL1 then
    { (page i).toL1 with status := PageTableL1Entry.statusUnused }.toCell
  else ((page i).toSeg.setKind .free).toCell

def setMasterTable (s : KernelSystem) (h page : Nat) : Except Halt KernelSystem := do
  let p ← s.pcb h
  let s := s.setKrnlPage page (initMasterTable (s.krnlPage page))
  .ok (s.setPcb h { p with
    segCount := 0
    masterTable := page
    masterTableValid := true
    ptl1Ptr := KAddr.page page
    stPtr := (KAddr.page page).index maxPageTablesL1 })

/-- A new object and its place in `pcb_vec`. The constructor leaves the pointers and the
flag unset. -/
def newPcb (s : KernelSystem) : Except Halt (Nat × KernelSystem) := do
  let (index, pcbVec) := s.pcbVec.insert none
  let h := s.nextPcb
  let pcbVec ← pcbVec.assign index (some h)
  .ok (h, { s with
    nextPcb := h + 1
    pcbVec := pcbVec
    pcbs := update s.pcbs h (some {
      pid := index
      segCount := 0
      masterTable := 0
      masterTableValid := false
      mtDisk := 0
      ptl1Ptr := KAddr.page 0
      stPtr := KAddr.page 0
      sscb := none }) })

/-- The part that `create_process` and `clone_process` share: an object with an empty
master table, which is locked. -/
def newProcess (s : KernelSystem) : Except Halt (Nat × Nat × KernelSystem) := do
  let (h, s) ← s.newPcb
  let (page, s) ← s.ksAcquirePage .ksSegTable (.pcb h) true
  let s ← s.setMasterTable h page
  .ok (h, page, s)

def createProcess (s : KernelSystem) : Except Halt (Nat × KernelSystem) := do
  let (h, page, s) ← s.newProcess
  .ok (h, s.ksFtUpdate page FrameTableEntry.ftNone .ksSegTable (.pcb h))

/-- One entry of the loop of `~KernelProcess`. -/
def destroyEntry (h : Nat) (s : KernelSystem) (i : Nat) : Except Halt KernelSystem := do
  let p ← s.pcb h
  if (s.ste (p.stPtr.index i)).getKind = .occupied then s.deleteSegmentInd h i true
  else .ok s

/-- `~KernelProcess`, after which the object is gone. -/
def deleteProcess (s : KernelSystem) (h : Nat) : Except Halt KernelSystem := do
  let (mt, s) ← s.masterTableLock h
  let s ← (List.range maxSegments).foldlM (destroyEntry h) s
  let s := (s.ksRelinquishPage mt).ksUnlockPage mt
  let p ← s.pcb h
  let pcbVec ← s.pcbVec.markEmpty p.pid
  .ok { s with pcbVec := pcbVec, pcbs := update s.pcbs h none }

/-- The descriptor of the source's page, with its page table locked. -/
def lockSourcePtl2 (s : KernelSystem) (source addr : Nat) :
    Except Halt (Nat × KAddr × KernelSystem) := do
  let ptl1e ← deref (← s.accessPtl1 source addr)
  if (s.ptl1 ptl1e).status = PageTableL1Entry.statusUnused then .error .cloneUnusedPageTable
  else do
    let (punl1, s) ← s.pageTableLock source addr
    let ptl2e ← derefPtl2 (s.accessPtl2 addr ptl1e)
    .ok (punl1, ptl2e, s)

/-- What is made of the source's descriptor. A shared segment is connected with its first
page; a page that is to be created is only copied. -/
def cloneEntry (h entry : Nat) (kind : KindEnum) (s : KernelSystem) (ptl2e source : KAddr)
    (i : Nat) : Except Halt KernelSystem :=
  if kind = .occShared ∨ (s.mem source).getTbc = true then
    let s := s.withUser (s.setPte ptl2e (s.mem source))
    if i = 0 ∧ kind = .occShared then
      s.connectSharedSegment h (s.mem source).ssegInd.toNat entry
    else .ok s
  else s.onUser (·.clonePage ptl2e source)

/-- The work of `clone_segment_from` on one page of the new segment. -/
def cloneWork (h entry source startAddr : Nat) (kind : KindEnum) (s : KernelSystem)
    (ptl2e : KAddr) (i : Nat) : Except Halt KernelSystem := do
  let (punl1, ptl2eSrc, s) ← s.lockSourcePtl2 source (pageAddr startAddr i)
  let s ← cloneEntry h entry kind s ptl2e ptl2eSrc i
  .ok (s.pageUnlock punl1)

def cloneSegmentFrom (h source : Nat) (s : KernelSystem) (index : Nat) :
    Except Halt KernelSystem := do
  let p ← s.pcb source
  let ste := s.ste (p.stPtr.index index)
  let (entry, s) ← s.recordSegment h ste.start ste.getLength ste.getKind
  s.fillSegment h (ste.start * pageSize) ste.getLength
    (cloneWork h entry source (ste.start * pageSize) ste.getKind)

/-- One entry of the loop of `clone_process`. -/
def cloneStep (h source : Nat) (s : KernelSystem) (i : Nat) : Except Halt KernelSystem := do
  let p ← s.pcb source
  if (s.ste (p.stPtr.index i)).getKind = .free then .ok s
  else cloneSegmentFrom h source s i

/-- The source's master table is locked and stays so. -/
def cloneProcess (s : KernelSystem) (pid : Nat) : Except Halt (Nat × KernelSystem) := do
  match ← s.pcbVec.atIndex pid with
  | none => .error .nullDereference
  | some source => do
      let (_, s) ← s.masterTableLock source
      let (h, page, s) ← s.newProcess
      let s ← (List.range maxSegments).foldlM (cloneStep h source) s
      .ok (h, s.ksFtUpdate page FrameTableEntry.ftNone .ksSegTable (.pcb h))

/-- `MAX_SHARED_SEGMENTS`. -/
def maxSharedSegments : Nat := 256

def sharedSegmentFind (s : KernelSystem) (name : String) : Except Halt (Option Nat) :=
  match s.ssegMap.lookup name with
  | none => .ok none
  | some b =>
      match s.sscbs b with
      | none => .error .nullDereference
      | some sscb => .ok (some sscb.ssegVecIndex)

/-- `KernelSystem::create_shared_segment`: a dummy process with one segment from page 0. -/
def createDummy (s : KernelSystem) (size : Nat) (name : String) (accType : AccessType) :
    Except Halt (Status × KernelSystem) :=
  if s.ssegCount = maxSharedSegments then .ok (.trap, s)
  else do
    let b := s.nextSscb
    let s := { s with ssegMap := (name, b) :: s.ssegMap, nextSscb := b + 1 }
    let (dummy, s) ← s.createProcess
    let (index, ssegVec) := s.ssegVec.insert dummy
    let s := { s with ssegVec := ssegVec }.setSscb b ⟨dummy, index, []⟩
    let p ← s.pcb dummy
    let s := s.setPcb dummy { p with sscb := some b }
    { s with ssegCount := s.ssegCount + 1 }.createSegment dummy 0 size accType

/-- The index of the shared segment of a name, which is created if there is none. -/
def findOrCreate (s : KernelSystem) (size : Nat) (name : String) (accType : AccessType) :
    Except Halt (Option Nat × KernelSystem) := do
  match ← s.sharedSegmentFind name with
  | some ssegInd => .ok (some ssegInd, s)
  | none => do
      let (status, s) ← s.createDummy size name accType
      if status = .ok then do
        let ssegInd ← s.sharedSegmentFind name
        .ok (ssegInd, s)
      else .ok (none, s)

/-- What `create_shared_segment` does to each descriptor: it names the page of the shared
segment. -/
def mapShared (ssegInd : Nat) (accType : AccessType) (s : KernelSystem) (ptl2e : KAddr)
    (i : Nat) : Except Halt KernelSystem :=
  let e := (s.mem ptl2e).setFlags (PageTableL2Entry.packFlags accType true false true false true)
  .ok (s.withUser (s.setPte ptl2e ({ e with ssegInd := BitVec.ofNat 8 ssegInd }.setBlockDisk i)))

def createSharedSegment (s : KernelSystem) (h startAddr size : Nat) (name : String)
    (accType : AccessType) : Except Halt (Status × KernelSystem) := do
  let p ← s.pcb h
  if !segmentArgs p startAddr size then .ok (.trap, s)
  else do
    let (mt, s) ← s.masterTableLock h
    let p ← s.pcb h
    let ordinal := startAddr / 2 ^ 10 % 2 ^ 14
    if s.anyOverlap p ordinal startAddr size then .ok (.trap, s.pageUnlock mt)
    else do
      let (found, s) ← s.findOrCreate size name accType
      match found with
      | none => .ok (.trap, s.pageUnlock mt)
      | some ssegInd => do
          let (entry, s) ← s.recordSegment h ordinal size .occShared
          let s ← s.connectSharedSegment h ssegInd entry
          let s ← s.fillSegment h startAddr size (mapShared ssegInd accType)
          .ok (.ok, s.pageUnlock mt)

/-- `KernelProcess::disconnect_shared_segment`. -/
def disconnectSharedSegment (s : KernelSystem) (h : Nat) (name : String) :
    Except Halt (Status × KernelSystem) := do
  match ← s.sharedSegmentFind name with
  | none => .ok (.trap, s)
  | some ssegInd => do
      let (localIndex, s) ← s.dropUser h ssegInd
      let s ← s.deleteSegmentInd h localIndex false
      .ok (.ok, s)

/-- Each connected process loses its mapping. -/
def dropMapping (s : KernelSystem) (user : PcbAndIndex) : Except Halt KernelSystem :=
  s.deleteSegmentInd user.pcb user.index false

/-- `delete_shared_segment`. -/
def deleteSharedSegment (s : KernelSystem) (name : String) :
    Except Halt (Status × KernelSystem) :=
  match s.ssegMap.lookup name with
  | none => .ok (.trap, s)
  | some b =>
      match s.sscbs b with
      | none => .error .nullDereference
      | some sscb => do
          let s ← sscb.users.foldlM dropMapping s
          let s := s.setSscb b { sscb with users := [] }
          let s ← s.deleteProcess sscb.dummy
          let ssegVec ← s.ssegVec.markEmpty sscb.ssegVecIndex
          .ok (.ok, { s with
            ssegVec := ssegVec
            ssegMap := s.ssegMap.filter fun entry => decide (entry.1 ≠ name)
            sscbs := update s.sscbs b none })

/-- `ks_reserved` after the constructor, for a frame table entry of `entrySize` bytes. -/
def reservedPages (userspcSize krnlspcSize diskSize entrySize : Nat) : Nat :=
  divCeil (userspcSize * entrySize) pageSize + divCeil (krnlspcSize * entrySize) pageSize +
    divCeil (divCeil diskSize 32 * 4) pageSize + divCeil (userspcSize * 2) pageSize

/-- The constructor. Kernel memory, user memory, the origin table and the disk contain
whatever they did; it stops when the tables alone do not fit. -/
def construct (us : UserSpace KAddr) (krnlspcSize entrySize : Nat) : Except Halt KernelSystem :=
  let reserved := reservedPages us.userspcSize krnlspcSize us.diskSize entrySize
  if krnlspcSize < reserved then .error .needsMorePages
  else .ok {
    toUserSpace := us
    krnlspcSize := krnlspcSize
    ksReserved := reserved
    ksEmpty := (List.range (krnlspcSize - reserved)).map (reserved + ·)
    ksFt := fun _ => .empty
    pcbs := fun _ => none
    nextPcb := 0
    pcbVec := ConsVec.new
    ssegVec := ConsVec.new
    ssegMap := []
    sscbs := fun _ => none
    nextSscb := 0
    ssegCount := 0 }

end KernelSystem

end VirtualMemory
