import VirtualMemory.HelperStructs

/-!
# User space: frames, origin table, vacancy table and disk

The part of `KernelSystem` that pages user data. `D` is the type of addresses of
second level entries: the frame table's owner pointers are such addresses, and `mem`
is what they point to. The kernel instantiates `D` with the cells of kernel space, so
that a write through an owner pointer lands wherever that pointer leads.

The free page list is kept as the queue of its pages; the links the code threads
through the free pages themselves are not recorded. The vacancy table is kept as the
set of its one bits, scanned in the order of the cluster numbers. A disk is its
clusters' contents: the partition library is outside the repository, and its reads and
writes below the partition's size are taken to succeed. `dice` holds the values the
random engine will produce; a search that has used them all up has not ended yet, or
never will where there is nothing to be found.
-/

namespace VirtualMemory

open Function

structure UserSpace (D : Type) where
  userspcSize : Nat
  userspc : Nat → Page
  usFt : Nat → FrameTableEntry D
  ot : Nat → Nat
  usEmpty : List Nat
  mem : D → Cell
  diskSize : Nat
  dvt : Nat → Bool
  disk : Nat → Page
  dice : List Nat

namespace UserSpace

variable {D : Type}

/-- The bits of the vacancy table, `dvt_entries * DVTE_SIZE` of them. -/
def dvtBits (s : UserSpace D) : Nat := divCeil s.diskSize 32 * 32

def dvtMark (s : UserSpace D) (cluster : Nat) (free : Bool) : UserSpace D :=
  { s with dvt := update s.dvt cluster free }

/-- The free cluster of the least number, taken out of the table. -/
def dvtAcquireCluster (s : UserSpace D) : Option (Nat × UserSpace D) :=
  match (List.range s.dvtBits).find? s.dvt with
  | none => none
  | some n => some (n, s.dvtMark n false)

def diskPut (s : UserSpace D) (n : Nat) (buffer : Page) : UserSpace D :=
  { s with disk := update s.disk n buffer }

/-- `disk_get` into a user frame. -/
def diskGet (s : UserSpace D) (n ordinal : Nat) : UserSpace D :=
  { s with userspc := update s.userspc ordinal (s.disk n) }

/-- `std::memcpy` of a page into a user frame. -/
def copyPage (s : UserSpace D) (ordinal : Nat) (content : Page) : UserSpace D :=
  { s with userspc := update s.userspc ordinal content }

def usFtUpdate (s : UserSpace D) (entry : Nat) (flags : BitVec 8) (type : PageType)
    (owner : D) : UserSpace D :=
  { s with usFt := update s.usFt entry ⟨flags, type, some owner⟩ }

/-- The assignment to an origin table entry, a 16-bit field. -/
def setOrigin (s : UserSpace D) (ordinal cluster : Nat) : UserSpace D :=
  { s with ot := update s.ot ordinal (cluster % 65536) }

/-- A write to the second level entry at an address. -/
def setPte [DecidableEq D] (s : UserSpace D) (pte : D) (e : PageTableL2Entry) : UserSpace D :=
  { s with mem := update s.mem pte e }

/-- `lst_get_empty_page` on the user list. -/
def lstGetEmptyPage (s : UserSpace D) : Option (Nat × UserSpace D) :=
  match s.usEmpty with
  | [] => none
  | page :: rest => some (page, { s with usEmpty := rest })

/-- `us_free_page`, which is `lst_return_page` on the user list. The links that it writes into
the pages are in `PageList` only. -/
def usFreePage (s : UserSpace D) (ordinal : Nat) : UserSpace D :=
  { s with usEmpty := s.usEmpty ++ [ordinal] }

/-- The rolls until one differs from the frame to ignore. -/
def rollUser (size : Nat) (toIgnore : Option Nat) : List Nat → Option (Nat × List Nat)
  | [] => none
  | roll :: dice =>
      let place := roll % size
      if some place = toIgnore then rollUser size toIgnore dice else some (place, dice)

/-- Some user frame is not the one to ignore. -/
def otherFrame (s : UserSpace D) (toIgnore : Option Nat) : Bool :=
  (List.range s.userspcSize).any fun place => decide (some place ≠ toIgnore)

def usGetVictim (s : UserSpace D) (toIgnore : Option Nat) :
    Except Halt (Victim × UserSpace D) :=
  match rollUser s.userspcSize toIgnore s.dice with
  | none => .error (if s.otherFrame toIgnore then .stillSearching else .noVictim)
  | some (place, dice) =>
      .ok (⟨place, (s.usFt place).getDirty, s.ot place⟩, { s with dice := dice })

/-- The first part of `us_swap_out`: the page is written unless it is clean and has a
cluster already. Returns the cluster that holds it. -/
def usWriteBack (s : UserSpace D) (victim : Victim) : Except Halt (Nat × UserSpace D) :=
  if victim.cluster = nullCluster then
    match s.dvtAcquireCluster with
    | none => .error .diskFullUs
    | some (cn, s) => .ok (cn, s.diskPut cn (s.userspc victim.ordinal))
  else if victim.dirty then
    .ok (victim.cluster, s.diskPut victim.cluster (s.userspc victim.ordinal))
  else .ok (victim.cluster, s)

/-- What `us_swap_out` makes of the owner's entry. -/
def swappedOut (e : PageTableL2Entry) (cn : Nat) : PageTableL2Entry :=
  ((e.setBlockDisk cn).setValid false).setDirty false

variable [DecidableEq D]

def usSwapOut (s : UserSpace D) (victim : Victim) : Except Halt (UserSpace D) := do
  let ordinal := victim.ordinal
  let (cn, s) ← s.usWriteBack victim
  match (s.usFt ordinal).type with
  | .usUserPage =>
      match (s.usFt ordinal).owner with
      | none => .error .nullDereference
      | some pte =>
          let s := s.setPte pte (swappedOut (s.mem pte) cn)
          let s := { s with
            usFt := update s.usFt ordinal { s.usFt ordinal with type := .usUnused } }
          .ok (s.usFreePage ordinal)
  | _ => .error .usIncorrectType

/-- `us_acquire_page` up to `ul.unlock()`, the part that runs under `mutex_uslst`. -/
def usTakePage (s : UserSpace D) (toIgnore : Option Nat) : Except Halt (Nat × UserSpace D) :=
  match s.lstGetEmptyPage with
  | some (page, s) => .ok (page, s)
  | none => do
      let (victim, s) ← s.usGetVictim toIgnore
      let s ← s.usSwapOut victim
      match s.lstGetEmptyPage with
      | some (page, s) => .ok (page, s)
      | none => .error .usCouldNotAcquire

def usAcquirePage (s : UserSpace D) (newType : PageType) (newOwner : D)
    (toIgnore : Option Nat) : Except Halt (Nat × UserSpace D) := do
  let (page, s) ← s.usTakePage toIgnore
  .ok (page, s.usFtUpdate page FrameTableEntry.ftNone newType newOwner)

def usRequestPage (s : UserSpace D) (newType : PageType) (newOwner : D) (cluster : Nat)
    (cloneOverride : Bool) : Except Halt (Nat × UserSpace D) := do
  let (ordinal, s) ← s.usAcquirePage newType newOwner none
  let s :=
    if cluster = nullCluster then s.setOrigin ordinal nullCluster
    else (s.setOrigin ordinal cluster).diskGet cluster ordinal
  let s := if cloneOverride then s.setOrigin ordinal nullCluster else s
  .ok (ordinal, s)

def usLoadPage (s : UserSpace D) (newType : PageType) (newOwner : D) (content : Page) :
    Except Halt (Nat × UserSpace D) := do
  let (ordinal, s) ← s.usAcquirePage newType newOwner none
  .ok (ordinal, (s.setOrigin ordinal nullCluster).copyPage ordinal content)

def usClonePage (s : UserSpace D) (index : Nat) (ownerOfClone : D) :
    Except Halt (Nat × UserSpace D) := do
  let (ordinal, s) ← s.usAcquirePage .usUserPage ownerOfClone (some index)
  .ok (ordinal, (s.setOrigin ordinal nullCluster).copyPage ordinal (s.userspc index))

def usEvictPage (s : UserSpace D) (ordinal : Nat) (dirty : Bool) : Except Halt (UserSpace D) :=
  s.usSwapOut ⟨ordinal, dirty, s.ot ordinal⟩

omit [DecidableEq D] in
def usRelinquishPage (s : UserSpace D) (ordinal : Nat) : UserSpace D :=
  let s := if s.ot ordinal ≠ nullCluster then s.dvtMark (s.ot ordinal) true else s
  s.usFreePage ordinal

omit [DecidableEq D] in
def relinquishCluster (s : UserSpace D) (cluster : Nat) : Except Halt (UserSpace D) :=
  if cluster = nullCluster ∨ s.diskSize ≤ cluster then .error .invalidCluster
  else .ok (s.dvtMark cluster true)

/-- `page_fault` on a private page whose descriptor is in memory, at `pte`. -/
def faultPage (s : UserSpace D) (pte : D) : Except Halt (UserSpace D) :=
  if (s.mem pte).getTbc then do
    let (temp, s) ← s.usRequestPage .usUserPage pte nullCluster false
    let e := (s.mem pte).setBlockDisk temp
    .ok (s.setPte pte (((e.setValid true).setDirty false).setTbc false))
  else if !(s.mem pte).getValid then do
    let (temp, s) ← s.usRequestPage .usUserPage pte (s.mem pte).block false
    let e := (s.mem pte).setBlockDisk temp
    .ok (s.setPte pte ((e.setValid true).setDirty false))
  else .ok s

/-- One page of `create_segment`: only the flags are assigned. -/
def mapPage (s : UserSpace D) (pte : D) (accType : AccessType) : UserSpace D :=
  s.setPte pte
    ((s.mem pte).setFlags (PageTableL2Entry.packFlags accType false true true true false))

/-- One page of `load_segment`. -/
def loadPage (s : UserSpace D) (pte : D) (accType : AccessType) (content : Page) :
    Except Halt (UserSpace D) := do
  let (upg, s) ← s.usLoadPage .usUserPage pte content
  let e := (s.mem pte).setBlockDisk upg
  .ok (s.setPte pte (e.setFlags (PageTableL2Entry.packFlags accType true true true false false)))

/-- A new frame with the contents of the page that `src` describes, from the disk or
from its frame. -/
def copyOfPage (s : UserSpace D) (pte src : D) : Except Halt (Nat × UserSpace D) :=
  if !(s.mem src).getValid then s.usRequestPage .usUserPage pte (s.mem src).block true
  else s.usClonePage (s.mem src).block pte

/-- One page of `clone_segment_from` that has contents: the descriptor is copied over
and then given a frame of its own. -/
def clonePage (s : UserSpace D) (pte src : D) : Except Halt (UserSpace D) := do
  let (upg, s) ← (s.setPte pte (s.mem src)).copyOfPage pte src
  let e := (s.mem pte).setBlockDisk upg
  .ok (s.setPte pte ((e.setDirty true).setValid true))

/-- `access` for a WRITE that is granted: both dirty bits are set. -/
def markDirty (s : UserSpace D) (pte : D) : UserSpace D :=
  let e := s.mem pte
  let s := s.setPte pte (e.setDirty true)
  { s with usFt := update s.usFt e.block ((s.usFt e.block).setDirty true) }

omit [DecidableEq D] in
/-- A one-byte store by the process, through a translated address. -/
def storeByte (s : UserSpace D) (ordinal : Nat) (offset : Fin 1024) (value : BitVec 8) :
    UserSpace D :=
  s.copyPage ordinal ((s.userspc ordinal).store offset value)

omit [DecidableEq D] in
/-- What a private page holds goes back to the free frames and clusters. -/
def relinquishHeld (s : UserSpace D) (e : PageTableL2Entry) : Except Halt (UserSpace D) :=
  if e.getValid then .ok (s.usRelinquishPage e.block)
  else if e.getTbc then .ok s
  else s.relinquishCluster e.block

/-- `delete_segment_ind` on one private page. -/
def releasePage (s : UserSpace D) (pte : D) : Except Halt (UserSpace D) := do
  let s ← s.relinquishHeld (s.mem pte)
  .ok (s.setPte pte ((s.mem pte).setFlags 0#8))

end UserSpace

end VirtualMemory
