import Mathlib

/-!
# Packed entries, frame table entries and pages

Page table entries of both levels and segment table entries are packed to four
bytes, so a page of 1024 bytes is 256 cells and every cell can be read as any of
the three. A cell is stored in its `PageTableL2Entry` reading; `toL1` and `toSeg`
are the casts through which the kernel reads the same four bytes as another type.
Nothing here assumes that a cell is read as the type it was written as.
-/

namespace VirtualMemory

/-- `PAGE_SIZE`, in bytes. -/
def pageSize : Nat := 1024

/-- `DIV_CEIL`, for a positive `n`. -/
def divCeil (n divisor : Nat) : Nat := 1 + (n - 1) / divisor

/-- `KernelSystem::NULL_CLUSTER`. -/
def nullCluster : Nat := 0xFFFF

/-- `KernelSystem::MAX_CLUSTERS`. -/
def maxClusters : Nat := 0x10000 - 1

inductive Status where
  | ok
  | pageFault
  | trap
  deriving DecidableEq, Repr

inductive AccessType where
  | read
  | write
  | readWrite
  | execute
  deriving DecidableEq, Repr

/-- The two-bit code an access type is stored and compared with. -/
def AccessType.code : AccessType → Nat
  | .read => 0
  | .write => 1
  | .readWrite => 2
  | .execute => 3

/-- `BIT_GET`. -/
def bitGet (number : BitVec w) (bit : Nat) : Bool :=
  (number &&& (1#w <<< bit)) != 0#w

/-- `BIT_VAL`. -/
def bitVal (number : BitVec w) (bit : Nat) (value : Bool) : BitVec w :=
  (number &&& ~~~(1#w <<< bit)) ||| ((if value then 1#w else 0#w) <<< bit)

theorem bitGet_eq_getLsbD (number : BitVec w) {bit : Nat} (hbit : bit < w) :
    bitGet number bit = number.getLsbD bit := by
  rw [Bool.eq_iff_iff, bitGet, bne_iff_ne, ne_eq, BitVec.eq_of_getLsbD_eq_iff]
  constructor
  · intro h
    by_contra hfalse
    apply h
    intro i hi
    by_cases hib : i = bit
    · subst i
      simp [hfalse]
    · have : ¬ (i - bit = 0 ∧ bit ≤ i) := by omega
      simp only [BitVec.getLsbD_and, BitVec.getLsbD_shiftLeft, BitVec.getLsbD_one,
        BitVec.getLsbD_zero]
      by_cases hlt : i < bit
      · simp [hlt]
      · have hne : i - bit ≠ 0 := by omega
        simp [hne]
  · intro h hall
    have := hall bit hbit
    simp only [BitVec.getLsbD_and, BitVec.getLsbD_shiftLeft, BitVec.getLsbD_one,
      BitVec.getLsbD_zero, h] at this
    simp [hbit] at this
    omega

theorem bitGet_bitVal (number : BitVec w) {bit other : Nat} (value : Bool)
    (hbit : bit < w) (hother : other < w) :
    bitGet (bitVal number bit value) other =
      if other = bit then value else bitGet number other := by
  rw [bitGet_eq_getLsbD _ hother, bitGet_eq_getLsbD _ hother, bitVal]
  simp only [BitVec.getLsbD_or, BitVec.getLsbD_and, BitVec.getLsbD_not,
    BitVec.getLsbD_shiftLeft, BitVec.getLsbD_one]
  by_cases heq : other = bit
  · subst other
    have hpos : 0 < w := by omega
    cases value <;> simp [hbit, hpos]
  · have hpos : 0 < w := by omega
    rw [if_neg heq]
    by_cases hlt : other < bit
    · simp [hlt, hother]
    · have hne : other - bit ≠ 0 := by omega
      cases value <;> simp [hlt, hother, hne]

def lowByte (x : BitVec 16) : BitVec 8 := BitVec.ofNat 8 x.toNat

def highByte (x : BitVec 16) : BitVec 8 := BitVec.ofNat 8 (x.toNat / 256)

/-- The 16-bit field stored in two bytes, least significant byte first. -/
def twoBytes (low high : BitVec 8) : BitVec 16 :=
  BitVec.ofNat 16 (low.toNat + 256 * high.toNat)

@[simp] theorem twoBytes_low_high (x : BitVec 16) : twoBytes (lowByte x) (highByte x) = x := by
  apply BitVec.eq_of_toNat_eq
  have := x.isLt
  simp only [twoBytes, lowByte, highByte, BitVec.toNat_ofNat]
  omega

@[simp] theorem lowByte_twoBytes (low high : BitVec 8) : lowByte (twoBytes low high) = low := by
  apply BitVec.eq_of_toNat_eq
  have := low.isLt
  simp only [twoBytes, lowByte, BitVec.toNat_ofNat]
  omega

@[simp] theorem highByte_twoBytes (low high : BitVec 8) : highByte (twoBytes low high) = high := by
  apply BitVec.eq_of_toNat_eq
  have := low.isLt
  have := high.isLt
  simp only [twoBytes, highByte, BitVec.toNat_ofNat]
  omega

/-- A second level entry, and the raw form of every four-byte cell. -/
structure PageTableL2Entry where
  blockDisk : BitVec 16
  ssegInd : BitVec 8
  flags : BitVec 8
  deriving DecidableEq, Repr

/-- `PageTableL2Entry::FlagEnum`, without the two access bits. -/
inductive L2Flag where
  | valid
  | dirty
  | inSeg
  | tbc
  | shared
  | cow
  deriving DecidableEq, Repr

def L2Flag.bit : L2Flag → Nat
  | .valid => 7
  | .dirty => 6
  | .inSeg => 5
  | .tbc => 4
  | .shared => 3
  | .cow => 2

theorem L2Flag.bit_lt (flag : L2Flag) : flag.bit < 8 := by
  cases flag <;> decide

theorem L2Flag.bit_inj {flag other : L2Flag} : flag.bit = other.bit ↔ flag = other := by
  cases flag <;> cases other <;> decide

namespace PageTableL2Entry

/-- The flag getters are this read at the flag's own bit. -/
def get (e : PageTableL2Entry) (flag : L2Flag) : Bool := bitGet e.flags flag.bit

/-- The flag setters are this write at the flag's own bit. -/
def set (e : PageTableL2Entry) (flag : L2Flag) (val : Bool) : PageTableL2Entry :=
  { e with flags := bitVal e.flags flag.bit val }

abbrev getValid (e : PageTableL2Entry) : Bool := e.get .valid
abbrev setValid (e : PageTableL2Entry) (val : Bool) : PageTableL2Entry := e.set .valid val
abbrev getDirty (e : PageTableL2Entry) : Bool := e.get .dirty
abbrev setDirty (e : PageTableL2Entry) (val : Bool) : PageTableL2Entry := e.set .dirty val
abbrev getInseg (e : PageTableL2Entry) : Bool := e.get .inSeg
abbrev getTbc (e : PageTableL2Entry) : Bool := e.get .tbc
abbrev setTbc (e : PageTableL2Entry) (val : Bool) : PageTableL2Entry := e.set .tbc val
abbrev getShared (e : PageTableL2Entry) : Bool := e.get .shared

/-- `get_access`, as the two-bit code. -/
def getAccess (e : PageTableL2Entry) : Nat := e.flags.toNat % 4

theorem getAccess_set (e : PageTableL2Entry) (flag : L2Flag) (val : Bool) :
    (e.set flag val).getAccess = e.getAccess := by
  have hlow : (bitVal e.flags flag.bit val).setWidth 2 = e.flags.setWidth 2 := by
    apply BitVec.eq_of_getLsbD_eq
    intro i hi
    have hne : i ≠ flag.bit := by
      cases flag <;> simp only [L2Flag.bit] <;> omega
    have hread : bitGet (bitVal e.flags flag.bit val) i =
        if i = flag.bit then val else bitGet e.flags i :=
      bitGet_bitVal e.flags val flag.bit_lt (by omega)
    rw [bitGet_eq_getLsbD _ (by omega), bitGet_eq_getLsbD _ (by omega), if_neg hne] at hread
    simp [hi, hread]
  have := congrArg BitVec.toNat hlow
  simpa [getAccess, set] using this

/-- The assignment `block_disk = (Uint16)value`. -/
def setBlockDisk (e : PageTableL2Entry) (value : Nat) : PageTableL2Entry :=
  { e with blockDisk := BitVec.ofNat 16 value }

/-- `block_disk` promoted to an unsigned integer. -/
def block (e : PageTableL2Entry) : Nat := e.blockDisk.toNat

theorem block_lt (e : PageTableL2Entry) : e.block < 65536 := e.blockDisk.isLt

@[simp] theorem get_set (e : PageTableL2Entry) (flag other : L2Flag) (val : Bool) :
    (e.set flag val).get other = if other = flag then val else e.get other := by
  simp only [get, set, bitGet_bitVal _ _ flag.bit_lt other.bit_lt, L2Flag.bit_inj]

@[simp] theorem get_setBlockDisk (e : PageTableL2Entry) (value : Nat) (flag : L2Flag) :
    (e.setBlockDisk value).get flag = e.get flag := rfl

@[simp] theorem block_setBlockDisk (e : PageTableL2Entry) (value : Nat) :
    (e.setBlockDisk value).block = value % 65536 := by
  simp [block, setBlockDisk]

@[simp] theorem block_set (e : PageTableL2Entry) (flag : L2Flag) (val : Bool) :
    (e.set flag val).block = e.block := rfl

@[simp] theorem ssegInd_set (e : PageTableL2Entry) (flag : L2Flag) (val : Bool) :
    (e.set flag val).ssegInd = e.ssegInd := rfl

@[simp] theorem ssegInd_setBlockDisk (e : PageTableL2Entry) (value : Nat) :
    (e.setBlockDisk value).ssegInd = e.ssegInd := rfl

@[simp] theorem flags_setBlockDisk (e : PageTableL2Entry) (value : Nat) :
    (e.setBlockDisk value).flags = e.flags := rfl

/-- The flag byte that the segment creating calls assemble in place. -/
def packFlags (access : AccessType) (valid dirty inSeg tbc shared : Bool) : BitVec 8 :=
  BitVec.ofNat 8 access.code ||| bitVal 0#8 7 valid ||| bitVal 0#8 6 dirty |||
    bitVal 0#8 5 inSeg ||| bitVal 0#8 4 tbc ||| bitVal 0#8 3 shared

/-- The assignment of an assembled flag byte. -/
def setFlags (e : PageTableL2Entry) (flags : BitVec 8) : PageTableL2Entry :=
  { e with flags := flags }

@[simp] theorem block_setFlags (e : PageTableL2Entry) (flags : BitVec 8) :
    (e.setFlags flags).block = e.block := rfl

@[simp] theorem ssegInd_setFlags (e : PageTableL2Entry) (flags : BitVec 8) :
    (e.setFlags flags).ssegInd = e.ssegInd := rfl

@[simp] theorem flags_setFlags (e : PageTableL2Entry) (flags : BitVec 8) :
    (e.setFlags flags).flags = flags := rfl

theorem get_setFlags_pack (e : PageTableL2Entry) (access : AccessType)
    (valid dirty inSeg tbc shared : Bool) (flag : L2Flag) :
    (e.setFlags (packFlags access valid dirty inSeg tbc shared)).get flag =
      match flag with
      | .valid => valid
      | .dirty => dirty
      | .inSeg => inSeg
      | .tbc => tbc
      | .shared => shared
      | .cow => false := by
  simp only [get, setFlags]
  cases access <;> cases valid <;> cases dirty <;> cases inSeg <;> cases tbc <;>
    cases shared <;> cases flag <;> decide

theorem getAccess_pack (e : PageTableL2Entry) (access : AccessType)
    (valid dirty inSeg tbc shared : Bool) :
    (e.setFlags (packFlags access valid dirty inSeg tbc shared)).getAccess = access.code := by
  simp only [getAccess, setFlags]
  cases access <;> cases valid <;> cases dirty <;> cases inSeg <;> cases tbc <;>
    cases shared <;> decide

@[simp] theorem get_setFlags_zero (e : PageTableL2Entry) (flag : L2Flag) :
    (e.setFlags 0#8).get flag = false := by
  simp only [get, setFlags]
  cases flag <;> decide

end PageTableL2Entry

/-- Four bytes of a page, in their level two reading. -/
abbrev Cell := PageTableL2Entry

structure PageTableL1Entry where
  status : BitVec 8
  unused : BitVec 8
  blockDisk : BitVec 16
  deriving DecidableEq, Repr

namespace PageTableL1Entry

/-- `PageTableL1Entry::StatusEnum`. -/
def statusUnused : BitVec 8 := 0#8
def statusPagedOut : BitVec 8 := 1#8
def statusPresent : BitVec 8 := 2#8

/-- `block_disk` promoted to an unsigned integer. -/
def block (e : PageTableL1Entry) : Nat := e.blockDisk.toNat

/-- The bytes of a level one entry, read as a level two entry. -/
def toCell (e : PageTableL1Entry) : Cell where
  blockDisk := twoBytes e.status e.unused
  ssegInd := lowByte e.blockDisk
  flags := highByte e.blockDisk

end PageTableL1Entry

/-- `reinterpret_cast<PageTableL1Entry*>` on one cell. -/
def PageTableL2Entry.toL1 (c : Cell) : PageTableL1Entry where
  status := lowByte c.blockDisk
  unused := highByte c.blockDisk
  blockDisk := twoBytes c.ssegInd c.flags

@[simp] theorem PageTableL1Entry.toL1_toCell (e : PageTableL1Entry) : e.toCell.toL1 = e := by
  simp [PageTableL1Entry.toCell, PageTableL2Entry.toL1]

/-- `SegTableEntry::KindEnum`; `invalid` is the bit pattern no enumerator has. -/
inductive KindEnum where
  | occupied
  | free
  | occShared
  | invalid
  deriving DecidableEq, Repr

namespace KindEnum

def bits : KindEnum → Nat
  | .occupied => 0
  | .free => 1
  | .occShared => 2
  | .invalid => 3

def ofBits : Nat → KindEnum
  | 0 => .occupied
  | 1 => .free
  | 2 => .occShared
  | _ => .invalid

@[simp] theorem ofBits_bits (kind : KindEnum) : ofBits kind.bits = kind := by
  cases kind <;> rfl

theorem bits_lt (kind : KindEnum) : kind.bits < 4 := by
  cases kind <;> decide

end KindEnum

structure SegTableEntry where
  lenKind : BitVec 16
  startPage : BitVec 16
  deriving DecidableEq, Repr

namespace SegTableEntry

def getKind (e : SegTableEntry) : KindEnum := KindEnum.ofBits (e.lenKind.toNat % 4)

def getLength (e : SegTableEntry) : Nat := e.lenKind.toNat / 4

/-- Both statements of the source: the two low bits are cleared, then or-ed. -/
def setKind (e : SegTableEntry) (kind : KindEnum) : SegTableEntry :=
  { e with lenKind := BitVec.ofNat 16 (e.lenKind.toNat / 4 * 4 + kind.bits) }

/-- The 16-bit shift drops the two high bits of the length. -/
def setLength (e : SegTableEntry) (length : Nat) : SegTableEntry :=
  { e with lenKind := BitVec.ofNat 16 (length % 65536 * 4 % 65536 + e.lenKind.toNat % 4) }

def setStartPage (e : SegTableEntry) (page : Nat) : SegTableEntry :=
  { e with startPage := BitVec.ofNat 16 page }

/-- `start_page` promoted to an unsigned integer. -/
def start (e : SegTableEntry) : Nat := e.startPage.toNat

@[simp] theorem getKind_setKind (e : SegTableEntry) (kind : KindEnum) :
    (e.setKind kind).getKind = kind := by
  have hb := kind.bits_lt
  have hl := e.lenKind.isLt
  have : (e.lenKind.toNat / 4 * 4 + kind.bits) % 65536 % 4 = kind.bits := by omega
  simp [getKind, setKind, this]

@[simp] theorem getLength_setKind (e : SegTableEntry) (kind : KindEnum) :
    (e.setKind kind).getLength = e.getLength := by
  have hb := kind.bits_lt
  have hl := e.lenKind.isLt
  simp only [getLength, setKind, BitVec.toNat_ofNat]
  omega

@[simp] theorem getKind_setLength (e : SegTableEntry) (length : Nat) :
    (e.setLength length).getKind = e.getKind := by
  simp [getKind, setLength]

/-- A length survives the packing exactly up to its fourteen low bits. -/
@[simp] theorem getLength_setLength (e : SegTableEntry) (length : Nat) :
    (e.setLength length).getLength = length % 16384 := by
  simp only [getLength, setLength, BitVec.toNat_ofNat]
  omega

@[simp] theorem start_setKind (e : SegTableEntry) (kind : KindEnum) :
    (e.setKind kind).start = e.start := rfl

@[simp] theorem start_setLength (e : SegTableEntry) (length : Nat) :
    (e.setLength length).start = e.start := rfl

@[simp] theorem start_setStartPage (e : SegTableEntry) (page : Nat) :
    (e.setStartPage page).start = page % 65536 := by
  simp [start, setStartPage]

@[simp] theorem getKind_setStartPage (e : SegTableEntry) (page : Nat) :
    (e.setStartPage page).getKind = e.getKind := rfl

@[simp] theorem getLength_setStartPage (e : SegTableEntry) (page : Nat) :
    (e.setStartPage page).getLength = e.getLength := rfl

/-- The bytes of a segment entry, read as a level two entry. -/
def toCell (e : SegTableEntry) : Cell where
  blockDisk := e.lenKind
  ssegInd := lowByte e.startPage
  flags := highByte e.startPage

end SegTableEntry

/-- `reinterpret_cast<SegTableEntry*>` on one cell. -/
def PageTableL2Entry.toSeg (c : Cell) : SegTableEntry where
  lenKind := c.blockDisk
  startPage := twoBytes c.ssegInd c.flags

@[simp] theorem SegTableEntry.toSeg_toCell (e : SegTableEntry) : e.toCell.toSeg = e := by
  simp [SegTableEntry.toCell, PageTableL2Entry.toSeg]

/-- A page of 1024 bytes, as 256 cells. -/
abbrev Page := Fin 256 → Cell

/-- Write one of the four bytes of a cell. -/
def PageTableL2Entry.setByte (c : Cell) (byte : Fin 4) (value : BitVec 8) : Cell :=
  match byte with
  | 0 => { c with blockDisk := twoBytes value (highByte c.blockDisk) }
  | 1 => { c with blockDisk := twoBytes (lowByte c.blockDisk) value }
  | 2 => { c with ssegInd := value }
  | 3 => { c with flags := value }

/-- One of the four bytes of a cell. -/
def PageTableL2Entry.getByte (c : Cell) (byte : Fin 4) : BitVec 8 :=
  match byte with
  | 0 => lowByte c.blockDisk
  | 1 => highByte c.blockDisk
  | 2 => c.ssegInd
  | 3 => c.flags

/-- The byte at an offset into a page. -/
def Page.byte (page : Page) (offset : Fin 1024) : BitVec 8 :=
  (page ⟨offset / 4, by omega⟩).getByte ⟨offset % 4, by omega⟩

/-- A one-byte store at an offset into a page. -/
def Page.store (page : Page) (offset : Fin 1024) (value : BitVec 8) : Page :=
  Function.update page ⟨offset / 4, by omega⟩
    ((page ⟨offset / 4, by omega⟩).setByte ⟨offset % 4, by omega⟩ value)

private theorem getByte_setByte (c : Cell) (byte other : Fin 4) (value : BitVec 8) :
    (c.setByte byte value).getByte other = if other = byte then value else c.getByte other := by
  fin_cases byte <;> fin_cases other <;>
    simp [PageTableL2Entry.setByte, PageTableL2Entry.getByte]

/-- A store changes the byte it names and no other. -/
theorem Page.byte_store (page : Page) (offset other : Fin 1024) (value : BitVec 8) :
    (page.store offset value).byte other = if other = offset then value else page.byte other := by
  by_cases hcell : (⟨other / 4, by omega⟩ : Fin 256) = ⟨offset / 4, by omega⟩
  · have hdiv : other.val / 4 = offset.val / 4 := congrArg Fin.val hcell
    have hsame : (⟨other % 4, by omega⟩ : Fin 4) = ⟨offset % 4, by omega⟩ ↔ other = offset := by
      rw [Fin.mk.injEq, Fin.ext_iff]
      omega
    simp only [Page.byte, Page.store, hcell, Function.update_self, getByte_setByte, hsame]
  · have hne : other ≠ offset := fun h => hcell (by rw [h])
    simp only [Page.byte, Page.store, Function.update_of_ne hcell, if_neg hne]

/-- `PageType::TypeEnum`. -/
inductive PageType where
  | usUnused
  | usUserPage
  | usReserved
  | ksUnused
  | ksSegTable
  | ksPageTable
  | ksReserved
  deriving DecidableEq, Repr

/-- A frame table entry whose owner pointer leads to an `Owner`; null is `none`. -/
structure FrameTableEntry (Owner : Type) where
  flags : BitVec 8
  type : PageType
  owner : Option Owner

namespace FrameTableEntry

variable {Owner : Type}

/-- The constructor zeroes the flags, the type and the owner. -/
def empty : FrameTableEntry Owner := ⟨0#8, .usUnused, none⟩

def getDirty (e : FrameTableEntry Owner) : Bool := bitGet e.flags 7

def setDirty (e : FrameTableEntry Owner) (val : Bool) : FrameTableEntry Owner :=
  { e with flags := bitVal e.flags 7 val }

def getLocked (e : FrameTableEntry Owner) : Bool := bitGet e.flags 5

def setLocked (e : FrameTableEntry Owner) (val : Bool) : FrameTableEntry Owner :=
  { e with flags := bitVal e.flags 5 val }

/-- `FT_NONE`. -/
def ftNone : BitVec 8 := 0#8

/-- `FT_LOCKED`. -/
def ftLocked : BitVec 8 := 32#8

@[simp] theorem getDirty_setDirty (e : FrameTableEntry Owner) (val : Bool) :
    (e.setDirty val).getDirty = val := by
  simp [getDirty, setDirty, bitGet_bitVal]

@[simp] theorem getLocked_setLocked (e : FrameTableEntry Owner) (val : Bool) :
    (e.setLocked val).getLocked = val := by
  simp [getLocked, setLocked, bitGet_bitVal]

@[simp] theorem getLocked_mk_none (type : PageType) (owner : Option Owner) :
    (FrameTableEntry.mk ftNone type owner).getLocked = false := by
  simp only [getLocked]; decide

@[simp] theorem getLocked_mk_locked (type : PageType) (owner : Option Owner) :
    (FrameTableEntry.mk ftLocked type owner).getLocked = true := by
  simp only [getLocked]; decide

@[simp] theorem getDirty_mk_none (type : PageType) (owner : Option Owner) :
    (FrameTableEntry.mk ftNone type owner).getDirty = false := by
  simp only [getDirty]; decide

@[simp] theorem type_setDirty (e : FrameTableEntry Owner) (val : Bool) :
    (e.setDirty val).type = e.type := rfl

@[simp] theorem owner_setDirty (e : FrameTableEntry Owner) (val : Bool) :
    (e.setDirty val).owner = e.owner := rfl

@[simp] theorem type_setLocked (e : FrameTableEntry Owner) (val : Bool) :
    (e.setLocked val).type = e.type := rfl

@[simp] theorem owner_setLocked (e : FrameTableEntry Owner) (val : Bool) :
    (e.setLocked val).owner = e.owner := rfl

end FrameTableEntry

/-- `Victim`. -/
structure Victim where
  ordinal : Nat
  dirty : Bool
  cluster : Nat

/-- The `HALT`s the modelled functions can reach, with null dereferences, reads of
uninitialised locals, exceptions of the slot vectors, and searches that have not
ended on the rolls a run provides. -/
inductive Halt where
  | diskFullUs
  | diskFullKs
  | diskFullEvict
  | usIncorrectType
  | ksIncorrectType
  | usCouldNotAcquire
  | ksCouldNotAcquire
  | invalidCluster
  | masterTableError
  | accessedUnusedPageTable
  | couldNotFetchDescriptor
  | unusedPageTable
  | notInSegment
  | cloneUnusedPageTable
  | noMatchFound
  | needsMorePages
  | nullDereference
  | uninitialised
  | outOfRange
  | emptySlot
  | stackOverflow
  | stillSearching
  | noVictim
  deriving DecidableEq, Repr

/-- The disk has no free cluster left. -/
def Halt.isDiskFull : Halt → Bool
  | .diskFullUs | .diskFullKs | .diskFullEvict => true
  | _ => false

end VirtualMemory
