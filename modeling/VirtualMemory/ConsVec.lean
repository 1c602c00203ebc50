import VirtualMemory.HelperStructs

/-!
# The slot vector

`gen::ConsVec`, a vector whose empty slots form a chain through `next_empty`. Indices
outside the vector and empty slots are exceptions. The source keeps the links of the chain in
an `int`; here they are unbounded, which is the same up to `2 ^ 31` slots.
-/

namespace VirtualMemory

/-- `CV_Elem`, without its own index. A slot made by the empty constructor has no datum. -/
structure CVElem (T : Type) where
  data : Option T
  nextEmpty : Int
  deriving Repr

namespace CVElem

/-- `FILLED`. -/
def filled : Int := -2

/-- `EOL`. -/
def eol : Int := -1

def empty {T : Type} (e : CVElem T) : Bool := e.nextEmpty != filled

end CVElem

structure ConsVec (T : Type) where
  firstEmpty : Int
  elemVec : List (CVElem T)
  deriving Repr

namespace ConsVec

variable {T : Type}

/-- The constructor makes one empty slot; reserving capacity makes none. -/
def new : ConsVec T := ⟨0, [⟨none, CVElem.eol⟩]⟩

def size (v : ConsVec T) : Nat := v.elemVec.length

/-- Returns the index of the new datum. -/
def insert (v : ConsVec T) (data : T) : Nat × ConsVec T :=
  if v.firstEmpty = CVElem.eol then
    (v.size, { v with elemVec := v.elemVec ++ [⟨some data, CVElem.filled⟩] })
  else
    let index := v.firstEmpty.toNat
    let next := (v.elemVec.getD index ⟨none, CVElem.eol⟩).nextEmpty
    (index, ⟨next, v.elemVec.set index ⟨some data, CVElem.filled⟩⟩)

def atIndex (v : ConsVec T) (n : Nat) : Except Halt T :=
  match v.elemVec[n]? with
  | none => .error .outOfRange
  | some e =>
      if e.empty then .error .emptySlot
      else match e.data with
        | none => .error .uninitialised
        | some data => .ok data

/-- The assignment `v[n] = data`. -/
def assign (v : ConsVec T) (n : Nat) (data : T) : Except Halt (ConsVec T) :=
  match v.elemVec[n]? with
  | none => .error .outOfRange
  | some e =>
      if e.empty then .error .emptySlot
      else .ok { v with elemVec := v.elemVec.set n { e with data := some data } }

def markEmpty (v : ConsVec T) (n : Nat) : Except Halt (ConsVec T) :=
  match v.elemVec[n]? with
  | none => .error .outOfRange
  | some e =>
      if e.empty then .ok v
      else .ok ⟨n, v.elemVec.set n { e with nextEmpty := v.firstEmpty }⟩

end ConsVec

end VirtualMemory
