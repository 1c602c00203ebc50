import VirtualMemory.ConsVec
import VirtualMemory.Library.LinkChain
import VirtualMemory.Library.Run

/-!
# The slot vector is a slot map

The empty slots of a `ConsVec` form a chain through their links, each of them once. An
`insert` takes the first slot of the chain, or makes a new one where the chain is empty, and
`mark_empty` puts a slot in front; what is in the other slots stays.
-/

namespace VirtualMemory

open Function

namespace ConsVec

variable {T : Type}

/-- The constructor with a capacity: it delegates to the other one and reserves memory. -/
def ofCapacity (_n : Nat) : ConsVec T := new

/-- The datum of a slot that is not empty. -/
def datum (v : ConsVec T) (n : Nat) : Option T :=
  (v.elemVec[n]?).bind fun e => if e.empty then none else e.data

def nextEmpty (v : ConsVec T) (n : Nat) : Int :=
  ((v.elemVec[n]?).getD ⟨none, CVElem.eol⟩).nextEmpty

/-- The chain from `first_empty` visits the empty slots, and the other ones have a datum. -/
structure Slots (v : ConsVec T) (free : List Nat) : Prop where
  chain : LinkChain (fun n : Nat => (n : Int)) CVElem.eol v.nextEmpty v.firstEmpty free
  nodup : free.Nodup
  mem_free : ∀ n, n ∈ free ↔ n < v.size ∧ v.datum n = none
  filled : ∀ (n : Nat) (e : CVElem T), v.elemVec[n]? = some e → e.empty = false → e.data ≠ none

variable {v v' : ConsVec T} {free : List Nat} {n : Nat} {data : T} {e : CVElem T}

theorem index_ne_eol (n : Nat) : (n : Int) ≠ CVElem.eol := by
  unfold CVElem.eol
  omega

theorem getElem?_of_lt (hn : n < v.size) : ∃ e, v.elemVec[n]? = some e :=
  ⟨_, List.getElem?_eq_getElem hn⟩

theorem lt_of_getElem? (he : v.elemVec[n]? = some e) : n < v.size :=
  (List.getElem?_eq_some_iff.mp he).1

theorem datum_of_le (hn : v.size ≤ n) : v.datum n = none := by
  rw [datum, List.getElem?_eq_none hn, Option.bind_none]

theorem slots_new : Slots (new : ConsVec T) [0] := by
  refine ⟨⟨rfl, rfl⟩, List.nodup_singleton 0, fun n => ?_, fun n e he hfull => ?_⟩
  · cases n with
    | zero => exact iff_of_true (List.mem_singleton_self 0) ⟨Nat.one_pos, rfl⟩
    | succ n => simp [size, new]
  · cases n with
    | zero =>
        cases he
        cases hfull
    | succ n => cases he

namespace Slots

/-- A slot is empty just when it has no datum. -/
theorem empty_iff (hv : Slots v free) (he : v.elemVec[n]? = some e) :
    e.empty = true ↔ v.datum n = none := by
  rw [datum, he, Option.bind_some]
  cases hempty : e.empty with
  | true => simp
  | false => simpa using hv.filled n e he hempty

theorem atIndex_eq (hv : Slots v free) (n : Nat) :
    v.atIndex n = if v.size ≤ n then .error .outOfRange
      else (v.datum n).elim (.error .emptySlot) .ok := by
  by_cases hn : v.size ≤ n
  · rw [if_pos hn, atIndex, List.getElem?_eq_none hn]
  · obtain ⟨e, he⟩ := getElem?_of_lt (Nat.not_le.mp hn)
    rw [if_neg hn, atIndex, datum, he, Option.bind_some]
    cases hempty : e.empty with
    | true => simp [hempty]
    | false =>
        cases hdata : e.data with
        | none => exact absurd hdata (hv.filled n e he hempty)
        | some data => simp [hempty, hdata]

theorem atIndex_ok (hv : Slots v free) : v.atIndex n = .ok data ↔ v.datum n = some data := by
  rw [hv.atIndex_eq]
  split
  · rename_i hn
    simp [datum_of_le hn]
  · cases v.datum n <;> simp

theorem datum_set {e : CVElem T} (hn : n < v.size) (hfull : e.empty = false) (first : Int) :
    (⟨first, v.elemVec.set n e⟩ : ConsVec T).datum = update v.datum n e.data := by
  funext i
  by_cases hi : i = n
  · subst i
    simp [datum, List.getElem?_set_self hn, hfull]
  · simp [datum, List.getElem?_set_ne (Ne.symm hi), update_of_ne hi]

theorem datum_set_empty {e' : CVElem T} (hempty : e'.empty = true) (first : Int) :
    (⟨first, v.elemVec.set n e'⟩ : ConsVec T).datum = update v.datum n none := by
  funext i
  by_cases hi : i = n
  · subst i
    rw [update_self, datum, List.getElem?_set_self']
    cases v.elemVec[n]? with
    | none => simp
    | some e => simp [hempty]
  · simp [datum, List.getElem?_set_ne (Ne.symm hi), update_of_ne hi]

theorem nextEmpty_set {e' : CVElem T} (hn : n < v.size) (first : Int) :
    (⟨first, v.elemVec.set n e'⟩ : ConsVec T).nextEmpty =
      update v.nextEmpty n e'.nextEmpty := by
  funext i
  by_cases hi : i = n
  · subst i
    simp [nextEmpty, List.getElem?_set_self hn]
  · simp [nextEmpty, List.getElem?_set_ne (Ne.symm hi), update_of_ne hi]

theorem size_set (first : Int) (e' : CVElem T) :
    (⟨first, v.elemVec.set n e'⟩ : ConsVec T).size = v.size := List.length_set

theorem filled_set (hv : Slots v free) {e' : CVElem T} (first : Int)
    (hdata : e'.empty = false → e'.data ≠ none) (i : Nat) (e : CVElem T)
    (he : (⟨first, v.elemVec.set n e'⟩ : ConsVec T).elemVec[i]? = some e)
    (hfull : e.empty = false) : e.data ≠ none := by
  by_cases hi : i = n
  · subst i
    have hlt : n < v.size := by simpa [size] using lt_of_getElem? he
    rw [List.getElem?_set_self hlt] at he
    cases he
    exact hdata hfull
  · rw [List.getElem?_set_ne (Ne.symm hi)] at he
    exact hv.filled i e he hfull

/-- With no empty slot, `insert` makes one. -/
theorem insert_nil (hv : Slots v []) (data : T) :
    (v.insert data).1 = v.size ∧ Slots (v.insert data).2 [] ∧
      (v.insert data).2.size = v.size + 1 ∧
      (v.insert data).2.datum = update v.datum v.size (some data) := by
  have hfirst : v.firstEmpty = CVElem.eol := hv.chain
  have hinsert : v.insert data =
      (v.size, { v with elemVec := v.elemVec ++ [⟨some data, CVElem.filled⟩] }) := by
    rw [insert, if_pos hfirst]
  have hdatum : ({ v with elemVec := v.elemVec ++ [⟨some data, CVElem.filled⟩] } :
      ConsVec T).datum = update v.datum v.size (some data) := by
    funext i
    obtain hi | rfl | hi := Nat.lt_trichotomy i v.size
    · simp [datum, List.getElem?_append_left hi, update_of_ne (Nat.ne_of_lt hi)]
    · simp [datum, size, CVElem.empty]
    · rw [update_of_ne (Nat.ne_of_gt hi), datum_of_le (Nat.le_of_lt hi)]
      exact datum_of_le (by simpa [size] using hi)
  rw [hinsert]
  refine ⟨rfl, ⟨hfirst, List.nodup_nil, fun i => ?_, fun i e he hfull => ?_⟩, by simp [size],
    hdatum⟩
  · refine iff_of_false List.not_mem_nil ?_
    rintro ⟨hi, hnone⟩
    rw [hdatum] at hnone
    by_cases hlast : i = v.size
    · simp [hlast] at hnone
    · rw [update_of_ne hlast] at hnone
      have hlt : i < v.size := by simp [size] at hi hlast ⊢; omega
      exact absurd ((hv.mem_free i).mpr ⟨hlt, hnone⟩) List.not_mem_nil
  · by_cases hi : i < v.size
    · exact hv.filled i e (by rwa [List.getElem?_append_left hi] at he) hfull
    · rw [List.getElem?_append_right (Nat.not_lt.mp hi)] at he
      rw [List.mem_singleton.mp (List.mem_of_getElem? he)]
      exact Option.some_ne_none data

/-- With an empty slot, `insert` takes the first one of the chain. -/
theorem insert_cons {first : Nat} {rest : List Nat} (hv : Slots v (first :: rest)) (data : T) :
    (v.insert data).1 = first ∧ Slots (v.insert data).2 rest ∧
      (v.insert data).2.size = v.size ∧
      (v.insert data).2.datum = update v.datum first (some data) := by
  obtain ⟨hfirst, hchain⟩ := hv.chain
  have hinsert : v.insert data = (first, ⟨v.nextEmpty first,
      v.elemVec.set first ⟨some data, CVElem.filled⟩⟩) := by
    rw [insert, if_neg (hfirst ▸ index_ne_eol first), hfirst]
    simp [nextEmpty, List.getD_eq_getElem?_getD]
  have hlt : first < v.size := ((hv.mem_free first).mp List.mem_cons_self).1
  have hnodup := List.nodup_cons.mp hv.nodup
  have hdatum := datum_set (e := ⟨some data, CVElem.filled⟩) hlt rfl (v.nextEmpty first)
  rw [hinsert]
  refine ⟨rfl, ⟨?_, hnodup.2, fun i => ?_, ?_⟩, size_set .., hdatum⟩
  · rw [nextEmpty_set hlt]
    exact hchain.congr fun i hi => update_of_ne (ne_of_mem_of_not_mem hi hnodup.1) _ _
  · rw [size_set, hdatum]
    by_cases hi : i = first
    · subst i
      exact iff_of_false hnodup.1 (by simp)
    · rw [update_of_ne hi, ← hv.mem_free i, List.mem_cons, or_iff_right hi]
  · exact hv.filled_set _ fun _ => Option.some_ne_none data

/-- Wherever a datum is put, there was none. -/
theorem insert_fresh (hv : Slots v free) (data : T) :
    v.datum (v.insert data).1 = none ∧ (∃ free', Slots (v.insert data).2 free') ∧
      (v.insert data).2.datum = update v.datum (v.insert data).1 (some data) := by
  cases free with
  | nil =>
      obtain ⟨hindex, hv', _, hdatum⟩ := hv.insert_nil data
      rw [hindex]
      exact ⟨datum_of_le (Nat.le_refl _), ⟨[], hv'⟩, hdatum⟩
  | cons first rest =>
      obtain ⟨hindex, hv', _, hdatum⟩ := hv.insert_cons data
      rw [hindex]
      exact ⟨((hv.mem_free first).mp List.mem_cons_self).2, ⟨rest, hv'⟩, hdatum⟩

/-- A slot with a datum becomes the first one of the chain. -/
theorem markEmpty_filled (hv : Slots v free) (hdata : v.datum n ≠ none) :
    ∃ v', v.markEmpty n = .ok v' ∧ Slots v' (n :: free) ∧ v'.size = v.size ∧
      v'.datum = update v.datum n none := by
  have hlt : n < v.size := Nat.lt_of_not_le fun hle => hdata (datum_of_le hle)
  obtain ⟨e, he⟩ := getElem?_of_lt hlt
  have hfull : e.empty ≠ true := fun hempty => hdata ((hv.empty_iff he).mp hempty)
  have hfree : n ∉ free := fun hmem => hdata ((hv.mem_free n).mp hmem).2
  have hempty : ({ e with nextEmpty := v.firstEmpty } : CVElem T).empty = true := by
    have hfirst : v.firstEmpty ≠ CVElem.filled := by
      cases free with
      | nil =>
          rw [show v.firstEmpty = CVElem.eol from hv.chain]
          decide
      | cons first rest =>
          rw [show v.firstEmpty = (first : Int) from hv.chain.1, CVElem.filled]
          omega
    simpa [CVElem.empty] using hfirst
  have hdatum := datum_set_empty (v := v) (n := n) hempty n
  refine ⟨⟨n, v.elemVec.set n { e with nextEmpty := v.firstEmpty }⟩, ?_, ⟨?_, ?_, fun i => ?_, ?_⟩,
    size_set .., hdatum⟩
  · simp only [markEmpty, he, if_neg hfull]
  · rw [nextEmpty_set hlt]
    exact hv.chain.push hfree
  · exact List.nodup_cons.mpr ⟨hfree, hv.nodup⟩
  · rw [size_set, hdatum]
    by_cases hi : i = n
    · subst i
      exact iff_of_true List.mem_cons_self ⟨hlt, update_self ..⟩
    · rw [update_of_ne hi, ← hv.mem_free i, List.mem_cons, or_iff_right hi]
  · refine hv.filled_set _ fun hfalse => ?_
    rw [hempty] at hfalse
    cases hfalse

/-- An empty slot stays as it is. -/
theorem markEmpty_empty (hv : Slots v free) (hn : n < v.size) (hdata : v.datum n = none) :
    v.markEmpty n = .ok v := by
  obtain ⟨e, he⟩ := getElem?_of_lt hn
  simp only [markEmpty, he, if_pos ((hv.empty_iff he).mpr hdata)]

theorem markEmpty_past (v : ConsVec T) (hn : v.size ≤ n) : v.markEmpty n = .error .outOfRange := by
  rw [markEmpty, List.getElem?_eq_none hn]

/-- The datum of a slot is replaced. -/
theorem assign_filled (hv : Slots v free) (hold : v.datum n ≠ none) (data : T) :
    ∃ v', v.assign n data = .ok v' ∧ Slots v' free ∧ v'.size = v.size ∧
      v'.datum = update v.datum n (some data) := by
  have hlt : n < v.size := Nat.lt_of_not_le fun hle => hold (datum_of_le hle)
  obtain ⟨e, he⟩ := getElem?_of_lt hlt
  have hfull : e.empty ≠ true := fun hempty => hold ((hv.empty_iff he).mp hempty)
  have hset : ({ e with data := some data } : CVElem T).empty = false :=
    Bool.eq_false_of_not_eq_true hfull
  have hdatum := datum_set hlt hset v.firstEmpty
  refine ⟨{ v with elemVec := v.elemVec.set n { e with data := some data } }, ?_,
    ⟨?_, hv.nodup, fun i => ?_, ?_⟩, size_set .., hdatum⟩
  · simp only [assign, he, if_neg hfull]
  · rw [nextEmpty_set hlt]
    refine hv.chain.congr fun i hi => ?_
    have hne : i ≠ n := fun heq => hold (heq ▸ ((hv.mem_free i).mp hi).2)
    exact update_of_ne hne _ _
  · rw [size_set, hdatum, hv.mem_free]
    by_cases hi : i = n
    · subst i
      simp [hold]
    · rw [update_of_ne hi]
  · exact hv.filled_set _ fun _ => Option.some_ne_none data

end Slots

inductive Call (T : Type) where
  | insert (data : T)
  | markEmpty (n : Nat)
  | atIndex (n : Nat)

/-- What a call comes back with, an exception included. -/
inductive Response (T : Type) where
  | index (n : Nat)
  | done
  | datum (data : T)
  | threw (halt : Halt)

/-- A call on the vector, which an exception leaves as it was. -/
def call (v : ConsVec T) : Call T → Response T × ConsVec T
  | .insert data => (.index (v.insert data).1, (v.insert data).2)
  | .markEmpty n =>
      match v.markEmpty n with
      | .error halt => (.threw halt, v)
      | .ok v' => (.done, v')
  | .atIndex n =>
      match v.atIndex n with
      | .error halt => (.threw halt, v)
      | .ok data => (.datum data, v)

/-- A step of a run is labelled with the call and its response. -/
def Step (v : ConsVec T) (a : Call T × Response T) (v' : ConsVec T) : Prop :=
  v.call a.1 = (a.2, v')

/-- What a call and its response say of the data. -/
def record (data : Nat → Option T) : Call T × Response T → Nat → Option T
  | (.insert d, .index n) => update data n (some d)
  | (.markEmpty n, _) => update data n none
  | _ => data

/-- The datum of the latest `insert` that returned an index, unless the index was marked empty
after it. -/
def latest (history : List (Call T × Response T)) : Nat → Option T :=
  history.foldl record fun _ => none

/-- The vector is a map from live indices to data: what `at` gives and throws, where `insert`
puts a datum, and which slots the chain from `first_empty` visits. -/
structure IsSlotMap (v : ConsVec T) (data : Nat → Option T) : Prop where
  read : ∀ n, v.atIndex n = if v.size ≤ n then .error .outOfRange
    else (data n).elim (.error .emptySlot) .ok
  fresh : ∀ d, data (v.insert d).1 = none
  reuse : ∀ d, (∃ n, n < v.size ∧ data n = none) →
    (v.insert d).1 < v.size ∧ (v.insert d).2.size = v.size
  grow : ∀ d, (∀ n, n < v.size → data n ≠ none) →
    (v.insert d).1 = v.size ∧ (v.insert d).2.size = v.size + 1
  chain : ∃ free, LinkChain (fun n : Nat => (n : Int)) CVElem.eol v.nextEmpty v.firstEmpty free ∧
    free.Nodup ∧ ∀ n, n ∈ free ↔ n < v.size ∧ data n = none

theorem Slots.isSlotMap (hv : Slots v free) : IsSlotMap v v.datum := by
  refine ⟨hv.atIndex_eq, fun d => (hv.insert_fresh d).1, fun d hempty => ?_, fun d hfull => ?_,
    free, hv.chain, hv.nodup, hv.mem_free⟩
  · cases free with
    | nil =>
        obtain ⟨n, hn⟩ := hempty
        exact absurd ((hv.mem_free n).mpr hn) List.not_mem_nil
    | cons first rest =>
        obtain ⟨hindex, _, hsize, _⟩ := hv.insert_cons d
        exact ⟨hindex ▸ ((hv.mem_free first).mp List.mem_cons_self).1, hsize⟩
  · cases free with
    | nil =>
        obtain ⟨hindex, _, hsize, _⟩ := hv.insert_nil d
        exact ⟨hindex, hsize⟩
    | cons first rest =>
        obtain ⟨hlt, hnone⟩ := (hv.mem_free first).mp List.mem_cons_self
        exact absurd hnone (hfull first hlt)

/-- One call changes the data as its response says. -/
theorem Slots.step {a : Call T × Response T} (hv : Slots v free) (hstep : v.Step a v') :
    (∃ free', Slots v' free') ∧ v'.datum = record v.datum a := by
  obtain ⟨c, r⟩ := a
  cases c with
  | insert d =>
      cases hstep
      exact (hv.insert_fresh d).2
  | markEmpty n =>
      rw [Step, call] at hstep
      by_cases hn : v.size ≤ n
      · rw [markEmpty_past v hn] at hstep
        cases hstep
        exact ⟨⟨free, hv⟩, (update_eq_self_iff.mpr (datum_of_le hn).symm).symm⟩
      · by_cases hdata : v.datum n = none
        · rw [hv.markEmpty_empty (Nat.not_le.mp hn) hdata] at hstep
          cases hstep
          exact ⟨⟨free, hv⟩, (update_eq_self_iff.mpr hdata.symm).symm⟩
        · obtain ⟨v₁, hmark, hv₁, _, hdatum⟩ := hv.markEmpty_filled hdata
          rw [hmark] at hstep
          cases hstep
          exact ⟨⟨n :: free, hv₁⟩, hdatum⟩
  | atIndex n =>
      have hsame : v' = v := by
        rw [Step, call] at hstep
        split at hstep <;> exact (Prod.mk.inj hstep).2.symm
      rw [hsame]
      exact ⟨⟨free, hv⟩, rfl⟩

/-- A run keeps the chain, and its history says what the data are. -/
theorem Slots.run {history : List (Call T × Response T)} (hv : Slots v free)
    (hrun : Run Step v history v') :
    (∃ free', Slots v' free') ∧ v'.datum = history.foldl record v.datum := by
  induction hrun generalizing free with
  | nil v => exact ⟨⟨free, hv⟩, rfl⟩
  | cons hstep _ ih =>
      obtain ⟨⟨free', hv'⟩, hdatum⟩ := hv.step hstep
      obtain ⟨hrest, hdatum'⟩ := ih hv'
      exact ⟨hrest, by rw [hdatum', hdatum, List.foldl_cons]⟩

theorem isSlotMap_of_run {history : List (Call T × Response T)} (hrun : Run Step new history v) :
    IsSlotMap v (latest history) := by
  obtain ⟨⟨free, hv⟩, hdatum⟩ := slots_new.run hrun
  have hnone : (new : ConsVec T).datum = fun _ => none := by
    funext n
    cases n <;> rfl
  rw [latest, ← hnone, ← hdatum]
  exact hv.isSlotMap

end ConsVec

end VirtualMemory
