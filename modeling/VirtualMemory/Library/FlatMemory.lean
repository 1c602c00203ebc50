import Mathlib.Logic.Function.Basic
import VirtualMemory.Library.Run

/-!
# Flat memories

A memory has a value in each cell that there is. What a program does to it is a list of
events, and a load answers with the last value that was stored, whatever else happens to the
cells in between.
-/

namespace FlatMemory

variable {C B : Type*}

/-- What happens to a memory: besides stores and loads there are steps that keep what the cells
contain, and steps that may also take cells away. -/
inductive Event (C B : Type*) where
  | store (c : C) (b : B)
  | load (c : C) (b : B)
  | quiet
  | remove
  deriving DecidableEq

/-- The cells in `P` contain what they did. -/
def Keeps (P : C → Prop) (m m' : C → Option B) : Prop :=
  ∀ c b, P c → m c = some b → m' c = some b

def Step (m : C → Option B) (event : Event C B) (m' : C → Option B) : Prop :=
  match event with
  | .store c b => (∃ old, m c = some old) ∧ m' c = some b ∧ Keeps (· ≠ c) m m'
  | .load c b => m c = some b ∧ Keeps (fun _ => True) m m'
  | .quiet => Keeps (fun _ => True) m m'
  | .remove => ∀ c b, m c = some b → m' c = some b ∨ m' c = none

variable [DecidableEq C] {m m' : C → Option B} {c : C} {b b' : B} {event : Event C B}
  {events : List (Event C B)}

/-- The value of a cell after an event, if it contained `b` before. -/
def Event.after (c : C) (b : B) : Event C B → B
  | .store c' b' => if c' = c then b' else b
  | _ => b

/-- The last value that was stored in a cell, or `b` if none was. -/
def lastStored (c : C) (b : B) (events : List (Event C B)) : B :=
  events.foldl (Event.after c) b

@[simp] theorem lastStored_nil : lastStored c b [] = b := rfl

@[simp] theorem lastStored_cons :
    lastStored c b (event :: events) = lastStored c (event.after c b) events := rfl

theorem Event.after_of_spared (hspared : ∀ b', event ≠ .store c b') : event.after c b = b := by
  cases event with
  | store c' b' =>
      have hne : c' ≠ c := by
        rintro rfl
        exact hspared b' rfl
      exact if_neg hne
  | load | quiet | remove => rfl

/-- What is loaded is what is stored as long as nothing else is stored in the cell. -/
theorem lastStored_of_spared (hspared : ∀ b', Event.store c b' ∉ events) :
    lastStored c b events = b := by
  induction events generalizing b with
  | nil => rfl
  | cons event events ih =>
      rw [lastStored_cons, ih fun b' hmem => hspared b' (List.mem_cons_of_mem _ hmem)]
      refine Event.after_of_spared fun b' heq => hspared b' ?_
      rw [heq]
      exact List.mem_cons_self

theorem Step.keeps (hstep : Step m event m') (hm : m c = some b) (hnot : event ≠ .remove) :
    m' c = some (event.after c b) := by
  cases event with
  | store c' b' =>
      obtain ⟨_, hstored, hkeeps⟩ := hstep
      by_cases hc : c' = c
      · subst c'
        simpa [Event.after] using hstored
      · simpa [Event.after, hc] using hkeeps c b (Ne.symm hc) hm
  | load c' b' => exact hstep.2 c b trivial hm
  | quiet => exact hstep c b trivial hm
  | remove => exact absurd rfl hnot

/-- A cell that is there after a step contains what it did, or what the step stored. -/
theorem Step.present (hstep : Step m event m') (hm : m c = some b) (hm' : m' c = some b') :
    m' c = some (event.after c b) := by
  by_cases hremove : event = .remove
  · subst event
    obtain hkept | hgone := hstep c b hm
    · exact hkept
    · cases hm'.symm.trans hgone
  · exact hstep.keeps hm hremove

/-- A cell that is there all along contains what was stored last. -/
theorem present_of_run
    (hrun : Run (fun m event m' => Step m event m' ∧ ∃ b, m' c = some b) m events m')
    (hm : m c = some b) : m' c = some (lastStored c b events) := by
  induction hrun generalizing b with
  | nil => exact hm
  | cons hstep _ ih => exact ih (hstep.1.present hm hstep.2.choose_spec)

/-- Where nothing is taken away, every cell contains what was stored last. -/
theorem kept_of_run (hrun : Run (fun m event m' => Step m event m' ∧ event ≠ .remove) m events m')
    (hm : m c = some b) : m' c = some (lastStored c b events) := by
  induction hrun generalizing b with
  | nil => exact hm
  | cons hstep _ ih => exact ih (hstep.1.keeps hm hstep.2)

end FlatMemory
