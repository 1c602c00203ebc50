import Mathlib

/-!
# Computations that return or stop

A modelled function returns `Except ε α`: `.ok` when it comes back to its caller and
`.error` when it stops for good. The lemmas here take a computation apart at its
binds, and carry an invariant through a loop written as a monadic fold.
-/

namespace Outcome

universe u

variable {ε ι : Type*} {α β σ : Type u}

theorem bind_ok {x : Except ε α} {f : α → Except ε β} {b : β}
    (h : (x >>= f) = .ok b) : ∃ a, x = .ok a ∧ f a = .ok b := by
  cases x with
  | error e => cases h
  | ok a => exact ⟨a, rfl, h⟩

theorem bind_error {x : Except ε α} {f : α → Except ε β} {e : ε}
    (h : (x >>= f) = .error e) : x = .error e ∨ ∃ a, x = .ok a ∧ f a = .error e := by
  cases x with
  | error e' =>
      cases h
      exact .inl rfl
  | ok a => exact .inr ⟨a, rfl, h⟩

@[simp] theorem ok_bind (a : α) (f : α → Except ε β) : ((.ok a : Except ε α) >>= f) = f a := rfl

@[simp] theorem error_bind (e : ε) (f : α → Except ε β) :
    ((.error e : Except ε α) >>= f) = .error e := rfl

/-- The computation returns, and its result passes a check. -/
def holds (x : Except ε α) (check : α → Bool) : Bool :=
  match x with
  | .error _ => false
  | .ok a => check a

theorem of_holds {x : Except ε α} {check : α → Bool} (h : holds x check = true) :
    ∃ a, x = .ok a ∧ check a = true := by
  cases x with
  | error e => cases h
  | ok a => exact ⟨a, rfl, h⟩

theorem toOption_ok {x : Except ε α} {a : α} (h : x.toOption = some a) : x = .ok a := by
  cases x with
  | error e => cases h
  | ok b =>
      cases h
      rfl

/-- A property of the state, which may mention the iterations still to come, is carried
through a loop that returns. -/
theorem foldlM_ok {f : σ → ι → Except ε σ} (I : List ι → σ → Prop)
    (step : ∀ i rest s t, I (i :: rest) s → f s i = .ok t → I rest t) :
    ∀ {xs : List ι} {s t : σ}, I xs s → xs.foldlM f s = .ok t → I [] t
  | [], s, t, hs, h => by
      cases h
      exact hs
  | i :: rest, s, t, hs, h => by
      rw [List.foldlM_cons] at h
      obtain ⟨middle, hfirst, hrest⟩ := bind_ok h
      exact foldlM_ok I step (step i rest s middle hs hfirst) hrest

/-- A loop stops only where one of its iterations stops. -/
theorem foldlM_error {f : σ → ι → Except ε σ} (I : List ι → σ → Prop) {e : ε}
    (step : ∀ i rest s t, I (i :: rest) s → f s i = .ok t → I rest t) :
    ∀ {xs : List ι} {s : σ}, I xs s → xs.foldlM f s = .error e →
      ∃ i rest middle, I (i :: rest) middle ∧ f middle i = .error e
  | [], s, _, h => by cases h
  | i :: rest, s, hs, h => by
      rw [List.foldlM_cons] at h
      obtain hfirst | ⟨middle, hfirst, hrest⟩ := bind_error h
      · exact ⟨i, rest, s, hs, hfirst⟩
      · exact foldlM_error I step (step i rest s middle hs hfirst) hrest

/-- A computation that stops does not do so with a bad error, and one that returns has a
result with the property `P`. -/
def Meets (bad : ε → Prop) (P : α → Prop) (x : Except ε α) : Prop :=
  match x with
  | .error e => ¬ bad e
  | .ok a => P a

section Meets

variable {bad bad' : ε → Prop} {P P' : α → Prop} {R : β → Prop} {x : Except ε α}

theorem meets_ok {a : α} (h : P a) : Meets bad P (.ok a : Except ε α) := h

theorem meets_error {e : ε} (h : ¬ bad e) : Meets bad P (.error e : Except ε α) := h

namespace Meets

theorem ok (h : Meets bad P x) {a : α} (hx : x = .ok a) : P a := by
  subst hx
  exact h

theorem not_error (h : Meets bad P x) {e : ε} (he : bad e) : x ≠ .error e := by
  intro hx
  subst hx
  exact h he

/-- The rule of consequence: fewer errors are bad, more results are right. -/
theorem mono (h : Meets bad P x) (hbad : ∀ e, bad' e → bad e) (hpost : ∀ a, P a → P' a) :
    Meets bad' P' x := by
  cases x with
  | error e => exact fun he => h (hbad e he)
  | ok a => exact hpost a h

theorem post (h : Meets bad P x) (hpost : ∀ a, P a → P' a) : Meets bad P' x :=
  h.mono (fun _ he => he) hpost

theorem bind {f : α → Except ε β} (h : Meets bad P x) (hf : ∀ a, P a → Meets bad R (f a)) :
    Meets bad R (x >>= f) := by
  cases x with
  | error e => exact h
  | ok a => exact hf a h

/-- The loop rule, for an invariant of every iteration. -/
theorem foldlM {f : σ → ι → Except ε σ} {I : σ → Prop}
    (step : ∀ s i, I s → Meets bad I (f s i)) :
    ∀ {xs : List ι} {s : σ}, I s → Meets bad I (xs.foldlM f s)
  | [], _, hs => hs
  | i :: rest, s, hs => by
      rw [List.foldlM_cons]
      exact (step s i hs).bind fun _ ht => foldlM step ht

end Meets

end Meets

end Outcome
