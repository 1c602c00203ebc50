import Mathlib

/-!
# Runs of a labelled step relation

A run lists the labels of its steps. An invariant of the steps holds wherever a run
leads, and a simulation carries a run of one relation to a run of another with the same
labels.
-/

inductive Run {σ α : Type*} (step : σ → α → σ → Prop) : σ → List α → σ → Prop
  | nil (s : σ) : Run step s [] s
  | cons {s t u : σ} {a : α} {as : List α} :
      step s a t → Run step t as u → Run step s (a :: as) u

namespace Run

variable {σ τ α : Type*} {step : σ → α → σ → Prop} {step' : τ → α → τ → Prop}
variable {s t : σ} {as : List α}

theorem invariant (I : σ → Prop) (hstep : ∀ s a t, I s → step s a t → I t)
    (run : Run step s as t) (hs : I s) : I t := by
  induction run with
  | nil s => exact hs
  | cons hfirst _ ih => exact ih (hstep _ _ _ hs hfirst)

/-- One run goes on where another one ends. -/
theorem append {u : σ} {bs : List α} (run : Run step s as t) (more : Run step t bs u) :
    Run step s (as ++ bs) u := by
  induction run with
  | nil s => exact more
  | cons hfirst _ ih => exact .cons hfirst (ih more)

/-- The steps of a run whose states satisfy an invariant are matched, one by one, by the
steps of another relation between the abstractions of these states. -/
theorem simulate (I : σ → Prop) (abs : σ → τ)
    (hstep : ∀ s a t, I s → step s a t → I t ∧ step' (abs s) a (abs t))
    (run : Run step s as t) (hs : I s) : I t ∧ Run step' (abs s) as (abs t) := by
  induction run with
  | nil s => exact ⟨hs, .nil _⟩
  | cons hfirst _ ih =>
      obtain ⟨ht, hfirst'⟩ := hstep _ _ _ hs hfirst
      obtain ⟨hu, hrest⟩ := ih ht
      exact ⟨hu, .cons hfirst' hrest⟩

/-- A run is matched, step by step, from a state that is related to its first one. -/
theorem forward (R : σ → τ → Prop)
    (hstep : ∀ s a t u, R s u → step s a t → ∃ v, step' u a v ∧ R t v)
    (run : Run step s as t) {u : τ} (hs : R s u) : ∃ v, Run step' u as v ∧ R t v := by
  induction run generalizing u with
  | nil s => exact ⟨u, .nil u, hs⟩
  | cons hfirst _ ih =>
      obtain ⟨v, hfirst', hv⟩ := hstep _ _ _ _ hs hfirst
      obtain ⟨w, hrest, hw⟩ := ih hv
      exact ⟨w, .cons hfirst' hrest, hw⟩

/-- What is seen at each step of a program's run. -/
def observe {β : Type*} (next : σ → α → Option σ) (see : σ → α → β) : σ → List α → List β
  | _, [] => []
  | s, a :: as => see s a :: ((next s a).map fun t => observe next see t as).getD []

theorem observe_cons {β : Type*} {next : σ → α → Option σ} {see : σ → α → β} {a : α}
    (hnext : next s a = some t) (as : List α) :
    observe next see s (a :: as) = see s a :: observe next see t as := by
  rw [observe, hnext, Option.map_some, Option.getD_some]

/-- A run of a program is matched, step by step, by what is seen of it. -/
theorem simulate_observed {β : Type*} {step' : τ → β → τ → Prop} (next : σ → α → Option σ)
    (see : σ → α → β) (I : σ → Prop) (abs : σ → τ)
    (hnext : ∀ s a t, step s a t → next s a = some t)
    (hstep : ∀ s a t, I s → step s a t → I t ∧ step' (abs s) (see s a) (abs t))
    (run : Run step s as t) (hs : I s) :
    I t ∧ Run step' (abs s) (observe next see s as) (abs t) := by
  induction run with
  | nil s => exact ⟨hs, .nil _⟩
  | cons hfirst _ ih =>
      obtain ⟨hu, hfirst'⟩ := hstep _ _ _ hs hfirst
      obtain ⟨ht, hrest⟩ := ih hu
      refine ⟨ht, ?_⟩
      rw [observe_cons (hnext _ _ _ hfirst)]
      exact .cons hfirst' hrest

/-- A run of a relation is one of every relation that it implies. -/
theorem weaken {step' : σ → α → σ → Prop} (run : Run step s as t)
    (himp : ∀ s a t, step s a t → step' s a t) : Run step' s as t := by
  induction run with
  | nil s => exact .nil s
  | cons hfirst _ ih => exact .cons (himp _ _ _ hfirst) ih

/-- A run each of whose labels has a property. -/
theorem guarded {P : α → Prop} (run : Run step s as t) (hall : ∀ a ∈ as, P a) :
    Run (fun s a t => P a ∧ step s a t) s as t := by
  induction run with
  | nil s => exact .nil s
  | cons hfirst _ ih =>
      refine .cons ⟨hall _ List.mem_cons_self, hfirst⟩ (ih fun a ha => ?_)
      exact hall a (List.mem_cons_of_mem _ ha)

/-- The same run with its labels renamed. -/
theorem map_labels {β : Type*} {f : β → α} {bs : List β}
    (run : Run (fun s b t => step s (f b) t) s bs t) : Run step s (bs.map f) t := by
  induction run with
  | nil s => exact .nil s
  | cons hfirst _ ih => exact .cons hfirst ih

/-- Follow the labels as far as a partial step function goes. -/
def follow (f : σ → α → Option σ) : σ → List α → Option σ
  | s, [] => some s
  | s, a :: as => (f s a).bind fun t => follow f t as

theorem of_follow {f : σ → α → Option σ} (hf : ∀ s a t, f s a = some t → step s a t) :
    ∀ {as : List α} {s t : σ}, follow f s as = some t → Run step s as t
  | [], s, t, h => by
      cases h
      exact .nil s
  | a :: as, s, t, h => by
      obtain ⟨u, hu, hrest⟩ := Option.bind_eq_some_iff.mp h
      exact .cons (hf s a u hu) (of_follow hf hrest)

end Run
