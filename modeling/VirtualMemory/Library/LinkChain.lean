import Mathlib

/-!
# Chains of nodes through a link field

Every node has a link, which is a pointer to another node or the null pointer. A chain is the
list of the nodes met from a pointer on. Only the links of these nodes matter to it, so that
a node can be put in front or behind without a look at the rest.
-/

variable {ι π : Type*}

/-- The nodes met from a pointer on, up to the null pointer. -/
def LinkChain (ptr : ι → π) (null : π) (link : ι → π) : π → List ι → Prop
  | p, [] => p = null
  | p, x :: rest => p = ptr x ∧ LinkChain ptr null link (link x) rest

namespace LinkChain

variable {ptr : ι → π} {null p : π} {link link' : ι → π} {x y : ι} {xs : List ι}

/-- Only the links of its nodes matter to a chain. -/
theorem congr (h : LinkChain ptr null link p xs) (hlink : ∀ x ∈ xs, link' x = link x) :
    LinkChain ptr null link' p xs := by
  induction xs generalizing p with
  | nil => exact h
  | cons x rest ih =>
      refine ⟨h.1, ?_⟩
      rw [hlink x List.mem_cons_self]
      exact ih h.2 fun y hy => hlink y (List.mem_cons_of_mem x hy)

theorem eq_nil_iff (hptr : ∀ x, ptr x ≠ null) (h : LinkChain ptr null link p xs) :
    p = null ↔ xs = [] := by
  cases xs with
  | nil => exact iff_of_true h rfl
  | cons x rest => exact iff_of_false (h.1 ▸ hptr x) (List.cons_ne_nil x rest)

section Writing

variable [DecidableEq ι]

/-- A node is put in front. -/
theorem push (h : LinkChain ptr null link p xs) (hx : x ∉ xs) :
    LinkChain ptr null (Function.update link x p) (ptr x) (x :: xs) := by
  refine ⟨rfl, ?_⟩
  rw [Function.update_self]
  exact h.congr fun y hy => Function.update_of_ne (ne_of_mem_of_not_mem hy hx) _ _

/-- A node is put behind the last one. -/
theorem append (h : LinkChain ptr null link p (xs ++ [x])) (hnodup : (xs ++ [x]).Nodup)
    (hy : y ∉ xs ++ [x]) :
    LinkChain ptr null (Function.update (Function.update link x (ptr y)) y null) p
      (xs ++ [x] ++ [y]) := by
  induction xs generalizing p with
  | nil =>
      have hne : x ≠ y := fun heq => hy (by simp [heq])
      refine ⟨h.1, ?_, ?_⟩
      · rw [Function.update_of_ne hne, Function.update_self]
      · rw [Function.update_self]
        rfl
  | cons z rest ih =>
      rw [List.cons_append, List.nodup_cons] at hnodup
      have hzx : z ≠ x := fun heq => hnodup.1 (by simp [heq])
      have hzy : z ≠ y := fun heq => hy (by simp [heq])
      refine ⟨h.1, ?_⟩
      rw [Function.update_of_ne hzy, Function.update_of_ne hzx]
      exact ih h.2 hnodup.2 fun hmem => hy (List.mem_cons_of_mem z hmem)

end Writing

/-- Nodes in a row, each with a link to the next one. -/
theorem of_range {ptr : ℕ → π} {link : ℕ → π} {i k : ℕ}
    (hnext : ∀ j, i ≤ j → j < i + k → link j = ptr (j + 1)) (hlast : link (i + k) = null) :
    LinkChain ptr null link (ptr i) (List.range' i (k + 1)) := by
  induction k generalizing i with
  | zero => exact ⟨rfl, hlast⟩
  | succ k ih =>
      refine ⟨rfl, ?_⟩
      rw [hnext i (Nat.le_refl i) (by omega)]
      refine ih (fun j hj hlt => hnext j (by omega) (by omega)) ?_
      rw [← hlast, Nat.add_right_comm, Nat.add_assoc]

/-- Following the links from the first node leads to the last one. -/
theorem iterate {next : π → π} (h : LinkChain ptr null (next ∘ ptr) p (x :: xs)) :
    next^[xs.length] p = ptr ((x :: xs).getLast (List.cons_ne_nil x xs)) := by
  induction xs generalizing p x with
  | nil => exact h.1
  | cons y rest ih =>
      rw [List.length_cons, Function.iterate_succ_apply, h.1, List.getLast_cons_cons]
      exact ih h.2

end LinkChain
