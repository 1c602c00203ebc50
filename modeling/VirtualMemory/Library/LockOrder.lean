import Mathlib
import VirtualMemory.Library.Run

/-!
# Code that takes locks, and the order in which it does

`Code` is what remains of a program when only its scoped locks are kept: every choice and
every loop is left open, and a path through it is the sequence of its acquisitions and
releases. Locks are recursive. Threads that run such sequences wait for each other; if all
of their code takes a lock only when it has it already, or when it ranks above every lock
that is held, they never wait in a circle.
-/

namespace LockOrder

open Function

inductive Event (M : Type*) where
  | acquire (m : M)
  | release (m : M)
  deriving DecidableEq, Repr

/-- Code with scoped locks. -/
inductive Code (M : Type*) where
  | skip
  | seq (a b : Code M)
  | choice (a b : Code M)
  | loop (a : Code M)
  | locked (m : M) (a : Code M)

namespace Code

variable {M : Type*}

/-- Code that may be left out. -/
def opt (a : Code M) : Code M := .choice a .skip

/-- The paths through code. -/
inductive Trace : Code M → List (Event M) → Prop
  | skip : Trace .skip []
  | seq {a b : Code M} {es es' : List (Event M)} :
      Trace a es → Trace b es' → Trace (.seq a b) (es ++ es')
  | left {a b : Code M} {es : List (Event M)} : Trace a es → Trace (.choice a b) es
  | right {a b : Code M} {es : List (Event M)} : Trace b es → Trace (.choice a b) es
  | done {a : Code M} : Trace (.loop a) []
  | again {a : Code M} {es es' : List (Event M)} :
      Trace a es → Trace (.loop a) es' → Trace (.loop a) (es ++ es')
  | locked {m : M} {a : Code M} {es : List (Event M)} :
      Trace a es → Trace (.locked m a) (.acquire m :: (es ++ [.release m]))

/-- The path that a list of decisions leads through the code, and the decisions left over.
A choice goes left for 0, a loop runs as often as it is told. -/
def path : Code M → List Nat → List (Event M) × List Nat
  | .skip, ds => ([], ds)
  | .seq a b, ds => ((path a ds).1 ++ (path b (path a ds).2).1, (path b (path a ds).2).2)
  | .choice a _, [] => path a []
  | .choice a _, 0 :: ds => path a ds
  | .choice _ b, (_ + 1) :: ds => path b ds
  | .loop _, [] => ([], [])
  | .loop a, n :: ds => go (path a) n ds
  | .locked m a, ds => (.acquire m :: ((path a ds).1 ++ [.release m]), (path a ds).2)
where
  go (body : List Nat → List (Event M) × List Nat) : Nat → List Nat → List (Event M) × List Nat
    | 0, ds => ([], ds)
    | n + 1, ds => ((body ds).1 ++ (go body n (body ds).2).1, (go body n (body ds).2).2)

theorem trace_path : ∀ (c : Code M) (ds : List Nat), Trace c (c.path ds).1
  | .skip, _ => .skip
  | .seq a b, ds => .seq (trace_path a ds) (trace_path b _)
  | .choice a _, [] => .left (trace_path a [])
  | .choice a _, 0 :: ds => .left (trace_path a ds)
  | .choice _ b, (_ + 1) :: ds => .right (trace_path b ds)
  | .loop _, [] => .done
  | .loop a, n :: ds => loop_go a n ds
  | .locked _ a, ds => .locked (trace_path a ds)
where
  loop_go (a : Code M) : ∀ (n : Nat) (ds : List Nat), Trace (.loop a) (path.go (path a) n ds).1
    | 0, _ => .done
    | n + 1, ds => .again (trace_path a ds) (loop_go a n _)

end Code

section

variable {M : Type*} (rank : M → Nat)

/-- A lock may be taken by who has it already, or has only locks of lower rank. -/
def MayLock (held : List M) (m : M) : Prop := m ∈ held ∨ ∀ x ∈ held, rank x < rank m

/-- The code takes its locks in the order of their ranks, when it starts with some held. -/
def Code.Ordered : List M → Code M → Prop
  | _, .skip => True
  | held, .seq a b => a.Ordered held ∧ b.Ordered held
  | held, .choice a b => a.Ordered held ∧ b.Ordered held
  | held, .loop a => a.Ordered held
  | held, .locked m a => MayLock rank held m ∧ a.Ordered (m :: held)

/-- The same of a sequence of acquisitions and releases. -/
def Respects [DecidableEq M] : List M → List (Event M) → Prop
  | _, [] => True
  | held, .acquire m :: es => MayLock rank held m ∧ Respects (m :: held) es
  | held, .release m :: es => Respects (held.erase m) es

variable {rank}

theorem Code.Ordered.opt {held : List M} {a : Code M} (ha : a.Ordered rank held) :
    a.opt.Ordered rank held := ⟨ha, trivial⟩

/-- Paths of ordered code respect the ranks, and so does what follows them. -/
theorem Code.Trace.respects [DecidableEq M] {c : Code M} {es : List (Event M)}
    (htrace : c.Trace es) : ∀ {held : List M} {rest : List (Event M)}, c.Ordered rank held →
      Respects rank held rest → Respects rank held (es ++ rest) := by
  induction htrace with
  | skip => exact fun _ hrest => hrest
  | seq _ _ iha ihb =>
      intro held rest hc hrest
      rw [List.append_assoc]
      exact iha hc.1 (ihb hc.2 hrest)
  | left _ ih => exact fun hc hrest => ih hc.1 hrest
  | right _ ih => exact fun hc hrest => ih hc.2 hrest
  | done => exact fun _ hrest => hrest
  | again _ _ iha ihloop =>
      intro held rest hc hrest
      rw [List.append_assoc]
      exact iha hc (ihloop hc hrest)
  | @locked m a es _ ih =>
      intro held rest hc hrest
      refine ⟨hc.1, ?_⟩
      change Respects rank (m :: held) (es ++ [.release m] ++ rest)
      rw [List.append_assoc]
      refine ih hc.2 ?_
      change Respects rank ((m :: held).erase m) rest
      rwa [List.erase_cons_head]

end

section

variable {M ι : Type*}

/-- What each thread has still to do, and the locks it holds, once for each time it took
them. -/
structure Threads (ι M : Type*) where
  todo : ι → List (Event M)
  held : ι → List M

namespace Threads

/-- A thread waits for a lock that another one holds. -/
def WaitsFor (s : Threads ι M) (i j : ι) : Prop :=
  i ≠ j ∧ ∃ m es, s.todo i = .acquire m :: es ∧ m ∈ s.held j

/-- Some threads wait for each other in a circle. -/
def Deadlocked (s : Threads ι M) : Prop := ∃ i, Relation.TransGen s.WaitsFor i i

variable [DecidableEq ι] [DecidableEq M]

/-- A thread goes one step further: a lock is taken when no other thread holds it. -/
inductive Step : Threads ι M → ι → Threads ι M → Prop
  | acquire {s : Threads ι M} {i : ι} {m : M} {es : List (Event M)} :
      s.todo i = .acquire m :: es → (∀ j, j ≠ i → m ∉ s.held j) →
        Step s i ⟨update s.todo i es, update s.held i (m :: s.held i)⟩
  | release {s : Threads ι M} {i : ι} {m : M} {es : List (Event M)} :
      s.todo i = .release m :: es →
        Step s i ⟨update s.todo i es, update s.held i ((s.held i).erase m)⟩

/-- No lock is held by two threads, and each thread goes on in the order of the ranks. -/
structure Orderly (rank : M → Nat) (s : Threads ι M) : Prop where
  exclusive : ∀ i j m, m ∈ s.held i → m ∈ s.held j → i = j
  respects : ∀ i, Respects rank (s.held i) (s.todo i)

variable {rank : M → Nat} {s s' : Threads ι M} {i j : ι}

theorem Orderly.step (hs : s.Orderly rank) (hstep : s.Step i s') : s'.Orderly rank := by
  cases hstep with
  | acquire htodo hfree =>
      constructor
      · intro j k x hj hk
        by_cases hji : j = i <;> by_cases hki : k = i
        · rw [hji, hki]
        · subst hji
          simp only [update_self, update_of_ne hki, List.mem_cons] at hj hk
          obtain rfl | hj := hj
          · exact absurd hk (hfree k hki)
          · exact hs.exclusive _ _ x hj hk
        · subst hki
          simp only [update_self, update_of_ne hji, List.mem_cons] at hj hk
          obtain rfl | hk := hk
          · exact absurd hj (hfree j hji)
          · exact hs.exclusive _ _ x hj hk
        · simp only [update_of_ne hji, update_of_ne hki] at hj hk
          exact hs.exclusive _ _ x hj hk
      · intro j
        by_cases hji : j = i
        · subst hji
          have hj := hs.respects j
          rw [htodo] at hj
          simpa using hj.2
        · simpa [hji] using hs.respects j
  | @release m es htodo =>
      have hsub : ∀ j x, x ∈ update s.held i ((s.held i).erase m) j → x ∈ s.held j := by
        intro j x hx
        by_cases hji : j = i
        · subst hji
          rw [update_self] at hx
          exact List.mem_of_mem_erase hx
        · rwa [update_of_ne hji] at hx
      constructor
      · exact fun j k x hj hk => hs.exclusive j k x (hsub j x hj) (hsub k x hk)
      · intro j
        by_cases hji : j = i
        · subst hji
          have hj := hs.respects j
          rw [htodo] at hj
          simp only [update_self]
          exact hj
        · simpa [hji] using hs.respects j

omit [DecidableEq ι] in
/-- A thread that is waited for and waits itself waits for a lock of higher rank. -/
theorem Orderly.rank_lt (hs : s.Orderly rank) {m m' : M} {es : List (Event M)} {k : ι}
    (hm : m ∈ s.held j) (hj : s.todo j = .acquire m' :: es) (hk : m' ∈ s.held k)
    (hne : j ≠ k) : rank m < rank m' := by
  have hrespects := hs.respects j
  rw [hj] at hrespects
  obtain hheld | hbelow := hrespects.1
  · exact absurd (hs.exclusive j k m' hheld hk) hne
  · exact hbelow m hm

omit [DecidableEq ι] in
/-- Along a chain of waiting threads the ranks of the locks they wait for increase. -/
theorem Orderly.chain (hs : s.Orderly rank) (hchain : Relation.TransGen s.WaitsFor i j) :
    ∀ {m : M} {es : List (Event M)}, s.todo i = .acquire m :: es →
      ∃ m', m' ∈ s.held j ∧ rank m ≤ rank m' := by
  induction hchain with
  | single hwait =>
      intro m es hi
      obtain ⟨_, m', es', hi', hheld⟩ := hwait
      rw [hi] at hi'
      cases hi'
      exact ⟨m, hheld, Nat.le_refl _⟩
  | @tail j k _ hwait ih =>
      intro m es hi
      obtain ⟨m₁, hheld₁, hle⟩ := ih hi
      obtain ⟨hne, m₂, es₂, hj, hheld₂⟩ := hwait
      exact ⟨m₂, hheld₂, hle.trans (Nat.le_of_lt (hs.rank_lt hheld₁ hj hheld₂ hne))⟩

omit [DecidableEq ι] in
theorem Orderly.not_deadlocked (hs : s.Orderly rank) : ¬ s.Deadlocked := by
  rintro ⟨i, hcycle⟩
  obtain ⟨k, hfirst, _⟩ := Relation.TransGen.head'_iff.mp hcycle
  obtain ⟨hne, m, es, hi, hheld⟩ := hfirst
  obtain ⟨m', hheld', hle⟩ := hs.chain hcycle hi
  exact absurd (hs.rank_lt hheld' hi hheld hne) (Nat.not_lt.mpr hle)

/-- Threads that start without locks and respect the ranks never wait in a circle. -/
theorem no_deadlock {start s : Threads ι M} {is : List ι} (hnone : ∀ i, start.held i = [])
    (hrespects : ∀ i, Respects rank [] (start.todo i)) (hrun : Run Step start is s) :
    ¬ s.Deadlocked := by
  have hs : s.Orderly rank := by
    refine hrun.invariant (Orderly rank) (fun _ _ _ hs hstep => hs.step hstep) ⟨?_, ?_⟩
    · intro i _ m hm
      rw [hnone] at hm
      cases hm
    · intro i
      rw [hnone]
      exact hrespects i
  exact hs.not_deadlocked

omit [DecidableEq ι] [DecidableEq M] in
/-- Two threads that wait for each other. -/
theorem deadlocked_of_pair {m m' : M} (hne : i ≠ j)
    (hi : (s.todo i).head? = some (.acquire m)) (hm : m ∈ s.held j)
    (hj : (s.todo j).head? = some (.acquire m')) (hm' : m' ∈ s.held i) : s.Deadlocked := by
  obtain ⟨es, hes⟩ := List.head?_eq_some_iff.mp hi
  obtain ⟨es', hes'⟩ := List.head?_eq_some_iff.mp hj
  exact ⟨i, .head ⟨hne, m, es, hes, hm⟩ (.single ⟨hne.symm, m', es', hes', hm'⟩)⟩

/-- The step of a thread, if it can be taken, where there are finitely many threads. -/
def advance [Fintype ι] (s : Threads ι M) (i : ι) : Option (Threads ι M) :=
  match s.todo i with
  | [] => none
  | .acquire m :: es =>
      if ∀ j, j ≠ i → m ∉ s.held j then
        some ⟨update s.todo i es, update s.held i (m :: s.held i)⟩
      else none
  | .release m :: es => some ⟨update s.todo i es, update s.held i ((s.held i).erase m)⟩

theorem step_of_advance [Fintype ι] (h : s.advance i = some s') : s.Step i s' := by
  unfold advance at h
  split at h
  · cases h
  · rename_i m es htodo
    split at h
    · rename_i hfree
      cases h
      exact .acquire htodo hfree
    · cases h
  · rename_i m es htodo
    cases h
    exact .release htodo

end Threads

end

end LockOrder
