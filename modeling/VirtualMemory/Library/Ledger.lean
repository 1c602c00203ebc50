import Mathlib

/-!
# Ledgers of exclusively held resources

A ledger relates holders to resources taken from a domain. `Ledger.Exact` says that
every resource of the domain is either free or held, that no free resource is held,
and that no resource has two holders. The lemmas give the four ways in which an
allocator changes a ledger: a holder takes a free resource, gives one back, passes
one on to another holder, or nothing changes hands.

Holders and resources are arbitrary types and the new ledger is described pointwise,
so that a caller only states which holder of its own state changed.
-/

namespace Ledger

variable {R C : Type*} {dom free free' : C → Prop} {holds holds' : R → C → Prop}

/-- Each resource of the domain is free or has exactly one holder, never both. -/
structure Exact (dom free : C → Prop) (holds : R → C → Prop) : Prop where
  free_dom : ∀ {c}, free c → dom c
  holds_dom : ∀ {r c}, holds r c → dom c
  not_free : ∀ {r c}, holds r c → ¬ free c
  inj : ∀ {r q c}, holds r c → holds q c → r = q
  covered : ∀ {c}, dom c → ¬ free c → ∃ r, holds r c

/-- The holders other than `r` hold what they held before. -/
def Others (r : R) (holds holds' : R → C → Prop) : Prop :=
  ∀ q c, q ≠ r → (holds' q c ↔ holds q c)

namespace Exact

theorem existsUnique (h : Exact dom free holds) {c : C} (hdom : dom c) :
    ¬ free c ↔ ∃! r, holds r c := by
  constructor
  · intro hfree
    obtain ⟨r, hr⟩ := h.covered hdom hfree
    exact ⟨r, hr, fun q hq => h.inj hq hr⟩
  · rintro ⟨r, hr, _⟩
    exact h.not_free hr

theorem congr (h : Exact dom free holds) (hfree : ∀ c, free' c ↔ free c)
    (hholds : ∀ r c, holds' r c ↔ holds r c) : Exact dom free' holds' where
  free_dom hc := h.free_dom ((hfree _).mp hc)
  holds_dom hr := h.holds_dom ((hholds _ _).mp hr)
  not_free hr hc := h.not_free ((hholds _ _).mp hr) ((hfree _).mp hc)
  inj hr hq := h.inj ((hholds _ _).mp hr) ((hholds _ _).mp hq)
  covered hdom hc := by
    obtain ⟨r, hr⟩ := h.covered hdom (fun hf => hc ((hfree _).mpr hf))
    exact ⟨r, (hholds r _).mpr hr⟩

/-- Everything is free as long as nobody holds anything. -/
theorem start (hnone : ∀ r c, ¬ holds r c) (hfree : ∀ c, free c ↔ dom c) :
    Exact dom free holds where
  free_dom hc := (hfree _).mp hc
  holds_dom hr := absurd hr (hnone _ _)
  not_free hr := absurd hr (hnone _ _)
  inj hr := absurd hr (hnone _ _)
  covered hdom hc := absurd ((hfree _).mpr hdom) hc

/-- A holder with nothing in its name takes a free resource. -/
theorem take (h : Exact dom free holds) {r : R} {c : C} (hc : free c)
    (hnone : ∀ x, ¬ holds r x) (hfree : ∀ x, free' x ↔ free x ∧ x ≠ c)
    (hr : ∀ x, holds' r x ↔ x = c) (others : Others r holds holds') :
    Exact dom free' holds' := by
  have old : ∀ {q x}, holds' q x → (q = r ∧ x = c) ∨ (q ≠ r ∧ holds q x) := by
    intro q x hq
    by_cases heq : q = r
    · subst q
      exact .inl ⟨rfl, (hr x).mp hq⟩
    · exact .inr ⟨heq, (others q x heq).mp hq⟩
  refine ⟨fun hx => h.free_dom ((hfree _).mp hx).1, ?_, ?_, ?_, ?_⟩
  · intro q x hq
    obtain ⟨-, rfl⟩ | ⟨-, hq⟩ := old hq
    · exact h.free_dom hc
    · exact h.holds_dom hq
  · intro q x hq hx
    obtain ⟨-, rfl⟩ | ⟨-, hq⟩ := old hq
    · exact ((hfree x).mp hx).2 rfl
    · exact h.not_free hq ((hfree x).mp hx).1
  · intro q p x hq hp
    obtain ⟨rfl, rfl⟩ | ⟨_, hq⟩ := old hq <;> obtain ⟨rfl, hx⟩ | ⟨_, hp⟩ := old hp
    · rfl
    · exact absurd hc (h.not_free hp)
    · subst x
      exact absurd hc (h.not_free hq)
    · exact h.inj hq hp
  · intro x hx hnot
    by_cases hxc : x = c
    · exact ⟨r, (hr x).mpr hxc⟩
    · obtain ⟨q, hq⟩ := h.covered hx (fun hf => hnot ((hfree x).mpr ⟨hf, hxc⟩))
      have hne : q ≠ r := fun heq => hnone x (heq ▸ hq)
      exact ⟨q, (others q x hne).mpr hq⟩

/-- A holder gives back the one resource in its name. -/
theorem give (h : Exact dom free holds) {r : R} {c : C} (hc : holds r c)
    (honly : ∀ x, holds r x → x = c) (hfree : ∀ x, free' x ↔ free x ∨ x = c)
    (hr : ∀ x, ¬ holds' r x) (others : Others r holds holds') :
    Exact dom free' holds' := by
  have old : ∀ {q x}, holds' q x → q ≠ r ∧ holds q x := by
    intro q x hq
    have hne : q ≠ r := fun heq => hr x (heq ▸ hq)
    exact ⟨hne, (others q x hne).mp hq⟩
  refine ⟨?_, fun hq => h.holds_dom (old hq).2, ?_, fun hq hp => h.inj (old hq).2 (old hp).2, ?_⟩
  · intro x hx
    obtain hx | rfl := (hfree x).mp hx
    · exact h.free_dom hx
    · exact h.holds_dom hc
  · intro q x hq hx
    obtain hx | rfl := (hfree x).mp hx
    · exact h.not_free (old hq).2 hx
    · exact (old hq).1 (h.inj (old hq).2 hc)
  · intro x hx hnot
    have hxc : x ≠ c := fun heq => hnot ((hfree x).mpr (.inr heq))
    obtain ⟨q, hq⟩ := h.covered hx (fun hf => hnot ((hfree x).mpr (.inl hf)))
    have hne : q ≠ r := fun heq => hxc (honly x (heq ▸ hq))
    exact ⟨q, (others q x hne).mpr hq⟩

/-- A holder passes the one resource in its name on to a holder that has none. -/
theorem move (h : Exact dom free holds) {r q : R} {c : C} (hc : holds r c)
    (honly : ∀ x, holds r x → x = c) (hnone : ∀ x, ¬ holds q x) (hne : r ≠ q)
    (hfree : ∀ x, free' x ↔ free x) (hr : ∀ x, ¬ holds' r x) (hq : ∀ x, holds' q x ↔ x = c)
    (others : ∀ p x, p ≠ r → p ≠ q → (holds' p x ↔ holds p x)) :
    Exact dom free' holds' := by
  have old : ∀ {p x}, holds' p x → (p = q ∧ x = c) ∨ (p ≠ r ∧ p ≠ q ∧ holds p x) := by
    intro p x hp
    have hpr : p ≠ r := fun heq => hr x (heq ▸ hp)
    by_cases heq : p = q
    · subst p
      exact .inl ⟨rfl, (hq x).mp hp⟩
    · exact .inr ⟨hpr, heq, (others p x hpr heq).mp hp⟩
  refine ⟨fun hx => h.free_dom ((hfree _).mp hx), ?_, ?_, ?_, ?_⟩
  · intro p x hp
    obtain ⟨-, rfl⟩ | ⟨-, -, hp⟩ := old hp
    · exact h.holds_dom hc
    · exact h.holds_dom hp
  · intro p x hp hx
    obtain ⟨-, rfl⟩ | ⟨-, -, hp⟩ := old hp
    · exact h.not_free hc ((hfree x).mp hx)
    · exact h.not_free hp ((hfree x).mp hx)
  · intro p p' x hp hp'
    obtain ⟨rfl, rfl⟩ | ⟨hpr, -, hp⟩ := old hp <;> obtain ⟨rfl, hx⟩ | ⟨hpr', -, hp'⟩ := old hp'
    · rfl
    · exact absurd (h.inj hp' hc) hpr'
    · subst x
      exact absurd (h.inj hp hc) hpr
    · exact h.inj hp hp'
  · intro x hx hnot
    obtain ⟨p, hp⟩ := h.covered hx (fun hf => hnot ((hfree x).mpr hf))
    by_cases hpr : p = r
    · subst p
      exact ⟨q, (hq x).mpr (honly x hp)⟩
    · have hpq : p ≠ q := fun heq => hnone x (heq ▸ hp)
      exact ⟨p, (others p x hpr hpq).mpr hp⟩

end Exact

end Ledger
