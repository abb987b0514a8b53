import Mathlib.Order.UpperLower.Basic

/-!
# Bisection

A set of numbers that is closed downward is searched for its greatest element between one that is
in it and a bound above it.
-/

namespace Bisection
variable {α : Type*} [Preorder α] {S : Set α} {low mid high : α}

/-- The greatest element lies between the two. -/
structure Brackets (S : Set α) (low high : α) : Prop where
  mem : low ∈ S
  upper : high ∈ upperBounds S

lemma Brackets.raise (h : Brackets S low high) (hmid : mid ∈ S) : Brackets S mid high :=
  ⟨hmid, h.upper⟩

/-- Below an element that is not in the set, everything is bounded by what is next to it. -/
lemma Brackets.lower {α : Type*} [LinearOrder α] {S : Set α} {low mid high next : α}
    (hS : IsLowerSet S) (h : Brackets S low high) (hmid : mid ∉ S)
    (hnext : ∀ a < mid, a ≤ next) : Brackets S low next := by
  refine ⟨h.mem, fun a ha => hnext a ?_⟩
  by_contra hle
  exact hmid (hS (not_lt.mp hle) ha)

lemma Brackets.isGreatest (h : Brackets S low high) (hle : high ≤ low) : IsGreatest S low :=
  ⟨h.mem, fun _ ha => (h.upper ha).trans hle⟩

end Bisection
