import Mathlib.Data.List.Basic

/-!
# Shuffles

A list whose elements are dealt out, each to one of two lists, the order kept in both.
-/

inductive Shuffle {α : Type} : List α → List α → List α → Prop
  | nil : Shuffle [] [] []
  | left {l r m : List α} (h : Shuffle l r m) (a : α) : Shuffle (l ++ [a]) r (m ++ [a])
  | right {l r m : List α} (h : Shuffle l r m) (a : α) : Shuffle l (r ++ [a]) (m ++ [a])

namespace Shuffle
variable {α : Type} {l r m : List α}

lemma length_eq (h : Shuffle l r m) : m.length = l.length + r.length := by
  induction h with
  | nil => rfl
  | left h a ih =>
    rw [List.length_append, List.length_append, ih, List.length_singleton]
    omega
  | right h a ih =>
    rw [List.length_append, List.length_append, ih, List.length_singleton]
    omega

lemma sublist_left (h : Shuffle l r m) : l.Sublist m := by
  induction h with
  | nil => exact List.Sublist.refl _
  | left h a ih => exact ih.append (List.Sublist.refl [a])
  | right h a ih => exact ih.trans (List.sublist_append_left _ _)

end Shuffle
