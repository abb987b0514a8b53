import Mathlib.Algebra.Order.BigOperators.Group.List
import Mathlib.Algebra.Order.Ring.Nat

/-!
# Sums of machine words

A type of machine words is seen through its `value` in the naturals: `add` loses the multiples of
`m`. A running sum loses no more than that, so it is the true sum exactly below `m`.
-/

namespace WrappingSum
variable {β : Type*} {value : β → ℕ} {add : β → β → β} {m : ℕ}

lemma value_foldl (hadd : ∀ a b, value (add a b) = (value a + value b) % m) (words : List β)
    (start : β) (hstart : value start < m) :
    value (words.foldl add start) = (value start + (words.map value).sum) % m := by
  induction words generalizing start with
  | nil => exact (Nat.mod_eq_of_lt hstart).symm
  | cons word words ih =>
    have hlt : value (add start word) < m := by
      rw [hadd]
      exact Nat.mod_lt _ (Nat.zero_lt_of_lt hstart)
    rw [List.foldl_cons, ih _ hlt, hadd, Nat.mod_add_mod, List.map_cons, List.sum_cons,
      Nat.add_assoc]

/-- A sum from zero is the true one exactly when that is a word. -/
lemma value_foldl_eq_sum_iff (hadd : ∀ a b, value (add a b) = (value a + value b) % m)
    (words : List β) {zero : β} (hzero : value zero = 0) (hm : 0 < m) :
    value (words.foldl add zero) = (words.map value).sum ↔ (words.map value).sum < m := by
  rw [value_foldl hadd words zero (hzero.trans_lt hm), hzero, Nat.zero_add, Nat.mod_eq_iff_lt hm.ne']

end WrappingSum
