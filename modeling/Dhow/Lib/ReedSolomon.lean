import Mathlib.Algebra.Polynomial.Derivative
import Mathlib.Algebra.Polynomial.Eval.SMul
import Mathlib.Algebra.Polynomial.Roots

/-!
# Reed-Solomon codes

Words over a field, the coefficient of the highest degree first, and the code of the words that
vanish at consecutive powers of one element. Two words of the code that differ in no more places
than there are powers are the same word.
-/

namespace ReedSolomon
open Polynomial

/-- How many places two words differ in. -/
def mismatches {β : Type} [DecidableEq β] (v w : List β) : ℕ :=
  (v.zip w).countP fun p => p.1 ≠ p.2

section Mismatches
variable {β γ : Type} [DecidableEq β] [DecidableEq γ]

lemma mismatches_cons (a b : β) (v w : List β) :
    mismatches (a :: v) (b :: w) = mismatches v w + if a = b then 0 else 1 := by
  simp [mismatches, List.countP_cons]

lemma mismatches_self (v : List β) : mismatches v v = 0 := by
  induction v with
  | nil => rfl
  | cons a v ih => rw [mismatches_cons, ih, if_pos rfl]

lemma mismatches_comm (v w : List β) : mismatches v w = mismatches w v := by
  induction v generalizing w with
  | nil => cases w <;> rfl
  | cons a v ih =>
    cases w with
    | nil => rfl
    | cons b w => simp only [mismatches_cons, ih w, eq_comm]

lemma mismatches_map {f : β → γ} (hf : Function.Injective f) (v w : List β) :
    mismatches (v.map f) (w.map f) = mismatches v w := by
  induction v generalizing w with
  | nil => rfl
  | cons a v ih =>
    cases w with
    | nil => rfl
    | cons b w => simp only [List.map_cons, mismatches_cons, ih w, hf.eq_iff]

lemma mismatches_map_map {α : Type} (f g : α → β) (l : List α) :
    mismatches (l.map f) (l.map g) = l.countP fun a => f a ≠ g a := by
  rw [mismatches, List.zip_map', List.countP_map]
  rfl

lemma mismatches_le_add {u v w : List β} (huv : u.length = v.length) (hvw : v.length = w.length) :
    mismatches u w ≤ mismatches u v + mismatches v w := by
  induction u generalizing v w with
  | nil => simp [mismatches]
  | cons a u ih =>
    cases v with
    | nil => cases huv
    | cons b v =>
      cases w with
      | nil => cases hvw
      | cons c w =>
        have h := ih (Nat.succ.inj huv) (Nat.succ.inj hvw)
        simp only [mismatches_cons]
        by_cases hab : a = b
        · subst hab
          simp only [if_true]
          omega
        · simp only [if_neg hab]
          split_ifs <;> omega

/-- A word changed in one place differs there from what it was, and nowhere else. -/
lemma mismatches_set_le (v w : List β) (i : ℕ) (a : β) :
    mismatches (v.set i a) w ≤ mismatches v w + 1 := by
  induction v generalizing w i with
  | nil => simp [mismatches]
  | cons b v ih =>
    cases w with
    | nil => simp [mismatches]
    | cons c w =>
      cases i with
      | zero =>
        simp only [List.set_cons_zero, mismatches_cons]
        split_ifs <;> omega
      | succ i =>
        have := ih w i
        simp only [List.set_cons_succ, mismatches_cons]
        omega

end Mismatches

section Word
variable {F : Type} [Field F]

/-- The value of a word at `x`, by Horner's rule. -/
def value (x : F) (w : List F) : F := w.foldl (fun acc c => acc * x + c) 0

def coeff (w : List F) (i : ℕ) : F := w.reverse.getD i 0

/-- The words that vanish at the first powers of `α`. -/
def IsCodeword (α : F) (parity : ℕ) (w : List F) : Prop := ∀ j < parity, value (α ^ j) w = 0

lemma coeff_append_singleton_zero (w : List F) (c : F) : coeff (w ++ [c]) 0 = c := by
  simp [coeff]

lemma coeff_append_singleton_succ (w : List F) (c : F) (i : ℕ) :
    coeff (w ++ [c]) (i + 1) = coeff w i := by
  simp [coeff]

lemma coeff_of_lt {w : List F} {i : ℕ} (hi : i < w.length) :
    coeff w i = w.getD (w.length - 1 - i) 0 := by
  rw [coeff, List.getD_eq_getElem?_getD, List.getElem?_reverse hi, List.getD_eq_getElem?_getD]

lemma coeff_of_le {w : List F} {i : ℕ} (hi : w.length ≤ i) : coeff w i = 0 := by
  rw [coeff, List.getD_eq_getElem?_getD, List.getElem?_eq_none (by simpa using hi)]
  rfl

lemma coeff_set {w : List F} {j : ℕ} (hj : j < w.length) (a : F) (i : ℕ) :
    coeff (w.set (w.length - 1 - j) a) i = if i = j then a else coeff w i := by
  rcases Nat.lt_or_ge i w.length with hi | hi
  · rw [coeff_of_lt (by rwa [List.length_set]), coeff_of_lt hi, List.length_set,
      List.getD_eq_getElem?_getD, List.getElem?_set, List.getD_eq_getElem?_getD]
    split_ifs <;> first | rfl | omega
  · rw [coeff_of_le (by rwa [List.length_set]), coeff_of_le hi, if_neg (by omega)]

/-- A word is its coefficients. -/
lemma eq_of_coeff_eq {v w : List F} (hlen : v.length = w.length)
    (h : ∀ i < v.length, coeff v i = coeff w i) : v = w := by
  apply List.reverse_injective
  apply List.ext_getElem (by simpa using hlen)
  intro i hi hi'
  have h := h i (by simpa using hi)
  rwa [coeff, coeff, List.getD_eq_getElem?_getD, List.getD_eq_getElem?_getD,
    List.getElem?_eq_getElem hi, List.getElem?_eq_getElem hi'] at h

/-- The value of a word is the sum of its terms. -/
lemma value_eq_sum (x : F) (w : List F) :
    value x w = ∑ i ∈ Finset.range w.length, coeff w i * x ^ i := by
  induction w using List.reverseRecOn with
  | nil => rfl
  | append_singleton w c ih =>
    rw [value, List.foldl_concat, ← value, ih, List.length_append, List.length_singleton,
      Finset.sum_range_succ', coeff_append_singleton_zero, pow_zero, mul_one, Finset.sum_mul]
    congr 1
    apply Finset.sum_congr rfl
    intro i _
    rw [coeff_append_singleton_succ, pow_succ, mul_assoc]

/-! ### Errors -/

/-- The value at the `j`th power of `α` of the word with coefficients `e`. -/
def syndrome (α : F) (n : ℕ) (e : ℕ → F) (j : ℕ) : F := ∑ i ∈ Finset.range n, e i * (α ^ i) ^ j

lemma value_pow (α : F) (w : List F) (j : ℕ) :
    value (α ^ j) w = syndrome α w.length (coeff w) j := by
  rw [value_eq_sum, syndrome]
  apply Finset.sum_congr rfl
  intro i _
  rw [← pow_mul, ← pow_mul, Nat.mul_comm]

variable {α : F} {n : ℕ} {e : ℕ → F}

/-- Against coefficients whose first syndromes vanish every polynomial of low degree sums to
zero. -/
lemma sum_mul_eval {parity : ℕ} (h : ∀ j < parity, syndrome α n e j = 0) {p : F[X]}
    (hp : p.natDegree < parity) : ∑ i ∈ Finset.range n, e i * p.eval (α ^ i) = 0 := by
  calc ∑ i ∈ Finset.range n, e i * p.eval (α ^ i)
      = ∑ i ∈ Finset.range n, ∑ j ∈ Finset.range parity, p.coeff j * (e i * (α ^ i) ^ j) := by
        apply Finset.sum_congr rfl
        intro i _
        rw [eval_eq_sum_range' hp, Finset.mul_sum]
        apply Finset.sum_congr rfl
        intro j _
        ring
    _ = ∑ j ∈ Finset.range parity, p.coeff j * syndrome α n e j := by
        rw [Finset.sum_comm]
        apply Finset.sum_congr rfl
        intro j _
        rw [syndrome, Finset.mul_sum]
    _ = 0 := by
        apply Finset.sum_eq_zero
        intro j hj
        rw [h j (Finset.mem_range.mp hj), mul_zero]

/-- No nonzero word of the code has as few nonzero coefficients as there are powers it vanishes
at: the polynomial with all but one of their places as its roots singles that one out. -/
lemma eq_zero_of_card_le [DecidableEq F] (hα : Set.InjOn (fun i => α ^ i) (Set.Iio n))
    {parity : ℕ} (h : ∀ j < parity, syndrome α n e j = 0)
    (hcard : ((Finset.range n).filter fun i => e i ≠ 0).card ≤ parity) {k : ℕ} (hk : k < n) :
    e k = 0 := by
  by_contra hek
  set support := (Finset.range n).filter fun i => e i ≠ 0 with hsupport
  have hmem : k ∈ support := Finset.mem_filter.mpr ⟨Finset.mem_range.mpr hk, hek⟩
  let p : F[X] := ∏ i ∈ support.erase k, (X - C (α ^ i))
  have hdeg : p.natDegree < parity := by
    rw [natDegree_finsetProd_X_sub_C_eq_card, Finset.card_erase_of_mem hmem]
    have := Finset.card_pos.mpr ⟨k, hmem⟩
    omega
  have hsum := sum_mul_eval h hdeg
  rw [Finset.sum_eq_single_of_mem k (Finset.mem_range.mpr hk)] at hsum
  · have heval : p.eval (α ^ k) ≠ 0 := by
      rw [eval_prod]
      apply Finset.prod_ne_zero_iff.mpr
      intro i hi
      obtain ⟨hik, hi⟩ := Finset.mem_erase.mp hi
      rw [eval_sub, eval_X, eval_C, sub_ne_zero]
      intro heq
      exact hik (hα (Finset.mem_range.mp (Finset.mem_filter.mp hi).1) hk heq.symm)
    exact hek ((mul_eq_zero.mp hsum).resolve_right heval)
  · intro i hi hik
    by_cases hei : e i = 0
    · rw [hei, zero_mul]
    · have hroot : p.eval (α ^ i) = 0 := by
        rw [eval_prod]
        apply Finset.prod_eq_zero (Finset.mem_erase.mpr ⟨hik, Finset.mem_filter.mpr ⟨hi, hei⟩⟩)
        rw [eval_sub, eval_X, eval_C, sub_self]
      rw [hroot, mul_zero]

lemma mismatches_eq_card [DecidableEq F] {v w : List F} (h : v.length = w.length) :
    mismatches v w =
      ((Finset.range v.length).filter fun i => coeff v i - coeff w i ≠ 0).card := by
  induction v using List.reverseRecOn generalizing w with
  | nil => simp [mismatches]
  | append_singleton v a ih =>
    obtain rfl | ⟨w, b, rfl⟩ := w.eq_nil_or_concat'
    · simp at h
    · have hlen : v.length = w.length := by simpa using h
      rw [mismatches, List.zip_append hlen, List.countP_append, ← mismatches, ih hlen]
      simp only [Finset.card_filter, List.length_append, List.length_singleton,
        Finset.sum_range_succ', coeff_append_singleton_zero, coeff_append_singleton_succ, sub_ne_zero]
      congr 1
      by_cases hab : a = b <;> simp [hab]

/-- Two words of the code that are near each other are the same. -/
theorem eq_of_mismatches_le [DecidableEq F] {parity : ℕ} {v w : List F}
    (hα : Set.InjOn (fun i => α ^ i) (Set.Iio v.length)) (hlen : v.length = w.length)
    (hv : IsCodeword α parity v) (hw : IsCodeword α parity w) (h : mismatches v w ≤ parity) :
    v = w := by
  have hsyn : ∀ j < parity, syndrome α v.length (fun i => coeff v i - coeff w i) j = 0 := by
    intro j hj
    have h1 := hv j hj
    have h2 := hw j hj
    rw [value_pow] at h1 h2
    rw [← hlen] at h2
    simp only [syndrome, sub_mul, Finset.sum_sub_distrib] at h1 h2 ⊢
    rw [h1, h2, sub_zero]
  apply eq_of_coeff_eq hlen
  intro i hi
  rw [← sub_eq_zero]
  exact eq_zero_of_card_le hα hsyn (by rw [← mismatches_eq_card hlen]; exact h) hi

end Word
end ReedSolomon
