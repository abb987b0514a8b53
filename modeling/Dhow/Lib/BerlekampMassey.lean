import Dhow.Lib.ReedSolomon
import Mathlib.LinearAlgebra.Lagrange
import Mathlib.Tactic.LinearCombination

/-!
# The Berlekamp-Massey algorithm

The shortest recurrence that a sequence of syndromes obeys, found one syndrome at a time. Where
the syndromes are those of few errors it is the locator of the errors, and Forney's formula gives
their values.
-/

namespace ReedSolomon
open Polynomial

variable {F : Type} [Field F]

/-! ### The recurrence -/

/-- The recurrence found so far, and the last one before it became longer with what that one
missed its next syndrome by and how far back that is. -/
structure Massey (F : Type) [Field F] where
  locator : F[X]
  prev : F[X]
  discrepancy : F
  length : ℕ
  shift : ℕ

namespace Massey

noncomputable def start : Massey F := ⟨1, 1, 1, 0, 1⟩

noncomputable def repaired (m : Massey F) (d : F) : F[X] :=
  m.locator - C (d / m.discrepancy) * (X ^ m.shift * m.prev)

open Classical in
/-- The step for syndrome `n`, which the recurrence misses by `d`. -/
noncomputable def next (m : Massey F) (n : ℕ) (d : F) : Massey F :=
  if d = 0 then { m with shift := m.shift + 1 }
  else if 2 * m.length ≤ n then ⟨m.repaired d, m.locator, d, n + 1 - m.length, 1⟩
  else { m with locator := m.repaired d, shift := m.shift + 1 }

/-- The recurrence `m` fits the coefficients of `s` below `n`. Both recurrences are read on
`1 + X * s`, on which the empty one before the first syndrome misses its place by one. -/
structure Fits (s : F[X]) (n : ℕ) (m : Massey F) : Prop where
  coeff_zero : m.locator.coeff 0 = 1
  natDegree_le : m.locator.natDegree ≤ m.length
  natDegree_prev_le : m.prev.natDegree + m.shift + m.length ≤ n + 1
  shift_pos : 0 < m.shift
  discrepancy_ne : m.discrepancy ≠ 0
  agrees : ∀ k, m.length < k → k ≤ n → (m.locator * (1 + X * s)).coeff k = 0
  agrees_prev : ∀ k, n + 1 < k + m.shift + m.length → k + m.shift < n + 1 →
    (m.prev * (1 + X * s)).coeff k = 0
  misses_prev : (m.prev * (1 + X * s)).coeff (n + 1 - m.shift) = m.discrepancy

lemma fits_start (s : F[X]) : Fits s 0 start where
  coeff_zero := coeff_one_zero
  natDegree_le := by simp [start]
  natDegree_prev_le := by simp [start]
  shift_pos := by simp [start]
  discrepancy_ne := one_ne_zero
  agrees k hk h := by simp only [start] at hk; omega
  agrees_prev k _ h := by simp only [start] at h; omega
  misses_prev := by simp [start]

variable {s : F[X]} {n : ℕ} {m : Massey F}

lemma coeff_mul_one_add (p s : F[X]) (k : ℕ) :
    (p * (1 + X * s)).coeff (k + 1) = p.coeff (k + 1) + (p * s).coeff k := by
  rw [mul_add, mul_one, coeff_add, mul_left_comm, coeff_X_mul]

namespace Fits

lemma length_le (h : Fits s n m) : m.length ≤ n := by
  have := h.natDegree_prev_le
  have := h.shift_pos
  omega

/-- What the recurrence misses the next syndrome by. -/
lemma misses (h : Fits s n m) :
    (m.locator * (1 + X * s)).coeff (n + 1) = (m.locator * s).coeff n := by
  rw [coeff_mul_one_add, coeff_eq_zero_of_natDegree_lt, zero_add]
  have := h.natDegree_le
  have := h.length_le
  omega

lemma coeff_repaired (d : F) (k : ℕ) : (m.repaired d * (1 + X * s)).coeff k =
    (m.locator * (1 + X * s)).coeff k - d / m.discrepancy *
      if m.shift ≤ k then (m.prev * (1 + X * s)).coeff (k - m.shift) else 0 := by
  rw [repaired, sub_mul, coeff_sub, mul_assoc, coeff_C_mul, mul_assoc, coeff_X_pow_mul']

variable {d : F} (h : Fits s n m) (hd : (m.locator * s).coeff n = d)
include h

lemma natDegree_repaired : (m.repaired d).natDegree ≤ max m.length (n + 1 - m.length) := by
  have h1 := h.natDegree_le
  have h2 := h.natDegree_prev_le
  have h3 : (C (d / m.discrepancy) * (X ^ m.shift * m.prev)).natDegree ≤ m.shift + m.prev.natDegree :=
    (natDegree_C_mul_le _ _).trans (natDegree_mul_le.trans (by rw [natDegree_X_pow]))
  exact (natDegree_sub_le _ _).trans (max_le_max h1 (by omega))

lemma coeff_zero_repaired : (m.repaired d).coeff 0 = 1 := by
  rw [repaired, coeff_sub, coeff_C_mul, coeff_X_pow_mul', if_neg (by have := h.shift_pos; omega),
    mul_zero, sub_zero, h.coeff_zero]

include hd in
/-- The repaired recurrence fits one syndrome more. -/
lemma agrees_repaired (k : ℕ) (hk : max m.length (n + 1 - m.length) < k) (hkn : k ≤ n + 1) :
    (m.repaired d * (1 + X * s)).coeff k = 0 := by
  have hs := h.shift_pos
  have hp := h.natDegree_prev_le
  rw [coeff_repaired, if_pos (by omega)]
  rcases Nat.lt_or_ge n k with hn | hn
  · obtain rfl : k = n + 1 := by omega
    rw [h.misses, hd, h.misses_prev, div_mul_cancel₀ _ h.discrepancy_ne, sub_self]
  · rw [h.agrees k (by omega) hn, h.agrees_prev (k - m.shift) (by omega) (by omega), mul_zero,
      sub_zero]

/-- The recurrence before agrees as far as it did, one syndrome on. -/
lemma agrees_prev_later (k : ℕ) (hk : n + 1 + 1 < k + (m.shift + 1) + m.length)
    (hkn : k + (m.shift + 1) < n + 1 + 1) : (m.prev * (1 + X * s)).coeff k = 0 :=
  h.agrees_prev k (by omega) (by omega)

lemma misses_prev_later :
    (m.prev * (1 + X * s)).coeff (n + 1 + 1 - (m.shift + 1)) = m.discrepancy := by
  rw [Nat.add_sub_add_right]
  exact h.misses_prev

include hd in
lemma next : Fits s (n + 1) (m.next n d) := by
  have hs := h.shift_pos
  have hp := h.natDegree_prev_le
  have hl := h.length_le
  unfold Massey.next
  split_ifs with hd0 hlen
  · -- the recurrence stands
    refine ⟨h.coeff_zero, h.natDegree_le, ?_, Nat.succ_pos _, h.discrepancy_ne, ?_, ?_, ?_⟩
    · change m.prev.natDegree + (m.shift + 1) + m.length ≤ _
      omega
    · intro k hk hkn
      rcases Nat.lt_or_ge n k with hn | hn
      · obtain rfl : k = n + 1 := by omega
        rw [h.misses, hd, hd0]
      · exact h.agrees k hk hn
    · exact h.agrees_prev_later
    · exact h.misses_prev_later
  · -- it becomes longer
    have hmax : max m.length (n + 1 - m.length) = n + 1 - m.length := by omega
    refine ⟨h.coeff_zero_repaired, ?_, ?_, Nat.one_pos, hd0, ?_, ?_, ?_⟩
    · exact h.natDegree_repaired.trans_eq hmax
    · change m.locator.natDegree + 1 + (n + 1 - m.length) ≤ _
      have := h.natDegree_le
      omega
    · intro k hk hkn
      exact h.agrees_repaired hd k (by rw [hmax]; exact hk) hkn
    · intro k hk hkn
      change _ < k + 1 + (n + 1 - m.length) at hk
      change k + 1 < _ at hkn
      exact h.agrees k (by omega) (by omega)
    · change (m.locator * (1 + X * s)).coeff (n + 1 + 1 - 1) = d
      rw [Nat.add_sub_cancel, h.misses, hd]
  · -- it is repaired at its length
    have hmax : max m.length (n + 1 - m.length) = m.length := by omega
    refine ⟨h.coeff_zero_repaired, ?_, ?_, Nat.succ_pos _, h.discrepancy_ne, ?_, ?_, ?_⟩
    · exact h.natDegree_repaired.trans_eq hmax
    · change m.prev.natDegree + (m.shift + 1) + m.length ≤ _
      omega
    · intro k hk hkn
      exact h.agrees_repaired hd k (by rw [hmax]; exact hk) hkn
    · exact h.agrees_prev_later
    · exact h.misses_prev_later

end Fits

/-! ### Its length is the least -/

/-- The recurrence `p` of length `l` holds for the coefficients of `s` below `n`. -/
structure Recurs (s : F[X]) (n : ℕ) (p : F[X]) (l : ℕ) : Prop where
  coeff_zero : p.coeff 0 = 1
  natDegree_le : p.natDegree ≤ l
  agrees : ∀ k, l < k → k ≤ n → (p * (1 + X * s)).coeff k = 0

lemma Fits.recurs (h : Fits s n m) : Recurs s n m.locator m.length :=
  ⟨h.coeff_zero, h.natDegree_le, h.agrees⟩

lemma coeff_mul_of_agrees {p q : F[X]} {a b : ℕ} (hp : p.natDegree ≤ a)
    (hq : ∀ k, b < k → k ≤ n → q.coeff k = 0) (hab : a + b ≤ n) :
    (p * q).coeff (n + 1) = p.coeff 0 * q.coeff (n + 1) := by
  rw [coeff_mul]
  apply Finset.sum_eq_single_of_mem (0, n + 1) (Finset.HasAntidiagonal.mem_antidiagonal.mpr (Nat.zero_add _))
  rintro ⟨i, j⟩ hij hne
  have hij : i + j = n + 1 := Finset.HasAntidiagonal.mem_antidiagonal.mp hij
  rcases Nat.lt_or_ge a i with hi | hi
  · rw [coeff_eq_zero_of_natDegree_lt (by omega), zero_mul]
  · have hi0 : i ≠ 0 := by
      rintro rfl
      exact hne (by rw [← hij, Nat.zero_add])
    rw [hq j (by omega) (by omega), mul_zero]

/-- Where the recurrence misses, one that holds there is as long as the repair. -/
lemma Fits.lt_of_misses {d : F} {l : ℕ} {p : F[X]} (h : Fits s n m)
    (hd : (m.locator * s).coeff n = d) (hd0 : d ≠ 0) (hp : Recurs s (n + 1) p l) :
    n < l + m.length := by
  by_contra hle
  have h1 := coeff_mul_of_agrees hp.natDegree_le h.agrees (by omega)
  have h2 := coeff_mul_of_agrees h.natDegree_le (fun k hk hkn => hp.agrees k hk (by omega))
    (show m.length + l ≤ n by omega)
  rw [hp.coeff_zero, one_mul, h.misses, hd] at h1
  rw [hp.agrees (n + 1) (by omega) le_rfl, mul_zero] at h2
  rw [mul_left_comm] at h1
  exact hd0 (h1.symm.trans h2)

/-- No recurrence that holds is shorter. -/
lemma Fits.length_next_le {l : ℕ} {p : F[X]} (h : Fits s n m) (hl : m.length ≤ l)
    (hp : Recurs s (n + 1) p l) :
    (m.next n ((m.locator * s).coeff n)).length ≤ l := by
  unfold Massey.next
  split_ifs with hd0 hlen
  · exact hl
  · have := h.lt_of_misses rfl hd0 hp
    change n + 1 - m.length ≤ l
    omega
  · exact hl

end Massey

/-! ### The locator of errors -/

section Factors
variable {α : F}

lemma natDegree_factors_le (s : Finset ℕ) :
    (∏ i ∈ s, (1 - C (α ^ i) * X)).natDegree ≤ s.card := by
  refine (natDegree_prod_le _ _).trans ?_
  rw [Finset.card_eq_sum_ones]
  apply Finset.sum_le_sum
  intro i _
  refine (natDegree_sub_le _ _).trans ?_
  rw [natDegree_one, Nat.zero_max]
  exact (natDegree_C_mul_le _ _).trans natDegree_X_le

lemma coeff_zero_factors (s : Finset ℕ) : (∏ i ∈ s, (1 - C (α ^ i) * X)).coeff 0 = 1 := by
  simp [coeff_zero_eq_eval_zero, eval_prod]

/-- The factor of a place vanishes at the inverse of its power, and at no other one's. -/
lemma eval_factor (hα : α ≠ 0) {n i j : ℕ} (hinj : Set.InjOn (fun i => α ^ i) (Set.Iio n))
    (hi : i < n) (hj : j < n) : (1 - C (α ^ i) * X : F[X]).eval (α ^ j)⁻¹ = 0 ↔ i = j := by
  rw [eval_sub, eval_one, eval_C_mul, eval_X, sub_eq_zero, eq_comm, ← div_eq_mul_inv,
    div_eq_one_iff_eq (pow_ne_zero j hα)]
  exact hinj.eq_iff hi hj

end Factors

section Errors
variable (α : F) (n : ℕ) (e : ℕ → F)

/-- The polynomial of the first syndromes. -/
noncomputable def syndromes (parity : ℕ) : F[X] :=
  ∑ j ∈ Finset.range parity, C (syndrome α n e j) * X ^ j

variable {α n e} {parity : ℕ}

lemma coeff_syndromes (j : ℕ) :
    (syndromes α n e parity).coeff j = if j < parity then syndrome α n e j else 0 := by
  simp [syndromes, coeff_C_mul, coeff_X_pow]

/-- A coefficient that the recurrence `p` is to make zero. -/
lemma coeff_mul_syndromes {p : F[X]} {l m : ℕ} (hp : p.natDegree ≤ l) (hm : l + m < parity) :
    (p * syndromes α n e parity).coeff (l + m) =
      ∑ k ∈ Finset.range (l + 1), p.coeff k * syndrome α n e (l - k + m) := by
  rw [coeff_mul, Finset.Nat.sum_antidiagonal_eq_sum_range_succ_mk]
  symm
  apply Finset.sum_subset_zero_on_sdiff (Finset.range_mono (by omega))
  · intro k hk
    have hk : ¬k < l + 1 := by simpa using (Finset.mem_sdiff.mp hk).2
    rw [coeff_eq_zero_of_natDegree_lt (by omega), zero_mul]
  · intro k hk
    have hk := Finset.mem_range.mp hk
    rw [coeff_syndromes, if_pos (by omega), show l + m - k = l - k + m by omega]

variable [DecidableEq F] (α n e)

/-- The places of the errors. -/
def places : Finset ℕ := (Finset.range n).filter fun i => e i ≠ 0

noncomputable def locator : F[X] := ∏ i ∈ places n e, (1 - C (α ^ i) * X)

noncomputable def evaluator : F[X] :=
  ∑ i ∈ places n e, C (e i) * ∏ q ∈ (places n e).erase i, (1 - C (α ^ q) * X)

variable {α n e}

lemma mem_places {i : ℕ} : i ∈ places n e ↔ i < n ∧ e i ≠ 0 := by
  rw [places, Finset.mem_filter, Finset.mem_range]

lemma syndrome_eq_sum (j : ℕ) :
    syndrome α n e j = ∑ i ∈ places n e, e i * (α ^ i) ^ j := by
  rw [syndrome, places, Finset.sum_filter_of_ne]
  intro i _ hne hei
  exact hne (by rw [hei, zero_mul])

/-- The syndromes are a sum of geometric series, one for each error. -/
lemma syndromes_eq_sum : syndromes α n e parity =
    ∑ i ∈ places n e, C (e i) * ∑ j ∈ Finset.range parity, (C (α ^ i) * X) ^ j := by
  rw [syndromes]
  simp only [syndrome_eq_sum, map_sum, Finset.sum_mul, Finset.mul_sum]
  rw [Finset.sum_comm]
  apply Finset.sum_congr rfl
  intro i _
  apply Finset.sum_congr rfl
  intro j _
  rw [map_mul, mul_pow, map_pow, mul_assoc]

/-- The key equation. -/
lemma locator_mul_syndromes : ∃ r : F[X],
    locator α n e * syndromes α n e parity = evaluator α n e - X ^ parity * r := by
  refine ⟨∑ i ∈ places n e, C (e i) *
    ((∏ q ∈ (places n e).erase i, (1 - C (α ^ q) * X)) * C (α ^ i) ^ parity), ?_⟩
  rw [syndromes_eq_sum, evaluator, Finset.mul_sum, Finset.mul_sum, ← Finset.sum_sub_distrib]
  apply Finset.sum_congr rfl
  intro i hi
  rw [locator, ← Finset.mul_prod_erase _ _ hi]
  have hgeom := mul_neg_geom_sum (C (α ^ i) * X) parity
  rw [mul_pow] at hgeom
  linear_combination (C (e i) * ∏ q ∈ (places n e).erase i, (1 - C (α ^ q) * X)) * hgeom

lemma natDegree_evaluator_lt (hpos : (places n e).Nonempty) :
    (evaluator α n e).natDegree < (places n e).card := by
  have hcard := Finset.card_pos.mpr hpos
  have hle : (evaluator α n e).natDegree ≤ (places n e).card - 1 := by
    apply natDegree_sum_le_of_forall_le
    intro i hi
    refine (natDegree_C_mul_le _ _).trans ((natDegree_factors_le _).trans_eq ?_)
    rw [Finset.card_erase_of_mem hi]
  omega

/-- Below the parity the product of the locator with the syndromes is the evaluator. -/
lemma coeff_locator_mul_syndromes {k : ℕ} (hk : k < parity) :
    (locator α n e * syndromes α n e parity).coeff k = (evaluator α n e).coeff k := by
  obtain ⟨r, hr⟩ : ∃ r : F[X], locator α n e * syndromes α n e parity =
    evaluator α n e - X ^ parity * r := locator_mul_syndromes
  rw [hr, coeff_sub, coeff_X_pow_mul', if_neg (by omega), sub_zero]

lemma coeff_evaluator_of_le {k : ℕ} (hk : (places n e).card ≤ k) :
    (evaluator α n e).coeff k = 0 := by
  rcases (places n e).eq_empty_or_nonempty with h | h
  · rw [evaluator, h, Finset.sum_empty, coeff_zero]
  · exact coeff_eq_zero_of_natDegree_lt ((natDegree_evaluator_lt h).trans_le hk)

/-- The locator is a recurrence of the syndromes as long as there are errors. -/
lemma recurs_locator :
    Massey.Recurs (syndromes α n e parity) parity (locator α n e) (places n e).card where
  coeff_zero := coeff_zero_factors _
  natDegree_le := natDegree_factors_le _
  agrees k hk hkn := by
    obtain ⟨k, rfl⟩ : ∃ j, k = j + 1 := ⟨k - 1, by omega⟩
    rw [Massey.coeff_mul_one_add, coeff_locator_mul_syndromes (by omega),
      coeff_evaluator_of_le (by omega), add_zero]
    exact coeff_eq_zero_of_natDegree_lt ((natDegree_factors_le _).trans_lt hk)

lemma natDegree_locator (hα : α ≠ 0) : (locator α n e).natDegree = (places n e).card := by
  have hfactor : ∀ i, (1 - C (α ^ i) * X : F[X]).natDegree = 1 := by
    intro i
    rw [show (1 - C (α ^ i) * X : F[X]) = C (-α ^ i) * X + C 1 by rw [C_neg, C_1]; ring]
    exact natDegree_linear (neg_ne_zero.mpr (pow_ne_zero i hα))
  rw [locator, natDegree_prod, Finset.card_eq_sum_ones]
  · exact Finset.sum_congr rfl fun i _ => hfactor i
  · intro i _ h
    have := hfactor i
    rw [h, natDegree_zero] at this
    exact zero_ne_one this

lemma eval_locator (hα : α ≠ 0) (hinj : Set.InjOn (fun i => α ^ i) (Set.Iio n)) {j : ℕ}
    (hj : j < n) : (locator α n e).eval (α ^ j)⁻¹ = 0 ↔ j ∈ places n e := by
  rw [locator, eval_prod, Finset.prod_eq_zero_iff]
  constructor
  · rintro ⟨i, hi, h⟩
    rw [eval_factor hα hinj (mem_places.mp hi).1 hj] at h
    exact h ▸ hi
  · intro h
    exact ⟨j, h, (eval_factor hα hinj hj hj).mpr rfl⟩

/-- A recurrence of the syndromes no longer than there are errors vanishes where the locator
does. -/
lemma eval_recurs_eq_zero (hα : α ≠ 0) (hinj : Set.InjOn (fun i => α ^ i) (Set.Iio n))
    (hpar : 2 * (places n e).card ≤ parity) {p : F[X]} {l : ℕ}
    (hp : Massey.Recurs (syndromes α n e parity) parity p l) (hl : l ≤ (places n e).card) {j : ℕ}
    (hj : j ∈ places n e) : p.eval (α ^ j)⁻¹ = 0 := by
  set ν := (places n e).card with hν
  have hdeg : p.natDegree < ν + 1 := by
    have := hp.natDegree_le
    omega
  -- the errors, each times the value of the recurrence at its place, have no syndromes
  let f : ℕ → F := fun i => e i * ((α ^ i) ^ ν * p.eval (α ^ i)⁻¹)
  have hterm : ∀ i, (α ^ i) ^ ν * p.eval (α ^ i)⁻¹ =
      ∑ k ∈ Finset.range (ν + 1), p.coeff k * (α ^ i) ^ (ν - k) := by
    intro i
    rw [eval_eq_sum_range' hdeg, Finset.mul_sum]
    apply Finset.sum_congr rfl
    intro k hk
    have hk := Finset.mem_range.mp hk
    have hne : (α ^ i) ^ k ≠ 0 := pow_ne_zero k (pow_ne_zero i hα)
    rw [← Nat.sub_add_cancel (Nat.le_of_lt_succ hk), pow_add, Nat.add_sub_cancel, inv_pow]
    field_simp
  have hsyn : ∀ m < ν, syndrome α n f m = 0 := by
    intro m hm
    have hcoeff : (p * syndromes α n e parity).coeff (ν + m) = 0 := by
      have h := hp.agrees (ν + m + 1) (by omega) (by omega)
      rwa [Massey.coeff_mul_one_add, coeff_eq_zero_of_natDegree_lt (by omega), zero_add] at h
    rw [← hcoeff, coeff_mul_syndromes (by omega) (by omega)]
    simp only [syndrome, f, hterm, Finset.mul_sum, Finset.sum_mul]
    rw [Finset.sum_comm]
    apply Finset.sum_congr rfl
    intro k _
    apply Finset.sum_congr rfl
    intro i _
    ring
  have hzero : f j = 0 := by
    apply eq_zero_of_card_le hinj hsyn _ (mem_places.mp hj).1
    apply Finset.card_le_card
    intro i hi
    rw [Finset.mem_filter] at hi
    exact mem_places.mpr ⟨Finset.mem_range.mp hi.1, fun h => hi.2 (by simp [f, h])⟩
  have hne : e j * (α ^ j) ^ ν ≠ 0 :=
    mul_ne_zero (mem_places.mp hj).2 (pow_ne_zero ν (pow_ne_zero j hα))
  rw [show f j = e j * (α ^ j) ^ ν * p.eval (α ^ j)⁻¹ from (mul_assoc _ _ _).symm] at hzero
  exact (mul_eq_zero.mp hzero).resolve_left hne

/-- The shortest recurrence of the syndromes of few errors is their locator. -/
theorem eq_locator (hα : α ≠ 0) (hinj : Set.InjOn (fun i => α ^ i) (Set.Iio n))
    (hpar : 2 * (places n e).card ≤ parity) {p : F[X]} {l : ℕ}
    (hp : Massey.Recurs (syndromes α n e parity) parity p l) (hl : l ≤ (places n e).card) :
    p = locator α n e := by
  -- the two agree at zero and at the inverse of each place's power
  let roots : Finset F := insert 0 ((places n e).image fun j => (α ^ j)⁻¹)
  have hcard : roots.card = (places n e).card + 1 := by
    rw [Finset.card_insert_of_notMem, Finset.card_image_of_injOn]
    · intro i hi j hj hij
      exact hinj (mem_places.mp hi).1 (mem_places.mp hj).1 (inv_injective hij)
    · intro h
      obtain ⟨j, -, hj⟩ := Finset.mem_image.mp h
      exact inv_ne_zero (pow_ne_zero j hα) hj
  have hdeg : (p - locator α n e).degree < roots.card := by
    rw [hcard, degree_lt_iff_coeff_zero]
    intro k hk
    have h1 := hp.natDegree_le
    have h2 : (locator α n e).natDegree ≤ (places n e).card := natDegree_factors_le _
    rw [coeff_sub, coeff_eq_zero_of_natDegree_lt (by omega), coeff_eq_zero_of_natDegree_lt (by omega),
      sub_zero]
  apply eq_of_degree_sub_lt_of_eval_finset_eq roots hdeg
  intro x hx
  rcases Finset.mem_insert.mp hx with rfl | hx
  · rw [← coeff_zero_eq_eval_zero, ← coeff_zero_eq_eval_zero, hp.coeff_zero, locator,
      coeff_zero_factors]
  · obtain ⟨j, hj, rfl⟩ := Finset.mem_image.mp hx
    rw [eval_recurs_eq_zero hα hinj hpar hp hl hj,
      (eval_locator hα hinj (mem_places.mp hj).1).mpr hj]

/-! ### Forney's formula -/

lemma eval_evaluator (hα : α ≠ 0) (hinj : Set.InjOn (fun i => α ^ i) (Set.Iio n)) {j : ℕ}
    (hj : j ∈ places n e) : (evaluator α n e).eval (α ^ j)⁻¹ =
      e j * (∏ q ∈ (places n e).erase j, (1 - C (α ^ q) * X)).eval (α ^ j)⁻¹ := by
  rw [evaluator, eval_finsetSum, Finset.sum_eq_single_of_mem j hj, eval_C_mul]
  intro i hi hij
  rw [eval_C_mul, eval_prod, Finset.prod_eq_zero (Finset.mem_erase.mpr ⟨hij.symm, hj⟩), mul_zero]
  exact (eval_factor hα hinj (mem_places.mp hj).1 (mem_places.mp hj).1).mpr rfl

lemma eval_derivative_locator (hα : α ≠ 0) (hinj : Set.InjOn (fun i => α ^ i) (Set.Iio n)) {j : ℕ}
    (hj : j ∈ places n e) : (derivative (locator α n e)).eval (α ^ j)⁻¹ =
      -(α ^ j * (∏ q ∈ (places n e).erase j, (1 - C (α ^ q) * X)).eval (α ^ j)⁻¹) := by
  have hroot := (eval_factor (n := n) hα hinj (mem_places.mp hj).1 (mem_places.mp hj).1).mpr rfl
  rw [locator, ← Finset.mul_prod_erase _ _ hj, derivative_mul, eval_add, eval_mul, eval_mul, hroot,
    zero_mul, add_zero, derivative_sub, derivative_one, derivative_C_mul, derivative_X, mul_one,
    zero_sub, eval_neg, eval_C, neg_mul]

lemma eval_others_ne_zero (hα : α ≠ 0) (hinj : Set.InjOn (fun i => α ^ i) (Set.Iio n)) {j : ℕ}
    (hj : j ∈ places n e) :
    (∏ q ∈ (places n e).erase j, (1 - C (α ^ q) * X)).eval (α ^ j)⁻¹ ≠ 0 := by
  rw [eval_prod, Finset.prod_ne_zero_iff]
  intro i hi h
  obtain ⟨hij, hi⟩ := Finset.mem_erase.mp hi
  exact hij ((eval_factor hα hinj (mem_places.mp hi).1 (mem_places.mp hj).1).mp h)

lemma eval_derivative_ne_zero (hα : α ≠ 0) (hinj : Set.InjOn (fun i => α ^ i) (Set.Iio n)) {j : ℕ}
    (hj : j ∈ places n e) : (derivative (locator α n e)).eval (α ^ j)⁻¹ ≠ 0 := by
  rw [eval_derivative_locator hα hinj hj, neg_ne_zero]
  exact mul_ne_zero (pow_ne_zero j hα) (eval_others_ne_zero hα hinj hj)

/-- The value of an error from the locator and the evaluator. -/
theorem forney (hα : α ≠ 0) (hinj : Set.InjOn (fun i => α ^ i) (Set.Iio n)) {j : ℕ}
    (hj : j ∈ places n e) :
    α ^ j * ((evaluator α n e).eval (α ^ j)⁻¹ / (derivative (locator α n e)).eval (α ^ j)⁻¹) =
      -e j := by
  have h1 := pow_ne_zero j hα
  have h2 := eval_others_ne_zero hα hinj hj
  rw [eval_evaluator hα hinj hj, eval_derivative_locator hα hinj hj, div_neg, mul_neg,
    mul_div_mul_right _ _ h2, mul_div_cancel₀ _ h1]

end Errors
end ReedSolomon
