import Mathlib.Algebra.Field.Basic
import Mathlib.Algebra.Group.Hom.Instances
import Mathlib.Data.Fintype.EquivFin
import Mathlib.Data.List.Iterate
import Mathlib.Dynamics.PeriodicPts.Defs

/-!
# Fields of logarithms

An additive map whose iterates carry one element through all the others makes a field of its group:
a nonzero element is a power of the generator, and multiplication adds the exponents.
-/

section Orbit
variable {V : Type} [AddCommGroup V] {step : V →+ V} {one : V}

/-- An orbit that comes back never falls to zero, from which it would not. -/
lemma iterate_ne_zero {period : ℕ} (hone : one ≠ 0) (hpos : 0 < period)
    (hperiod : step^[period] one = one) (n : ℕ) : step^[n] one ≠ 0 := by
  intro h
  have hback : step^[n * period] one = one :=
    (Function.IsPeriodicPt.const_mul (m := period) hperiod n)
  rw [← Nat.sub_add_cancel (Nat.le_mul_of_pos_right n hpos), Function.iterate_add_apply, h,
    iterate_map_zero] at hback
  exact hone hback.symm

/-- An orbit as long as there are nonzero elements goes through all of them. -/
lemma mem_iterate [Fintype V] [DecidableEq V] (hone : one ≠ 0)
    (hcard : Function.minimalPeriod step one + 1 = Fintype.card V) {a : V} (ha : a ≠ 0) :
    a ∈ List.iterate step one (Function.minimalPeriod step one) := by
  set period := Function.minimalPeriod step one with hp
  have hpos : 0 < period := by
    have : 1 < Fintype.card V := Fintype.one_lt_card_iff_nontrivial.mpr ⟨one, 0, hone⟩
    omega
  let orbit := (Finset.range period).image fun n => step^[n] one
  have hinj : Set.InjOn (fun n => step^[n] one) (Finset.range period : Set ℕ) := by
    intro i hi j hj hij
    exact Function.iterate_injOn_Iio_minimalPeriod (Finset.mem_range.mp hi)
      (Finset.mem_range.mp hj) hij
  have horbit : orbit = Finset.univ.erase 0 := by
    apply Finset.eq_of_subset_of_card_le
    · intro b hb
      obtain ⟨n, -, rfl⟩ := Finset.mem_image.mp hb
      exact Finset.mem_erase.mpr
        ⟨iterate_ne_zero hone hpos Function.iterate_minimalPeriod n, Finset.mem_univ _⟩
    · rw [Finset.card_image_of_injOn hinj, Finset.card_erase_of_mem (Finset.mem_univ _),
        Finset.card_univ, Finset.card_range]
      omega
  have hmem : a ∈ orbit := by
    rw [horbit]
    exact Finset.mem_erase.mpr ⟨ha, Finset.mem_univ a⟩
  obtain ⟨n, hn, rfl⟩ := Finset.mem_image.mp hmem
  have hn := Finset.mem_range.mp hn
  exact List.mem_of_getElem? (List.getElem?_iterate step one period n hn)

end Orbit

structure Register (V : Type) [AddCommGroup V] where
  step : V →+ V
  one : V
  period : ℕ
  log : V → ℕ
  one_ne : one ≠ 0
  period_pos : 0 < period
  log_le : ∀ a, log a ≤ period
  iterate_log : ∀ a, a ≠ 0 → step^[log a] one = a
  iterate_period : step^[period] one = one

namespace Register

/-- The register of an orbit that goes through all the nonzero elements. -/
def ofMinimalPeriod {V : Type} [AddCommGroup V] [Fintype V] [DecidableEq V] (step : V →+ V)
    (one : V) (period : ℕ) (hone : one ≠ 0) (hperiod : Function.minimalPeriod step one = period)
    (hcard : period + 1 = Fintype.card V) : Register V where
  step := step
  one := one
  period := period
  log a := (List.iterate step one period).idxOf a
  one_ne := hone
  period_pos := by
    have : 1 < Fintype.card V := Fintype.one_lt_card_iff_nontrivial.mpr ⟨one, 0, hone⟩
    omega
  log_le a := List.idxOf_le_length.trans_eq (List.length_iterate ..)
  iterate_log a ha := by
    subst hperiod
    have h := List.idxOf_lt_length_of_mem (mem_iterate hone hcard ha)
    rw [← List.getElem_iterate step one _ _ h, List.getElem_idxOf]
  iterate_period := by
    subst hperiod
    exact Function.iterate_minimalPeriod

variable {V : Type} [AddCommGroup V] (R : Register V)

def power (n : ℕ) : V := R.step^[n] R.one

lemma power_log {a : V} (ha : a ≠ 0) : R.power (R.log a) = a := R.iterate_log a ha

lemma power_add (m n : ℕ) : R.power (m + n) = R.step^[m] (R.power n) :=
  Function.iterate_add_apply _ _ _ _

lemma iterate_zero (n : ℕ) : R.step^[n] 0 = 0 := iterate_map_zero R.step n

lemma power_ne_zero (n : ℕ) : R.power n ≠ 0 :=
  iterate_ne_zero R.one_ne R.period_pos R.iterate_period n

section Mul
variable [DecidableEq V]

def mul (a b : V) : V := if a = 0 ∨ b = 0 then 0 else R.power (R.log a + R.log b)

def inv (a : V) : V := if a = 0 then 0 else R.power (R.period - R.log a)

lemma mul_comm (a b : V) : R.mul a b = R.mul b a := by
  simp only [mul, or_comm, Nat.add_comm]

lemma zero_mul (b : V) : R.mul 0 b = 0 := if_pos (.inl rfl)

lemma mul_zero (a : V) : R.mul a 0 = 0 := if_pos (.inr rfl)

/-- Multiplication by a nonzero element steps the register. -/
lemma mul_eq {a : V} (ha : a ≠ 0) (b : V) : R.mul a b = R.step^[R.log a] b := by
  rw [mul]
  split_ifs with h
  · rw [h.resolve_left ha, iterate_zero]
  · rw [power_add, power_log R fun hb => h (.inr hb)]

lemma one_mul (b : V) : R.mul R.one b = b := by
  rcases eq_or_ne b 0 with rfl | hb
  · rw [mul_zero]
  · rw [mul_comm, mul_eq R hb]
    exact R.power_log hb

lemma mul_add (a b c : V) : R.mul a (b + c) = R.mul a b + R.mul a c := by
  rcases eq_or_ne a 0 with rfl | ha
  · rw [zero_mul, zero_mul, zero_mul, add_zero]
  · rw [mul_eq R ha, mul_eq R ha, mul_eq R ha, iterate_map_add]

lemma mul_power (m n : ℕ) : R.mul (R.power m) (R.power n) = R.power (m + n) := by
  rw [mul_eq R (R.power_ne_zero m), ← power_add, Nat.add_comm, power_add,
    power_log R (R.power_ne_zero m), ← power_add, Nat.add_comm]

/-- Multiplication by the generator is the step. -/
lemma power_one_mul (a : V) : R.mul (R.power 1) a = R.step a := by
  rcases eq_or_ne a 0 with rfl | ha
  · rw [mul_zero, map_zero]
  · rw [← R.power_log ha, mul_power, power_add]
    rfl

lemma mul_assoc (a b c : V) : R.mul (R.mul a b) c = R.mul a (R.mul b c) := by
  rcases eq_or_ne a 0 with rfl | ha
  · rw [zero_mul, zero_mul, zero_mul]
  rcases eq_or_ne b 0 with rfl | hb
  · rw [mul_zero, zero_mul, mul_zero]
  rcases eq_or_ne c 0 with rfl | hc
  · rw [mul_zero, mul_zero, mul_zero]
  rw [← R.power_log ha, ← R.power_log hb, ← R.power_log hc]
  simp only [mul_power, Nat.add_assoc]

lemma mul_inv_cancel {a : V} (ha : a ≠ 0) : R.mul a (R.inv a) = R.one := by
  have h := R.mul_power (R.log a) (R.period - R.log a)
  rw [power_log R ha, Nat.add_sub_cancel' (R.log_le a)] at h
  rw [inv, if_neg ha, h]
  exact R.iterate_period

/-- The field of the register. -/
abbrev field : Field V where
  mul := R.mul
  one := R.one
  inv := R.inv
  left_distrib := R.mul_add
  right_distrib a b c := by
    change R.mul (a + b) c = R.mul a c + R.mul b c
    rw [R.mul_comm, R.mul_add, R.mul_comm c a, R.mul_comm c b]
  zero_mul := R.zero_mul
  mul_zero := R.mul_zero
  mul_assoc := R.mul_assoc
  one_mul := R.one_mul
  mul_one a := (R.mul_comm a R.one).trans (R.one_mul a)
  mul_comm := R.mul_comm
  exists_pair_ne := ⟨R.one, 0, R.one_ne⟩
  mul_inv_cancel _ := R.mul_inv_cancel
  inv_zero := if_pos rfl
  nnqsmul := _
  qsmul := _

/-- The states of the register are the powers of the first step. -/
lemma pow_eq_power (n : ℕ) : let := R.field; (R.power 1) ^ n = R.power n := by
  intro F
  induction n with
  | zero => rfl
  | succ n ih => rw [pow_succ, ih]; exact R.mul_power n 1

end Mul
end Register
