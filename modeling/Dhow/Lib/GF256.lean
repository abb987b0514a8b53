import Dhow.Lib.LogField
import Mathlib.Algebra.CharP.Two
import Mathlib.Data.UInt
import Mathlib.NumberTheory.Divisors

/-!
# The field of 256 elements

Bytes as polynomials over two elements modulo `x ^ 8 + x ^ 4 + x ^ 3 + x ^ 2 + 1`. Addition is
exclusive or, and the powers of `x` run through every nonzero byte.
-/

structure GF256 where
  byte : UInt8
  deriving DecidableEq

namespace GF256

instance : Zero GF256 := ⟨⟨0⟩⟩

instance : Add GF256 := ⟨fun a b => ⟨a.byte ^^^ b.byte⟩⟩

instance : Neg GF256 := ⟨id⟩

lemma byte_add (a b : GF256) : (a + b).byte = a.byte ^^^ b.byte := rfl

@[ext] lemma ext {a b : GF256} (h : a.byte = b.byte) : a = b := by
  cases a
  cases b
  cases h
  rfl

lemma byte_eq_zero {a : GF256} : a.byte = 0 ↔ a = 0 :=
  ⟨fun h => ext h, fun h => congrArg byte h⟩

instance : AddCommGroup GF256 where
  add_assoc _ _ _ := ext (UInt8.xor_assoc ..)
  zero_add _ := ext UInt8.zero_xor
  add_zero _ := ext UInt8.xor_zero
  add_comm _ _ := ext (UInt8.xor_comm ..)
  neg_add_cancel _ := ext UInt8.xor_self
  nsmul := nsmulRec
  zsmul := zsmulRec

lemma add_self (a : GF256) : a + a = 0 := ext UInt8.xor_self

def equivFin : GF256 ≃ Fin 256 where
  toFun a := a.byte.toFin
  invFun n := ⟨UInt8.ofFin n⟩
  left_inv _ := rfl
  right_inv _ := rfl

instance : Fintype GF256 := Fintype.ofEquiv (Fin 256) equivFin.symm

lemma card : Fintype.card GF256 = 256 := (Fintype.card_congr equivFin).trans (Fintype.card_fin 256)

/-! ### The powers of x -/

lemma top_bit : ∀ n : Fin 256, UInt8.ofFin n &&& 0x80 = 0 ∨ UInt8.ofFin n &&& 0x80 = 0x80 := by
  decide +kernel

/-- What a shift carries out of the byte comes back as the polynomial. -/
def carry (a : UInt8) : UInt8 := if a &&& 0x80 = 0 then 0 else 0x1d

lemma carry_xor (a b : UInt8) : carry (a ^^^ b) = carry a ^^^ carry b := by
  have hand : (a ^^^ b) &&& 0x80 = (a &&& 0x80) ^^^ (b &&& 0x80) := by
    apply UInt8.toBitVec_inj.mp
    simp only [UInt8.toBitVec_and, UInt8.toBitVec_xor]
    ext i
    simp [Bool.and_xor_distrib_right]
  simp only [carry, hand]
  rcases top_bit a.toFin with ha | ha <;> rcases top_bit b.toFin with hb | hb <;>
    simp only [UInt8.ofFin_toFin] at ha hb <;> rw [ha, hb] <;> decide

/-- Multiplication by `x`. -/
def double : GF256 →+ GF256 where
  toFun a := ⟨a.byte <<< 1 ^^^ carry a.byte⟩
  map_zero' := by decide
  map_add' a b := by
    ext
    simp only [byte_add, UInt8.shiftLeft_xor, carry_xor]
    ac_rfl

lemma divisors_255 : ∀ m ∈ Nat.divisors 255, m ∣ 85 ∨ m ∣ 51 ∨ m ∣ 15 ∨ m = 255 := by
  decide +kernel

/-- The powers of `x` come back after 255 steps, and not after a third, a fifth or a seventeenth
of them. -/
lemma minimalPeriod_double : Function.minimalPeriod double ⟨1⟩ = 255 := by
  have hdvd : Function.minimalPeriod double ⟨1⟩ ∣ 255 :=
    Function.IsPeriodicPt.minimalPeriod_dvd (by decide +kernel : double^[255] ⟨1⟩ = ⟨1⟩)
  have hreturn : ∀ {n}, Function.minimalPeriod double ⟨1⟩ ∣ n → double^[n] ⟨1⟩ = ⟨1⟩ :=
    fun h => Function.isPeriodicPt_iff_minimalPeriod_dvd.mpr h
  rcases divisors_255 _ (Nat.mem_divisors.mpr ⟨hdvd, by decide⟩) with h | h | h | h
  · exact absurd (hreturn h) (by decide +kernel)
  · exact absurd (hreturn h) (by decide +kernel)
  · exact absurd (hreturn h) (by decide +kernel)
  · exact h

def register : Register GF256 :=
  .ofMinimalPeriod double ⟨1⟩ 255 (by decide) minimalPeriod_double (by rw [card])

instance : Field GF256 := register.field

lemma two_eq_zero : (2 : GF256) = 0 := by
  rw [← one_add_one_eq_two]
  exact add_self 1

instance : CharP GF256 2 := CharTwo.of_one_ne_zero_of_two_eq_zero one_ne_zero two_eq_zero

/-- The polynomial `x`, which generates the field. -/
def alpha : GF256 := ⟨2⟩

lemma alpha_mul (a : GF256) : alpha * a = double a := register.power_one_mul a

lemma alpha_pow (n : ℕ) : alpha ^ n = double^[n] 1 := register.pow_eq_power n

lemma alpha_pow_255 : alpha ^ 255 = 1 := (alpha_pow 255).trans register.iterate_period

lemma alpha_ne_zero : alpha ≠ 0 := by decide

lemma alpha_pow_injOn : Set.InjOn (fun n => alpha ^ n) (Set.Iio 255) := by
  intro m hm n hn h
  rw [← minimalPeriod_double] at hm hn
  simp only [alpha_pow] at h
  exact Function.iterate_injOn_Iio_minimalPeriod hm hn h

lemma exists_alpha_pow {a : GF256} (ha : a ≠ 0) : ∃ k < 255, alpha ^ k = a := by
  have h : a ∈ List.iterate double ⟨1⟩ (Function.minimalPeriod double ⟨1⟩) :=
    mem_iterate (by decide) (by rw [minimalPeriod_double, card]) ha
  rw [minimalPeriod_double] at h
  obtain ⟨k, hk, rfl⟩ := List.getElem_of_mem h
  rw [List.length_iterate] at hk
  exact ⟨k, hk, by rw [List.getElem_iterate]; exact alpha_pow k⟩

end GF256
