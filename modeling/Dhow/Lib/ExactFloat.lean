import Dhow.Lib.GoFloat
import Mathlib.Data.Rat.Floor

/-!
# Exact numbers

The numbers of an ordered field in place of floating-point ones: every operation is exact, and none
of them is infinite or no number.
-/

namespace ExactFloat
open GoFloat

variable {K : Type} [Field K] [LinearOrder K] [IsStrictOrderedRing K] [FloorRing K]

/-- To the next integer, halves away from zero. -/
def roundHalf (x : K) : ℤ := if 0 ≤ x then ⌊x + 1 / 2⌋ else ⌈x - 1 / 2⌉

/-- What a field does not have. Sampling makes no use of it. -/
structure Beyond (K : Type) where
  hypot : K → K → K
  sqrt2 : K
  inf : K
  nan : K

/-- Numbers that are computed without rounding. -/
abbrev exactFloat (K : Type) [Field K] [LinearOrder K] [IsStrictOrderedRing K] [FloorRing K]
    (o : Beyond K) : GoFloat K where
  decidableLT := inferInstance
  decidableLE := inferInstance
  ofInt n := n
  toInt x := if 0 ≤ x then ⌊x⌋ else ⌈x⌉
  abs x := |x|
  max := max
  round x := roundHalf x
  hypot := o.hypot
  sqrt2 := o.sqrt2
  inf := o.inf
  nan := o.nan
  isNaN _ := false
  isInf _ := false
  isPosInf x := decide (x = o.inf)

lemma toInt_round {o : Beyond K} (x : K) :
    (exactFloat K o).toInt ((exactFloat K o).round x) = roundHalf x := by
  change (if 0 ≤ (roundHalf x : K) then ⌊(roundHalf x : K)⌋ else ⌈(roundHalf x : K)⌉) = roundHalf x
  rw [Int.floor_intCast, Int.ceil_intCast, ite_self]

/-- The rational numbers, without roots. -/
abbrev rational : GoFloat ℚ := exactFloat ℚ ⟨fun _ _ => 0, 0, 0, 0⟩

end ExactFloat
