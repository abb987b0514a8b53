import Mathlib.Data.Int.Basic
import Mathlib.Tactic.Common

/-!
# Floating-point numbers

What code computes with floating-point numbers, without what the numbers are: the operations, the
comparisons and the conversions, none of which has to satisfy a law. What holds of all such
numbers holds of the 64-bit ones on every machine, NaN and infinities among them, whatever a
conversion out of range gives there.
-/

class GoFloat (F : Type) extends Add F, Sub F, Mul F, Div F, Zero F, One F, BEq F, LT F, LE F,
    OfScientific F where
  decidableLT : DecidableLT F
  decidableLE : DecidableLE F
  ofInt : ℤ → F
  /-- The conversion to a machine integer, toward zero where the number is in range. -/
  toInt : F → ℤ
  abs : F → F
  max : F → F → F
  round : F → F
  hypot : F → F → F
  sqrt2 : F
  inf : F
  nan : F
  isNaN : F → Bool
  isInf : F → Bool
  /-- Whether a number is the positive infinity. -/
  isPosInf : F → Bool

namespace GoFloat
variable {F : Type} [GoFloat F]

instance : DecidableLT F := decidableLT

instance : DecidableLE F := decidableLE

end GoFloat
