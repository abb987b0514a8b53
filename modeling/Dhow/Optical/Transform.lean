import Mathlib.Algebra.Notation.Defs
import Mathlib.Tactic.Common

/-!
# Perspective transforms

The file `transform.go` of the package `optical`: projective maps of the plane as matrices, and
the one that takes four points to four others.
-/

namespace Dhow.Optical

/-- `aRC` takes coordinate R of a point to coordinate C of its image. -/
structure Transform (F : Type) where
  a11 : F
  a21 : F
  a31 : F
  a12 : F
  a22 : F
  a32 : F
  a13 : F
  a23 : F
  a33 : F
  deriving DecidableEq

section Transform
variable {F : Type} [Add F] [Sub F] [Mul F] [Div F] [Zero F] [One F] [BEq F]

namespace Transform

def apply (t : Transform F) (x y : F) : F × F :=
  let denominator := t.a13 * x + t.a23 * y + t.a33
  -- A point on the horizon has no image.
  if denominator == 0 then (0, 0)
  else ((t.a11 * x + t.a21 * y + t.a31) / denominator,
    (t.a12 * x + t.a22 * y + t.a32) / denominator)

def adjoint (t : Transform F) : Transform F where
  a11 := t.a22 * t.a33 - t.a23 * t.a32
  a21 := t.a23 * t.a31 - t.a21 * t.a33
  a31 := t.a21 * t.a32 - t.a22 * t.a31
  a12 := t.a13 * t.a32 - t.a12 * t.a33
  a22 := t.a11 * t.a33 - t.a13 * t.a31
  a32 := t.a12 * t.a31 - t.a11 * t.a32
  a13 := t.a12 * t.a23 - t.a13 * t.a22
  a23 := t.a13 * t.a21 - t.a11 * t.a23
  a33 := t.a11 * t.a22 - t.a12 * t.a21

def times (t o : Transform F) : Transform F where
  a11 := t.a11 * o.a11 + t.a21 * o.a12 + t.a31 * o.a13
  a21 := t.a11 * o.a21 + t.a21 * o.a22 + t.a31 * o.a23
  a31 := t.a11 * o.a31 + t.a21 * o.a32 + t.a31 * o.a33
  a12 := t.a12 * o.a11 + t.a22 * o.a12 + t.a32 * o.a13
  a22 := t.a12 * o.a21 + t.a22 * o.a22 + t.a32 * o.a23
  a32 := t.a12 * o.a31 + t.a22 * o.a32 + t.a32 * o.a33
  a13 := t.a13 * o.a11 + t.a23 * o.a12 + t.a33 * o.a13
  a23 := t.a13 * o.a21 + t.a23 * o.a22 + t.a33 * o.a23
  a33 := t.a13 * o.a31 + t.a23 * o.a32 + t.a33 * o.a33

end Transform

/-- Four points, in the order of the corners (0, 0), (1, 0), (1, 1) and (0, 1). -/
structure Quad (F : Type) where
  x₀ : F
  y₀ : F
  x₁ : F
  y₁ : F
  x₂ : F
  y₂ : F
  x₃ : F
  y₃ : F
  deriving DecidableEq

def squareToQuad (q : Quad F) : Option (Transform F) :=
  let dx3 := q.x₀ - q.x₁ + q.x₂ - q.x₃
  let dy3 := q.y₀ - q.y₁ + q.y₂ - q.y₃
  if dx3 == 0 && dy3 == 0 then
    some ⟨q.x₁ - q.x₀, q.x₂ - q.x₁, q.x₀, q.y₁ - q.y₀, q.y₂ - q.y₁, q.y₀, 0, 0, 1⟩
  else
    let dx1 := q.x₁ - q.x₂
    let dx2 := q.x₃ - q.x₂
    let dy1 := q.y₁ - q.y₂
    let dy2 := q.y₃ - q.y₂
    let denominator := dx1 * dy2 - dx2 * dy1
    if denominator == 0 then none
    else
      let a13 := (dx3 * dy2 - dx2 * dy3) / denominator
      let a23 := (dx1 * dy3 - dx3 * dy1) / denominator
      some ⟨q.x₁ - q.x₀ + a13 * q.x₁, q.x₃ - q.x₀ + a23 * q.x₃, q.x₀,
        q.y₁ - q.y₀ + a13 * q.y₁, q.y₃ - q.y₀ + a23 * q.y₃, q.y₀, a13, a23, 1⟩

/-- The first quadrilateral onto the second, through the unit square. -/
def quadToQuad (source destination : Quad F) : Option (Transform F) :=
  match squareToQuad source, squareToQuad destination with
  | some s, some d => some (d.times s.adjoint)
  | _, _ => none

end Transform

end Dhow.Optical
