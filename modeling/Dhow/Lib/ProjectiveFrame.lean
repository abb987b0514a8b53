import Mathlib.LinearAlgebra.LinearIndependent.Basic
import Mathlib.LinearAlgebra.Matrix.Adjugate
import Mathlib.Tactic.FinCases
import Mathlib.Tactic.LinearCombination

/-!
# Projective frames

A map of the projective plane is told by where it takes four points, no three of them on a line.
Two linear maps that take each of four vectors to the same lines are multiples of each other, and
so the points they take a point to are the same.
-/

namespace ProjectiveFrame

section Linear
variable {K V W : Type} [Field K] [AddCommGroup V] [Module K V] [AddCommGroup W] [Module K W]

lemma smul_eq_smul_of_frame {M N : V →ₗ[K] W} {e₀ e₁ e₂ e₃ : V} {d₀ d₁ d₂ d₃ : W}
    {m₀ m₁ m₂ m₃ n₀ n₁ n₂ n₃ : K} (hspan : ∀ v, ∃ a b c : K, v = a • e₀ + b • e₁ + c • e₃)
    (hsquare : e₀ + e₂ = e₁ + e₃) (hd : LinearIndependent K ![d₁, d₂, d₃])
    (hM₀ : M e₀ = m₀ • d₀) (hM₁ : M e₁ = m₁ • d₁) (hM₂ : M e₂ = m₂ • d₂) (hM₃ : M e₃ = m₃ • d₃)
    (hN₀ : N e₀ = n₀ • d₀) (hN₁ : N e₁ = n₁ • d₁) (hN₂ : N e₂ = n₂ • d₂) (hN₃ : N e₃ = n₃ • d₃) :
    n₀ • M = m₀ • N := by
  have hM := congrArg M hsquare
  have hN := congrArg N hsquare
  rw [map_add, map_add, hM₀, hM₁, hM₂, hM₃] at hM
  rw [map_add, map_add, hN₀, hN₁, hN₂, hN₃] at hN
  -- What the two maps leave of the fourth vector is a combination of the other three images.
  have hrel : (n₀ * m₁ - m₀ * n₁) • d₁ + (m₀ * n₂ - n₀ * m₂) • d₂ +
      (n₀ * m₃ - m₀ * n₃) • d₃ = 0 := by
    have hM' : m₁ • d₁ - m₂ • d₂ + m₃ • d₃ = m₀ • d₀ := by
      rw [eq_sub_of_add_eq hM]
      abel
    have hN' : n₁ • d₁ - n₂ • d₂ + n₃ • d₃ = n₀ • d₀ := by
      rw [eq_sub_of_add_eq hN]
      abel
    calc _ = n₀ • (m₁ • d₁ - m₂ • d₂ + m₃ • d₃) - m₀ • (n₁ • d₁ - n₂ • d₂ + n₃ • d₃) := by
          module
      _ = 0 := by
        rw [hM', hN', smul_smul, smul_smul, mul_comm, sub_self]
  have hzero := Fintype.linearIndependent_iff.mp hd
    ![n₀ * m₁ - m₀ * n₁, m₀ * n₂ - n₀ * m₂, n₀ * m₃ - m₀ * n₃] (by
      simpa [Fin.sum_univ_three] using hrel)
  have h₁ : n₀ * m₁ - m₀ * n₁ = 0 := hzero 0
  have h₃ : n₀ * m₃ - m₀ * n₃ = 0 := hzero 2
  ext v
  obtain ⟨a, b, c, rfl⟩ := hspan v
  simp only [LinearMap.smul_apply, map_add, map_smul, hM₀, hM₁, hM₃, hN₀, hN₁, hN₃]
  have h₁' := sub_eq_zero.mp h₁
  have h₃' := sub_eq_zero.mp h₃
  calc _ = a • (n₀ * m₀) • d₀ + b • (n₀ * m₁) • d₁ + c • (n₀ * m₃) • d₃ := by module
    _ = a • (n₀ * m₀) • d₀ + b • (m₀ * n₁) • d₁ + c • (m₀ * n₃) • d₃ := by rw [h₁', h₃']
    _ = _ := by module

end Linear

section Plane
variable {K : Type} [Field K] [DecidableEq K]

/-- A point of the plane among the lines through the origin. -/
def point (x y : K) : Fin 3 → K := ![x, y, 1]

/-- The point that a line through the origin is; one on the horizon is taken for the origin. -/
def affine (v : Fin 3 → K) : K × K := if v 2 = 0 then (0, 0) else (v 0 / v 2, v 1 / v 2)

lemma affine_smul {c : K} (hc : c ≠ 0) (v : Fin 3 → K) : affine (c • v) = affine v := by
  unfold affine
  by_cases hv : v 2 = 0
  · rw [if_pos (by simp [hv]), if_pos hv]
  · rw [if_neg (by simp [hv, hc]), if_neg hv]
    simp only [Pi.smul_apply, smul_eq_mul, mul_div_mul_left _ _ hc]

lemma smul_point_affine {v : Fin 3 → K} (hv : v 2 ≠ 0) :
    v 2 • point (affine v).1 (affine v).2 = v := by
  unfold affine point
  rw [if_neg hv]
  ext i
  fin_cases i
  · exact mul_div_cancel₀ _ hv
  · exact mul_div_cancel₀ _ hv
  · exact mul_one _

/-- Twice the area of a triangle. -/
def area (x₀ y₀ x₁ y₁ x₂ y₂ : K) : K := (x₁ - x₀) * (y₂ - y₀) - (x₂ - x₀) * (y₁ - y₀)

omit [DecidableEq K] in
lemma linearIndependent_of_area {x₀ y₀ x₁ y₁ x₂ y₂ : K} (h : area x₀ y₀ x₁ y₁ x₂ y₂ ≠ 0) :
    LinearIndependent K ![point x₀ y₀, point x₁ y₁, point x₂ y₂] := by
  rw [Fintype.linearIndependent_iff]
  intro g hg
  rw [Fin.sum_univ_three] at hg
  have hx : g 0 * x₀ + g 1 * x₁ + g 2 * x₂ = 0 := congrFun hg 0
  have hy : g 0 * y₀ + g 1 * y₁ + g 2 * y₂ = 0 := congrFun hg 1
  have hw : g 0 * 1 + g 1 * 1 + g 2 * 1 = 0 := congrFun hg 2
  unfold area at h
  have h₀ : g 0 = 0 := by
    apply (mul_eq_zero.mp _).resolve_right h
    linear_combination (y₁ - y₂) * hx + (x₂ - x₁) * hy + (x₁ * y₂ - x₂ * y₁) * hw
  have h₁ : g 1 = 0 := by
    apply (mul_eq_zero.mp _).resolve_right h
    linear_combination (y₂ - y₀) * hx + (x₀ - x₂) * hy + (x₂ * y₀ - x₀ * y₂) * hw
  have h₂ : g 2 = 0 := by
    linear_combination hw - h₀ - h₁
  intro i
  fin_cases i
  · exact h₀
  · exact h₁
  · exact h₂

omit [DecidableEq K] in
/-- A linear map takes areas to multiples. -/
lemma area_map (m : Matrix (Fin 3) (Fin 3) K) {x₀ y₀ x₁ y₁ x₂ y₂ u₀ v₀ u₁ v₁ u₂ v₂ w₀ w₁ w₂ : K}
    (h₀ : m.mulVec (point x₀ y₀) = w₀ • point u₀ v₀)
    (h₁ : m.mulVec (point x₁ y₁) = w₁ • point u₁ v₁)
    (h₂ : m.mulVec (point x₂ y₂) = w₂ • point u₂ v₂) :
    w₀ * w₁ * w₂ * area u₀ v₀ u₁ v₁ u₂ v₂ = m.det * area x₀ y₀ x₁ y₁ x₂ y₂ := by
  have hmul : m * !![x₀, x₁, x₂; y₀, y₁, y₂; 1, 1, 1] =
      !![w₀ * u₀, w₁ * u₁, w₂ * u₂; w₀ * v₀, w₁ * v₁, w₂ * v₂; w₀, w₁, w₂] := by
    ext i j
    have g₀ := congrFun h₀ i
    have g₁ := congrFun h₁ i
    have g₂ := congrFun h₂ i
    fin_cases i <;> fin_cases j <;>
      simp_all [point, Matrix.mul_apply, Matrix.mulVec, dotProduct, Fin.sum_univ_three]
  have hdet := congrArg Matrix.det hmul
  rw [Matrix.det_mul] at hdet
  simp only [Matrix.det_fin_three, Matrix.of_apply, Matrix.cons_val', Matrix.cons_val_zero,
    Matrix.cons_val_one, Matrix.cons_val] at hdet ⊢
  unfold area
  linear_combination -hdet

end Plane

end ProjectiveFrame
