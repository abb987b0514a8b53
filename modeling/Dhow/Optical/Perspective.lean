import Dhow.Lib.ProjectiveFrame
import Dhow.Optical.Transform
import Mathlib.LinearAlgebra.Matrix.ToLin

/-!
# Perspective

In exact arithmetic the transform of four correspondences is the view itself: when four points of a
symbol, no three of them on a line, are located where a camera shows them, every other point is
located where the camera shows it too, however the camera is held.
-/

namespace Dhow.Optical
open ProjectiveFrame Matrix

variable {K : Type} [Field K] [DecidableEq K]

namespace Transform

def matrix (t : Transform K) : Matrix (Fin 3) (Fin 3) K :=
  !![t.a11, t.a21, t.a31; t.a12, t.a22, t.a32; t.a13, t.a23, t.a33]

omit [DecidableEq K] in
lemma matrix_times (t o : Transform K) : (t.times o).matrix = t.matrix * o.matrix := by
  ext i j
  fin_cases i <;> fin_cases j <;> simp [matrix, times, Matrix.mul_apply, Fin.sum_univ_three]

omit [DecidableEq K] in
lemma matrix_adjoint (t : Transform K) : t.adjoint.matrix = t.matrix.adjugate := by
  rw [Matrix.adjugate_fin_three]
  ext i j
  fin_cases i <;> fin_cases j <;> simp [matrix, adjoint] <;> ring

lemma apply_eq (t : Transform K) (x y : K) :
    t.apply x y = affine (t.matrix.mulVec (point x y)) := by
  have h₀ : t.matrix.mulVec (point x y) 0 = t.a11 * x + t.a21 * y + t.a31 := by
    simp [matrix, point, Matrix.mulVec, dotProduct, Fin.sum_univ_three]
  have h₁ : t.matrix.mulVec (point x y) 1 = t.a12 * x + t.a22 * y + t.a32 := by
    simp [matrix, point, Matrix.mulVec, dotProduct, Fin.sum_univ_three]
  have h₂ : t.matrix.mulVec (point x y) 2 = t.a13 * x + t.a23 * y + t.a33 := by
    simp [matrix, point, Matrix.mulVec, dotProduct, Fin.sum_univ_three]
  unfold apply affine
  simp only [h₀, h₁, h₂, beq_iff_eq]

/-- Scale does not matter. -/
lemma apply_of_matrix {t o : Transform K} {c : K} (hc : c ≠ 0) (h : t.matrix = c • o.matrix)
    (x y : K) : t.apply x y = o.apply x y := by
  rw [apply_eq, apply_eq, h, Matrix.smul_mulVec, affine_smul hc]

end Transform

/-! ### From the unit square -/

namespace Quad

/-- No three of the points are on a line. -/
structure General (q : Quad K) : Prop where
  area₁₂₃ : area q.x₁ q.y₁ q.x₂ q.y₂ q.x₃ q.y₃ ≠ 0
  area₀₂₃ : area q.x₀ q.y₀ q.x₂ q.y₂ q.x₃ q.y₃ ≠ 0
  area₀₁₃ : area q.x₀ q.y₀ q.x₁ q.y₁ q.x₃ q.y₃ ≠ 0
  area₀₁₂ : area q.x₀ q.y₀ q.x₁ q.y₁ q.x₂ q.y₂ ≠ 0

/-- A transform that takes the corners of the unit square to multiples of the points. -/
structure Weighs (q : Quad K) (t : Transform K) (n₁ n₂ n₃ : K) : Prop where
  corner₀ : t.matrix.mulVec ![0, 0, 1] = (1 : K) • point q.x₀ q.y₀
  corner₁ : t.matrix.mulVec ![1, 0, 1] = n₁ • point q.x₁ q.y₁
  corner₂ : t.matrix.mulVec ![1, 1, 1] = n₂ • point q.x₂ q.y₂
  corner₃ : t.matrix.mulVec ![0, 1, 1] = n₃ • point q.x₃ q.y₃
  det : t.matrix.det = n₁ * n₃ * area q.x₀ q.y₀ q.x₁ q.y₁ q.x₃ q.y₃

omit [DecidableEq K] in
lemma weighs_of_entries (q : Quad K) (n₁ n₃ : K)
    (hx : (n₁ + n₃ - 1) * q.x₂ = n₁ * q.x₁ + n₃ * q.x₃ - q.x₀)
    (hy : (n₁ + n₃ - 1) * q.y₂ = n₁ * q.y₁ + n₃ * q.y₃ - q.y₀) :
    q.Weighs ⟨n₁ * q.x₁ - q.x₀, n₃ * q.x₃ - q.x₀, q.x₀, n₁ * q.y₁ - q.y₀, n₃ * q.y₃ - q.y₀, q.y₀,
      n₁ - 1, n₃ - 1, 1⟩ n₁ (n₁ + n₃ - 1) n₃ := by
  constructor
  · ext i
    fin_cases i <;> simp [Transform.matrix, point, Matrix.mulVec, dotProduct, Fin.sum_univ_three]
  · ext i
    fin_cases i <;> simp [Transform.matrix, point, Matrix.mulVec, dotProduct, Fin.sum_univ_three]
  · ext i
    fin_cases i <;>
      simp [Transform.matrix, point, Matrix.mulVec, dotProduct, Fin.sum_univ_three, hx, hy] <;> ring
  · ext i
    fin_cases i <;> simp [Transform.matrix, point, Matrix.mulVec, dotProduct, Fin.sum_univ_three]
  · simp only [Transform.matrix, Matrix.det_fin_three, Matrix.of_apply, Matrix.cons_val',
      Matrix.cons_val_zero, Matrix.cons_val_one, Matrix.cons_val]
    unfold area
    ring

/-- Every quadrilateral is an image of the unit square. -/
lemma General.exists_squareToQuad {q : Quad K} (hq : q.General) :
    ∃ t n₁ n₂ n₃, squareToQuad q = some t ∧ q.Weighs t n₁ n₂ n₃ := by
  unfold squareToQuad
  dsimp only
  split_ifs with hparallel hzero
  · simp only [Bool.and_eq_true, beq_iff_eq] at hparallel
    obtain ⟨hx, hy⟩ := hparallel
    refine ⟨_, 1, 1 + 1 - 1, 1, rfl, ?_⟩
    have h := weighs_of_entries q 1 1 (by linear_combination hx)
      (by linear_combination hy)
    have hx' : q.x₂ - q.x₁ = 1 * q.x₃ - q.x₀ := by linear_combination hx
    have hy' : q.y₂ - q.y₁ = 1 * q.y₃ - q.y₀ := by linear_combination hy
    rw [hx', hy']
    simpa only [one_mul, sub_self] using h
  · simp only [beq_iff_eq] at hzero
    refine absurd ?_ hq.area₁₂₃
    unfold area
    linear_combination -hzero
  · simp only [beq_iff_eq] at hzero
    generalize hden : (q.x₁ - q.x₂) * (q.y₃ - q.y₂) - (q.x₃ - q.x₂) * (q.y₁ - q.y₂) = den at hzero ⊢
    generalize ha : ((q.x₀ - q.x₁ + q.x₂ - q.x₃) * (q.y₃ - q.y₂) -
      (q.x₃ - q.x₂) * (q.y₀ - q.y₁ + q.y₂ - q.y₃)) / den = a
    generalize hb : ((q.x₁ - q.x₂) * (q.y₀ - q.y₁ + q.y₂ - q.y₃) -
      (q.x₀ - q.x₁ + q.x₂ - q.x₃) * (q.y₁ - q.y₂)) / den = b
    rw [div_eq_iff hzero] at ha hb
    have hx : a * (q.x₁ - q.x₂) + b * (q.x₃ - q.x₂) = q.x₀ - q.x₁ + q.x₂ - q.x₃ := by
      apply mul_right_cancel₀ hzero
      linear_combination (q.x₀ - q.x₁ + q.x₂ - q.x₃) * hden - (q.x₁ - q.x₂) * ha -
        (q.x₃ - q.x₂) * hb
    have hy : a * (q.y₁ - q.y₂) + b * (q.y₃ - q.y₂) = q.y₀ - q.y₁ + q.y₂ - q.y₃ := by
      apply mul_right_cancel₀ hzero
      linear_combination (q.y₀ - q.y₁ + q.y₂ - q.y₃) * hden - (q.y₁ - q.y₂) * ha -
        (q.y₃ - q.y₂) * hb
    have h := weighs_of_entries q (1 + a) (1 + b) (by linear_combination -hx)
      (by linear_combination -hy)
    refine ⟨_, 1 + a, 1 + a + (1 + b) - 1, 1 + b, rfl, ?_⟩
    convert h using 2 <;> ring

omit [DecidableEq K] in
/-- None of the multiples is zero. -/
lemma Weighs.ne_zero {q : Quad K} (hq : q.General) {t : Transform K} {n₁ n₂ n₃ : K}
    (h : q.Weighs t n₁ n₂ n₃) : n₁ ≠ 0 ∧ n₃ ≠ 0 := by
  obtain ⟨h₀, h₁, h₂, h₃, -⟩ := h
  have hsquare : (![0, 0, 1] : Fin 3 → K) + ![1, 1, 1] = ![1, 0, 1] + ![0, 1, 1] := by
    ext i
    fin_cases i <;> simp
  have hrel := congrArg t.matrix.mulVec hsquare
  rw [Matrix.mulVec_add, Matrix.mulVec_add, h₀, h₁, h₂, h₃] at hrel
  have hx : 1 * q.x₀ + n₂ * q.x₂ = n₁ * q.x₁ + n₃ * q.x₃ := congrFun hrel 0
  have hy : 1 * q.y₀ + n₂ * q.y₂ = n₁ * q.y₁ + n₃ * q.y₃ := congrFun hrel 1
  have hw : 1 * 1 + n₂ * 1 = n₁ * 1 + n₃ * 1 := congrFun hrel 2
  constructor
  · rintro rfl
    refine hq.area₀₂₃ ?_
    unfold area
    linear_combination (q.y₂ - q.y₃) * hx + (q.x₃ - q.x₂) * hy + (q.x₂ * q.y₃ - q.x₃ * q.y₂) * hw
  · rintro rfl
    refine hq.area₀₁₂ ?_
    unfold area
    linear_combination (q.y₁ - q.y₂) * hx + (q.x₂ - q.x₁) * hy + (q.x₁ * q.y₂ - q.x₂ * q.y₁) * hw

/-! ### Through a camera -/

/-- The points as a camera shows them. -/
def view (q : Quad K) (p : Transform K) : Quad K where
  x₀ := (p.apply q.x₀ q.y₀).1
  y₀ := (p.apply q.x₀ q.y₀).2
  x₁ := (p.apply q.x₁ q.y₁).1
  y₁ := (p.apply q.x₁ q.y₁).2
  x₂ := (p.apply q.x₂ q.y₂).1
  y₂ := (p.apply q.x₂ q.y₂).2
  x₃ := (p.apply q.x₃ q.y₃).1
  y₃ := (p.apply q.x₃ q.y₃).2

end Quad

namespace Transform

/-- A camera that shows a point, which is one on no horizon. -/
def Shows (p : Transform K) (x y : K) : Prop := p.a13 * x + p.a23 * y + p.a33 ≠ 0

/-- A camera shows every point of a quadrilateral. -/
structure ShowsQuad (p : Transform K) (q : Quad K) : Prop where
  det_ne_zero : p.matrix.det ≠ 0
  shows₀ : p.Shows q.x₀ q.y₀
  shows₁ : p.Shows q.x₁ q.y₁
  shows₂ : p.Shows q.x₂ q.y₂
  shows₃ : p.Shows q.x₃ q.y₃

lemma Shows.mulVec {p : Transform K} {x y : K} (h : p.Shows x y) : ∃ m : K, m ≠ 0 ∧
    p.matrix.mulVec (point x y) = m • point (p.apply x y).1 (p.apply x y).2 := by
  have h₂ : p.matrix.mulVec (point x y) 2 = p.a13 * x + p.a23 * y + p.a33 := by
    simp [matrix, point, Matrix.mulVec, dotProduct, Fin.sum_univ_three]
  refine ⟨p.matrix.mulVec (point x y) 2, by rwa [h₂], ?_⟩
  rw [apply_eq, smul_point_affine]
  rwa [h₂]

lemma ShowsQuad.general {p : Transform K} {q : Quad K} (h : p.ShowsQuad q) (hq : q.General) :
    (q.view p).General := by
  obtain ⟨hdet, h₀, h₁, h₂, h₃⟩ := h
  obtain ⟨m₀, -, g₀⟩ := h₀.mulVec
  obtain ⟨m₁, -, g₁⟩ := h₁.mulVec
  obtain ⟨m₂, -, g₂⟩ := h₂.mulVec
  obtain ⟨m₃, -, g₃⟩ := h₃.mulVec
  constructor
  · refine right_ne_zero_of_mul (a := m₁ * m₂ * m₃) ?_
    rw [Quad.view, area_map p.matrix g₁ g₂ g₃]
    exact mul_ne_zero hdet hq.area₁₂₃
  · refine right_ne_zero_of_mul (a := m₀ * m₂ * m₃) ?_
    rw [Quad.view, area_map p.matrix g₀ g₂ g₃]
    exact mul_ne_zero hdet hq.area₀₂₃
  · refine right_ne_zero_of_mul (a := m₀ * m₁ * m₃) ?_
    rw [Quad.view, area_map p.matrix g₀ g₁ g₃]
    exact mul_ne_zero hdet hq.area₀₁₃
  · refine right_ne_zero_of_mul (a := m₀ * m₁ * m₂) ?_
    rw [Quad.view, area_map p.matrix g₀ g₁ g₂]
    exact mul_ne_zero hdet hq.area₀₁₂

end Transform

omit [DecidableEq K] in
lemma mulVecLin_frame (v : Fin 3 → K) :
    ∃ a b c : K, v = a • ![0, 0, 1] + b • ![1, 0, 1] + c • ![0, 1, 1] := by
  refine ⟨v 2 - v 0 - v 1, v 0, v 1, ?_⟩
  ext i
  fin_cases i
  · simp
  · simp
  · simp only [Fin.reduceFinMk, Pi.add_apply, Pi.smul_apply, smul_eq_mul, cons_val]
    ring

/-- The transform of four correspondences is the camera. -/
lemma quadToQuad_view {p : Transform K} {q : Quad K} (hp : p.ShowsQuad q) (hq : q.General) :
    ∃ t, quadToQuad q (q.view p) = some t ∧ ∀ x y, t.apply x y = p.apply x y := by
  obtain ⟨s, n₁, n₂, n₃, hs, hsn⟩ := hq.exists_squareToQuad
  obtain ⟨d, k₁, k₂, k₃, hd, hdk⟩ := (hp.general hq).exists_squareToQuad
  refine ⟨d.times s.adjoint, by rw [quadToQuad, hs, hd], ?_⟩
  obtain ⟨m₀, hm₀, g₀⟩ := hp.shows₀.mulVec
  obtain ⟨m₁, -, g₁⟩ := hp.shows₁.mulVec
  obtain ⟨m₂, -, g₂⟩ := hp.shows₂.mulVec
  obtain ⟨m₃, -, g₃⟩ := hp.shows₃.mulVec
  have hthrough : ∀ {e v w : Fin 3 → K} {n m : K}, s.matrix.mulVec e = n • v →
      p.matrix.mulVec v = m • w → (p.matrix * s.matrix).mulVecLin e = (n * m) • w := by
    intro e v w n m hs hp
    rw [Matrix.mulVecLin_apply, ← Matrix.mulVec_mulVec, hs, Matrix.mulVec_smul, hp, smul_smul]
  have hsquare : (![0, 0, 1] : Fin 3 → K) + ![1, 1, 1] = ![1, 0, 1] + ![0, 1, 1] := by
    ext i
    fin_cases i <;> simp
  -- Through the unit square, the camera and the second half of the transform agree on a frame.
  have hframe := smul_eq_smul_of_frame (N := d.matrix.mulVecLin) mulVecLin_frame hsquare
    (linearIndependent_of_area (hp.general hq).area₁₂₃) (hthrough hsn.corner₀ g₀)
    (hthrough hsn.corner₁ g₁) (hthrough hsn.corner₂ g₂) (hthrough hsn.corner₃ g₃)
    hdk.corner₀ hdk.corner₁ hdk.corner₂ hdk.corner₃
  have hmatrix : p.matrix * s.matrix = m₀ • d.matrix := by
    rw [one_smul, one_mul] at hframe
    apply Matrix.ext_iff_mulVec.mpr
    intro v
    rw [Matrix.smul_mulVec]
    exact LinearMap.congr_fun hframe v
  have hdet : s.matrix.det ≠ 0 := by
    obtain ⟨hn₁, hn₃⟩ := hsn.ne_zero hq
    rw [hsn.det]
    exact mul_ne_zero (mul_ne_zero hn₁ hn₃) hq.area₀₁₃
  have hscaled : s.matrix.det • p.matrix = m₀ • (d.times s.adjoint).matrix := by
    rw [Transform.matrix_times, Transform.matrix_adjoint, ← Matrix.smul_mul, ← hmatrix,
      Matrix.mul_assoc, Matrix.mul_adjugate, Matrix.mul_smul, Matrix.mul_one]
  refine Transform.apply_of_matrix (c := m₀⁻¹ * s.matrix.det)
    (mul_ne_zero (inv_ne_zero hm₀) hdet) ?_
  rw [mul_smul, hscaled, inv_smul_smul₀ hm₀]

end Dhow.Optical
