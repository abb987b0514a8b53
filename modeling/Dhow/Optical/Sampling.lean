import Dhow.Optical.Located
import Dhow.Optical.Perspective
import Mathlib.Tactic.Linarith
import Mathlib.Tactic.NormNum.OfScientific
import Mathlib.Tactic.Positivity

/-!
# Sampling through a camera

With the numbers of an ordered field in place of the floating-point ones: when the corners of a
symbol are located where the camera shows them, and the pixel nearest to the centre of each module
has the shade of the module, sampling gives back the symbol, module by module.
-/

namespace Dhow.Optical
open Checked ExactFloat GoFloat GoImage

/-! ### The quadrilateral of a symbol -/

section Symbol
variable {ε K : Type} [Field K] [LinearOrder K] [IsStrictOrderedRing K] [FloorRing K]
variable {o : Beyond K}

/-- The corners of a symbol of a size, the last of them where it was looked for. -/
def symbolQuad (K : Type) [Field K] [LinearOrder K] (d : ℤ) (source : K) : Quad K :=
  ⟨3.5, 3.5, d - 3.5, 3.5, source, source, 3.5, d - 3.5⟩

lemma symbolQuad_general {d : ℤ} (hd : 21 ≤ d) {source : K}
    (hsource : source = d - 3.5 ∨ source = d - 3.5 - 3) : (symbolQuad K d source).General := by
  have hd' : (21 : K) ≤ d := by exact_mod_cast hd
  have hside : 0 < (d : K) - 3.5 - 3.5 := by norm_num; linarith
  have hfar : 0 < source - 3.5 := by
    rcases hsource with rfl | rfl <;> norm_num <;> linarith
  have hback : 0 < 2 * source - (d - 3.5) - 3.5 := by
    rcases hsource with rfl | rfl <;> norm_num <;> linarith
  constructor
  all_goals
    unfold symbolQuad ProjectiveFrame.area
    apply ne_of_gt
  · have h := mul_pos hside hback
    linarith
  · have h := mul_pos hfar hside
    linarith
  · have h := mul_pos hside hside
    linarith
  · have h := mul_pos hside hfar
    linarith

/-- Three corners located where a camera shows them. -/
structure LocatedBy (p : Transform K) (d : ℤ) (c : Corners K) : Prop where
  topLeft : (c.topLeft.x, c.topLeft.y) = p.apply 3.5 3.5
  topRight : (c.topRight.x, c.topRight.y) = p.apply (d - 3.5) 3.5
  bottomLeft : (c.bottomLeft.x, c.bottomLeft.y) = p.apply 3.5 (d - 3.5)

/-- The fourth corner located where the camera shows it. -/
structure FourthBy (p : Transform K) (d : ℤ) (fourth : Corner K) : Prop where
  place : (fourth.x, fourth.y) = p.apply fourth.source fourth.source
  source : fourth.source = d - 3.5 ∨ fourth.source = d - 3.5 - 3

lemma moduleTransform_view {p : Transform K} {d : ℤ} {c : Corners K} {fourth : Corner K}
    (hd : 21 ≤ d) (hc : LocatedBy p d c) (hf : FourthBy p d fourth)
    (hp : p.ShowsQuad (symbolQuad K d fourth.source)) :
    ∃ t, @moduleTransform K (exactFloat K o) c d fourth = some t ∧
      ∀ x y, t.apply x y = p.apply x y := by
  obtain ⟨t, ht, hview⟩ := quadToQuad_view hp (symbolQuad_general hd hf.source)
  refine ⟨t, ?_, hview⟩
  rw [← ht]
  have h₀ := Prod.ext_iff.mp hc.topLeft
  have h₁ := Prod.ext_iff.mp hc.topRight
  have h₂ := Prod.ext_iff.mp hf.place
  have h₃ := Prod.ext_iff.mp hc.bottomLeft
  dsimp only at h₀ h₁ h₂ h₃
  unfold moduleTransform Quad.view symbolQuad edge
  rw [h₀.1, h₀.2, h₁.1, h₁.2, h₂.1, h₂.2, h₃.1, h₃.2]
  rfl

/-! ### The modules -/

/-- A picture of a symbol: the pixel nearest to the centre of each module reads as the module. -/
def Pictures (ε : Type) (p : Transform K) (b : Bitmap) (vote : Bool) (g : Qr.Grid) : Prop :=
  ∀ x y : ℤ, 0 ≤ x → x < g.size → 0 ≤ y → y < g.size →
    let q := p.apply (x + 0.5) (y + 0.5)
    (0 ≤ roundHalf q.1 ∧ roundHalf q.1 < b.w) ∧ (0 ≤ roundHalf q.2 ∧ roundHalf q.2 < b.h) ∧
      (sampleModule b (roundHalf q.1) (roundHalf q.2) vote : Checked ε Bool) =
        index g.dark (y * g.size + x)

lemma sampleInto_pictured {p t : Transform K} {b : Bitmap} {vote : Bool} {g : Qr.Grid}
    (hview : ∀ x y, t.apply x y = p.apply x y) (hg : Pictures ε p b vote g) {d x y : ℤ}
    (hsize : g.size = d) (hx₀ : 0 ≤ x) (hx : x < d) (hy₀ : 0 ≤ y) (hy : y < d) (g' : Qr.Grid) :
    (@sampleInto ε K (exactFloat K o) b t vote x y g') =
      (index g.dark (y * d + x) >>= gridSet g' x y) := by
  obtain ⟨⟨hqx₀, hqx⟩, ⟨hqy₀, hqy⟩, hmodule⟩ := hg x y hx₀ (by omega) hy₀ (by omega)
  rw [hsize] at hmodule
  unfold sampleInto
  rw [if_neg (by simp)]
  simp only [hview, toInt_round]
  refine (if_neg ?_).trans ?_
  · exact fun h => by
      rcases h with h | h | h | h
      · exact absurd hqx₀ (not_le.mpr h)
      · exact absurd hqy₀ (not_le.mpr h)
      · exact absurd hqx (not_lt.mpr h)
      · exact absurd hqy (not_lt.mpr h)
  · exact congrArg (fun m => m >>= gridSet g' x y) hmodule

/-- The modules are sampled one by one, and each as the symbol has it. -/
lemma scan_pictured {p t : Transform K} {b : Bitmap} {vote : Bool} {g : Qr.Grid} {d : ℤ}
    (hview : ∀ x y, t.apply x y = p.apply x y) (hg : Pictures ε p b vote g) (hd : 0 ≤ d)
    (hsized : Sized d g) :
    (newGrid d >>= fun g' => (⟨0, 0, d, d⟩ : Rectangle).scan
      (@sampleInto ε K (exactFloat K o) b t vote) g') = .ok g := by
  obtain ⟨hsize, hlen⟩ := hsized
  have harea := Int.toNat_of_nonneg (Int.mul_nonneg hd hd)
  rw [newGrid, make_eq harea.symm, ok_bind, ok_bind]
  apply gives_eq_iff.mp
  refine (Rectangle.ends_scan (fun k g' => Sized d g' ∧ ∀ m : ℕ, (m : ℤ) < k →
    g'.dark[m]? = g.dark[m]?) ⟨⟨rfl, List.length_replicate⟩, fun m hm => ?_⟩ (Int.sub_nonneg.mpr hd)
    (Int.sub_nonneg.mpr hd) ?_).weaken (fun g' h => ?_) fun _ h => h
  · omega
  · rintro x y ⟨hx₀, hx, hy₀, hy⟩ g' ⟨⟨hsize', hlen'⟩, hdone⟩
    dsimp only at hx₀ hx hy₀ hy
    simp only [Rectangle.place, Rectangle.dx, Int.sub_zero] at hdone ⊢
    have hcell := cell_lt hx hy hd
    have hcell₀ := cell_nonneg hx₀ hx hy₀
    obtain ⟨k, hk⟩ := Int.eq_ofNat_of_zero_le hcell₀
    have hlt : k < g.dark.length := by omega
    rw [sampleInto_pictured hview hg hsize hx₀ hx hy₀ hy g', hk,
      index_eq rfl (List.getElem?_eq_getElem hlt), ok_bind, gridSet, if_neg (by omega), hsize', hk,
      store_eq rfl (by omega), ok_bind]
    refine .ok ⟨⟨rfl, by simpa using hlen'⟩, fun m hm => ?_⟩
    dsimp only
    rw [List.getElem?_set]
    split_ifs with heq hin
    · rw [← heq]
      exact (List.getElem?_eq_getElem hlt).symm
    · omega
    · exact hdone m (by omega)
  · obtain ⟨⟨hsize', hlen'⟩, hdone⟩ := h
    obtain ⟨size', dark'⟩ := g'
    obtain ⟨size, dark⟩ := g
    dsimp only at hsize hsize' hlen hlen' hdone
    subst hsize hsize'
    congr 1
    apply List.ext_getElem?
    intro m
    by_cases hm : m < dark.length
    · refine hdone m ?_
      simp only [Rectangle.dx, Rectangle.dy, Int.sub_zero]
      omega
    · rw [List.getElem?_eq_none (by omega), List.getElem?_eq_none (by omega)]

/-- The corner that three others imply is where an affine camera shows it. -/
lemma fourthCorner_assumed {p : Transform K} {d : ℤ} {c : Corners K} (hc : LocatedBy p d c)
    (h13 : p.a13 = 0) (h23 : p.a23 = 0) (b : Bitmap) (moduleSize : K) :
    ∃ fourth, @fourthCorner ε K (exactFloat K o) b c moduleSize d false =
      .ok fourth ∧ FourthBy p d fourth := by
  refine ⟨_, rfl, ?_, .inl rfl⟩
  have h₀ := Prod.ext_iff.mp hc.topLeft
  have h₁ := Prod.ext_iff.mp hc.topRight
  have h₃ := Prod.ext_iff.mp hc.bottomLeft
  dsimp only at h₀ h₁ h₃
  change (c.topRight.x - c.topLeft.x + c.bottomLeft.x, c.topRight.y - c.topLeft.y + c.bottomLeft.y)
    = p.apply (d - 3.5) (d - 3.5)
  rw [h₀.1, h₀.2, h₁.1, h₁.2, h₃.1, h₃.2]
  unfold Transform.apply
  simp only [h13, h23, zero_mul, zero_add, beq_iff_eq]
  split_ifs with hzero
  · simp
  · apply Prod.ext <;> simp only <;> field_simp <;> ring

lemma sampleAt_pictured {p : Transform K} {b : Bitmap} {c : Corners K} {moduleSize : K}
    {useAlignment : Bool} {g : Qr.Grid} {d : ℤ} (hd : 21 ≤ d) (hsized : Sized d g)
    (hc : LocatedBy p d c) {fourth : Corner K} (hfourth : FourthBy p d fourth)
    (hp : p.ShowsQuad (symbolQuad K d fourth.source))
    (hg : Pictures ε p b (decide (5.0 ≤ moduleSize)) g)
    (hfound : @fourthCorner ε K (exactFloat K o) b c moduleSize d useAlignment =
      .ok fourth) :
    @sampleAt ε K (exactFloat K o) b c moduleSize d useAlignment =
      .ok (some g) := by
  obtain ⟨t, ht, hview⟩ := moduleTransform_view (o := o) hd hc hfourth hp
  have hscan := scan_pictured (o := o) hview hg
    (by omega) hsized
  unfold sampleAt
  rw [hfound, ok_bind, ht]
  change (newGrid d >>= fun g' => (⟨0, 0, d, d⟩ : Rectangle).scan
    (@sampleInto ε K (exactFloat K o) b t (decide (5.0 ≤ moduleSize))) g' >>=
      fun g => .ok (some g)) = _
  rw [← bind_assoc, hscan]
  rfl

/-- A symbol whose corners are located where a camera shows them is sampled as it is: when the
fourth corner was found, whatever the perspective, and when it was assumed, if the camera is square
to the screen up to an affine map. -/
theorem sampleAt_exact {p : Transform K} {b : Bitmap} {c : Corners K} {moduleSize : K}
    {g : Qr.Grid} {d : ℤ} (hd : 21 ≤ d) (hsized : Sized d g) (hdet : p.matrix.det ≠ 0)
    (hc : LocatedBy p d c) (hg : Pictures ε p b (decide (5.0 ≤ moduleSize)) g) :
    (∀ useAlignment fourth, FourthBy p d fourth → p.ShowsQuad (symbolQuad K d fourth.source) →
      @fourthCorner ε K (exactFloat K o) b c moduleSize d useAlignment =
        .ok fourth →
      @sampleAt ε K (exactFloat K o) b c moduleSize d useAlignment =
        .ok (some g)) ∧
    (p.a13 = 0 → p.a23 = 0 →
      @sampleAt ε K (exactFloat K o) b c moduleSize d false = .ok (some g)) := by
  constructor
  · intro useAlignment fourth hfourth hp hfound
    exact sampleAt_pictured hd hsized hc hfourth hp hg hfound
  · intro h13 h23
    obtain ⟨fourth, hfound, hfourth⟩ :=
      fourthCorner_assumed (ε := ε) (o := o) hc h13 h23 b moduleSize
    -- An affine camera has no horizon.
    have h33 : p.a33 ≠ 0 := by
      intro h33
      apply hdet
      simp [Transform.matrix, Matrix.det_fin_three, h13, h23, h33]
    have hshows : ∀ x y, p.Shows x y := by
      intro x y
      rw [Transform.Shows, h13, h23]
      simpa using h33
    exact sampleAt_pictured hd hsized hc hfourth
      ⟨hdet, hshows _ _, hshows _ _, hshows _ _, hshows _ _⟩ hg hfound

end Symbol

/-! ### A picture pixel by pixel -/

/-- A board of 21 by 21 fields as a symbol. -/
def board : Qr.Grid := ⟨21, (List.range 441).map fun i => i % 2 == 0⟩

/-- A camera that shows each module as one pixel. -/
def pixelCamera : Transform ℚ := ⟨1, 0, -(1 / 2), 0, 1, -(1 / 2), 0, 0, 1⟩

lemma pixelCamera_apply (x y : ℚ) : pixelCamera.apply x y = (x - 1 / 2, y - 1 / 2) := by
  rw [Transform.apply, if_neg (by simp [pixelCamera])]
  apply Prod.ext <;> simp [pixelCamera] <;> ring

lemma roundHalf_intCast (n : ℤ) : roundHalf (n : ℚ) = n := by
  unfold roundHalf
  split_ifs
  · rw [Int.floor_eq_iff]
    constructor <;> linarith
  · rw [Int.ceil_eq_iff]
    constructor <;> linarith

lemma board_sized : Sized 21 board := by
  refine ⟨rfl, ?_⟩
  rw [board, List.length_map, List.length_range]
  rfl

lemma board_pictured : Pictures DetectError pixelCamera ⟨21, 21, board.dark⟩ false board := by
  intro x y hx₀ hx hy₀ hy
  have hx : x < 21 := hx
  have hy : y < 21 := hy
  have hplace : pixelCamera.apply (x + 0.5) (y + 0.5) = ((x : ℚ), (y : ℚ)) := by
    rw [pixelCamera_apply]
    apply Prod.ext <;> norm_num
  simp only [hplace, roundHalf_intCast]
  refine ⟨⟨hx₀, hx⟩, ⟨hy₀, hy⟩, ?_⟩
  rw [sampleModule, if_pos (show (!false) = true from rfl), Bitmap.darkAt,
    if_neg (by dsimp only; omega)]
  rfl

theorem sampleAt_exact_board :
    @sampleAt DetectError ℚ rational ⟨21, 21, board.dark⟩
      ⟨⟨3, 3, 3, 1⟩, ⟨17, 3, 3, 1⟩, ⟨3, 17, 3, 1⟩⟩ 3 21 false = .ok (some board) := by
  refine (sampleAt_exact (p := pixelCamera) (g := board) (d := 21) (by decide)
    board_sized ?_ ?_ ?_).2 rfl rfl
  · rw [Matrix.det_fin_three]
    simp [Transform.matrix, pixelCamera]
  · constructor
    all_goals
      rw [pixelCamera_apply]
      apply Prod.ext <;> norm_num
  · have hvote : decide ((5.0 : ℚ) ≤ 3) = false := by norm_num
    rw [hvote]
    exact board_pictured

end Dhow.Optical
