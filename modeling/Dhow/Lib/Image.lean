import Dhow.Lib.Checked
import Mathlib.Algebra.Order.Ring.Int
import Mathlib.Tactic.Ring

/-!
# Images

The part of the packages `image` and `image/color` that reads and writes pixels one by one: grey
and paletted images, images of any other kind through what they tell of themselves, and the loop
over the pixels of a rectangle, row by row.
-/

namespace GoImage
open Checked

variable {ε σ : Type}

/-! ### Colours -/

/-- What `RGBA` gives of a colour. -/
structure Color where
  r : UInt32
  g : UInt32
  b : UInt32
  a : UInt32
  deriving DecidableEq

namespace Color

def gray (y : UInt8) : Color :=
  let y := y.toUInt32 ||| y.toUInt32 <<< 8
  ⟨y, y, y, 0xFFFF⟩

def gray16 (y : UInt16) : Color := ⟨y.toUInt32, y.toUInt32, y.toUInt32, 0xFFFF⟩

def white : Color := gray16 0xFFFF
def black : Color := gray16 0

/-- The usual perceptual weights, over 16-bit components. -/
def luma (c : Color) : UInt8 :=
  ((19595 * c.r + 38470 * c.g + 7471 * c.b + 0x8000) >>> 24).toUInt8

lemma toNat_gray (y : UInt8) : (y.toUInt32 ||| y.toUInt32 <<< 8).toNat = 257 * y.toNat := by
  have hy : y.toNat < 2 ^ 8 := y.toNat_lt
  have hshift : (y.toUInt32 <<< 8).toNat = y.toNat <<< 8 := by
    rw [UInt32.toNat_shiftLeft, UInt8.toNat_toUInt32]
    exact Nat.mod_eq_of_lt (by rw [Nat.shiftLeft_eq]; simp; omega)
  rw [UInt32.toNat_or, hshift, UInt8.toNat_toUInt32, Nat.or_comm,
    ← Nat.shiftLeft_add_eq_or_of_lt hy, Nat.shiftLeft_eq]
  omega

/-- The weights add up to a whole. -/
lemma luma_gray (y : UInt8) : (gray y).luma = y := by
  have hy : y.toNat < 256 := y.toNat_lt
  have hsum : 19595 * (257 * y.toNat) + 38470 * (257 * y.toNat) + 7471 * (257 * y.toNat) + 32768 =
      16842752 * y.toNat + 32768 := by ring
  have hfull : (16842752 * y.toNat + 32768) % 4294967296 = 16842752 * y.toNat + 32768 :=
    Nat.mod_eq_of_lt (by omega)
  have hshift : (16842752 * y.toNat + 32768) / 16777216 = y.toNat := by omega
  apply UInt8.toNat_inj.mp
  simp only [luma, gray, UInt32.toNat_toUInt8, UInt32.toNat_shiftRight, UInt32.toNat_add,
    UInt32.toNat_mul, toNat_gray]
  simp [Nat.shiftRight_eq_div_pow, hsum, hfull, hshift]

end Color

/-! ### Rectangles -/

structure Rectangle where
  minX : ℤ
  minY : ℤ
  maxX : ℤ
  maxY : ℤ
  deriving DecidableEq

def rect (x₀ y₀ x₁ y₁ : ℤ) : Rectangle := ⟨min x₀ x₁, min y₀ y₁, max x₀ x₁, max y₀ y₁⟩

namespace Rectangle

def dx (r : Rectangle) : ℤ := r.maxX - r.minX
def dy (r : Rectangle) : ℤ := r.maxY - r.minY

/-- Whether a point is in the rectangle. -/
def contains (r : Rectangle) (x y : ℤ) : Prop :=
  r.minX ≤ x ∧ x < r.maxX ∧ r.minY ≤ y ∧ y < r.maxY

instance (r : Rectangle) (x y : ℤ) : Decidable (r.contains x y) := by
  unfold contains
  infer_instance

/-- `body` for each point, row by row. -/
def scan (r : Rectangle) (body : ℤ → ℤ → σ → Checked ε σ) (s : σ) : Checked ε σ :=
  repeatFor (fun j s => repeatFor (fun i s => body (r.minX + i) (r.minY + j) s) s r.dx.toNat) s
    r.dy.toNat

end Rectangle

/-- The number of bytes of a picture of one byte a pixel. A negative side makes no picture, and
neither do more pixels than can be counted. -/
def pixelBufferLength (r : Rectangle) : ℤ :=
  let w := int64 r.dx
  let h := int64 r.dy
  if w < 0 ∨ h < 0 ∨ 2 ^ 63 ≤ w * h then -1 else w * h

/-! ### Images -/

structure Gray where
  pix : List UInt8
  stride : ℤ
  rect : Rectangle
  deriving DecidableEq

namespace Gray

def pixOffset (p : Gray) (x y : ℤ) : ℤ := (y - p.rect.minY) * p.stride + (x - p.rect.minX)

def grayAt (p : Gray) (x y : ℤ) : Checked ε UInt8 :=
  if p.rect.contains x y then index p.pix (p.pixOffset x y) else .ok 0

end Gray

def newGray (r : Rectangle) : Checked ε Gray := do
  let pix ← alloc 1 (pixelBufferLength r) 0
  .ok ⟨pix, int64 r.dx, r⟩

structure Paletted where
  pix : List UInt8
  stride : ℤ
  rect : Rectangle
  palette : List Color

namespace Paletted

def pixOffset (p : Paletted) (x y : ℤ) : ℤ := (y - p.rect.minY) * p.stride + (x - p.rect.minX)

-- Without a palette there is no colour to ask for its components, which is a panic as well.
def colorAt (p : Paletted) (x y : ℤ) : Checked ε Color :=
  if p.rect.contains x y then do
    let i ← index p.pix (p.pixOffset x y)
    index p.palette i.toNat
  else index p.palette 0

def setColorIndex (p : Paletted) (x y : ℤ) (i : UInt8) : Checked ε Paletted :=
  if p.rect.contains x y then do
    let pix ← store p.pix (p.pixOffset x y) i
    .ok { p with pix }
  else .ok p

end Paletted

def newPaletted (r : Rectangle) (palette : List Color) : Checked ε Paletted := do
  let pix ← alloc 1 (pixelBufferLength r) 0
  .ok ⟨pix, int64 r.dx, r, palette⟩

inductive Image
  | gray (p : Gray)
  | paletted (p : Paletted)
  | other (bounds : Rectangle) (color : ℤ → ℤ → Color)

namespace Image

def bounds : Image → Rectangle
  | gray p => p.rect
  | paletted p => p.rect
  | other bounds _ => bounds

def colorAt : Image → ℤ → ℤ → Checked ε Color
  | gray p, x, y => do
    let c ← p.grayAt x y
    .ok (Color.gray c)
  | paletted p, x, y => p.colorAt x y
  | other _ color, x, y => .ok (color x y)

end Image

/-! ### Rules -/

/-- A cell of a table stored row by row is in the table. -/
lemma cell_lt {w h x y : ℤ} (hx : x < w) (hy : y < h) (hw : 0 ≤ w) : y * w + x < w * h := by
  calc y * w + x < y * w + w := by omega
    _ = w * (y + 1) := by ring
    _ ≤ w * h := Int.mul_le_mul_of_nonneg_left (by omega) hw

lemma cell_nonneg {w x y : ℤ} (hx₀ : 0 ≤ x) (hx : x < w) (hy : 0 ≤ y) : 0 ≤ y * w + x := by
  have h : 0 ≤ y * w := Int.mul_nonneg hy (by omega)
  omega

/-- It is told by its row and its column. -/
lemma cell_inj {w x y x' y' : ℤ} (hx₀ : 0 ≤ x) (hx : x < w) (hx₀' : 0 ≤ x') (hx' : x' < w)
    (h : y * w + x = y' * w + x') : x = x' ∧ y = y' := by
  have hw : w ≠ 0 := by omega
  have hdiv : ∀ {a b : ℤ}, 0 ≤ a → a < w → (b * w + a) / w = b := by
    intro a b ha₀ ha
    rw [Int.add_comm, Int.add_mul_ediv_right _ _ hw, Int.ediv_eq_zero_of_lt ha₀ ha, Int.zero_add]
  have hy : y = y' := by
    calc y = (y * w + x) / w := (hdiv hx₀ hx).symm
      _ = (y' * w + x') / w := by rw [h]
      _ = y' := hdiv hx₀' hx'
  subst hy
  exact ⟨by omega, rfl⟩

namespace Rectangle

/-- The sides are not negative, and can be told as machine integers. -/
structure Sized (r : Rectangle) : Prop where
  dx_nonneg : 0 ≤ r.dx
  dx_lt : r.dx < 2 ^ 63
  dy_nonneg : 0 ≤ r.dy
  dy_lt : r.dy < 2 ^ 63

namespace Sized
variable {r : Rectangle} (h : r.Sized)
include h

lemma int64_dx : int64 r.dx = r.dx := int64_eq (by have := h.dx_nonneg; omega) h.dx_lt

lemma int64_dy : int64 r.dy = r.dy := int64_eq (by have := h.dy_nonneg; omega) h.dy_lt

lemma area_nonneg : 0 ≤ r.dx * r.dy := Int.mul_nonneg h.dx_nonneg h.dy_nonneg

variable (harea : r.dx * r.dy ≤ maxAlloc)
include harea

lemma int64_area : int64 (r.dx * r.dy) = r.dx * r.dy := int64_of_le_maxAlloc h.area_nonneg harea

lemma pixelBufferLength_eq : pixelBufferLength r = r.dx * r.dy := by
  have hdx := h.dx_nonneg
  have hdy := h.dy_nonneg
  rw [pixelBufferLength, h.int64_dx, h.int64_dy, if_neg]
  unfold maxAlloc at harea
  omega

lemma newGray_eq : (newGray r : Checked ε Gray) =
    .ok ⟨List.replicate (r.dx * r.dy).toNat 0, r.dx, r⟩ := by
  rw [newGray, h.pixelBufferLength_eq harea, alloc_one_eq h.area_nonneg harea, ok_bind, h.int64_dx]

lemma newPaletted_eq (palette : List Color) : (newPaletted r palette : Checked ε Paletted) =
    .ok ⟨List.replicate (r.dx * r.dy).toNat 0, r.dx, r, palette⟩ := by
  rw [newPaletted, h.pixelBufferLength_eq harea, alloc_one_eq h.area_nonneg harea, ok_bind,
    h.int64_dx]

end Sized

/-- The turn of a point, row by row. -/
def place (r : Rectangle) (x y : ℤ) : ℤ := (y - r.minY) * r.dx + (x - r.minX)

lemma place_nonneg {r : Rectangle} {x y : ℤ} (h : r.contains x y) : 0 ≤ r.place x y := by
  obtain ⟨hx₀, hx, hy₀, hy⟩ := h
  exact cell_nonneg (by omega) (by unfold dx; omega) (by omega)

lemma place_lt {r : Rectangle} {x y : ℤ} (h : r.contains x y) : r.place x y < r.dx * r.dy := by
  obtain ⟨hx₀, hx, hy₀, hy⟩ := h
  exact cell_lt (by unfold dx; omega) (by unfold dy; omega) (by unfold dx; omega)

lemma place_inj {r : Rectangle} {x y x' y' : ℤ} (h : r.contains x y) (h' : r.contains x' y')
    (heq : r.place x y = r.place x' y') : x = x' ∧ y = y' := by
  obtain ⟨hx₀, hx, hy₀, hy⟩ := h
  obtain ⟨hx₀', hx', hy₀', hy'⟩ := h'
  obtain ⟨hxx, hyy⟩ := cell_inj (by omega) (by unfold dx; omega) (by omega) (by unfold dx; omega) heq
  exact ⟨by omega, by omega⟩

variable {E : ε → Prop} {r : Rectangle} {body : ℤ → ℤ → σ → Checked ε σ} {s : σ}

lemma contains_of_lt {i j : ℕ} (hi : i < r.dx) (hj : j < r.dy) :
    r.contains (r.minX + i) (r.minY + j) := by
  unfold contains
  unfold dx at hi
  unfold dy at hj
  omega

lemma place_of_lt (i j : ℕ) : r.place (r.minX + i) (r.minY + j) = j * r.dx + i := by
  rw [place, add_sub_cancel_left, add_sub_cancel_left]

/-- `I k` holds when `k` points have had their turn. -/
lemma ends_scan (I : ℤ → σ → Prop) (h₀ : I 0 s) (hdx : 0 ≤ r.dx) (hdy : 0 ≤ r.dy)
    (hstep : ∀ x y, r.contains x y → ∀ s, I (r.place x y) s →
      Ends (I (r.place x y + 1)) E (body x y s)) :
    Ends (I (r.dx * r.dy)) E (r.scan body s) := by
  obtain ⟨w, hw⟩ := Int.eq_ofNat_of_zero_le hdx
  obtain ⟨h, hh⟩ := Int.eq_ofNat_of_zero_le hdy
  rw [scan, hw, hh, Int.toNat_natCast, Int.toNat_natCast, Int.mul_comm]
  refine ends_repeatFor (fun j s => I (j * w) s) _ (by simpa using h₀) fun j hj s hs => ?_
  have hnext : ((j + 1 : ℕ) : ℤ) * w = j * w + w := by push_cast; ring
  rw [hnext]
  refine ends_repeatFor (fun i s => I (j * w + i) s) _ (by simpa using hs) fun i hi s hs => ?_
  have hplace := place_of_lt (r := r) i j
  rw [hw] at hplace
  have h := hstep _ _ (contains_of_lt (i := i) (j := j) (by omega) (by omega)) s (by rwa [hplace])
  rw [hplace] at h
  simpa [Int.add_assoc] using h

/-- The same of a scan that is known to give a result. -/
lemma of_scan_eq_ok {s' : σ} (I : ℤ → σ → Prop) (h₀ : I 0 s) (hdx : 0 ≤ r.dx) (hdy : 0 ≤ r.dy)
    (hstep : ∀ x y, r.contains x y → ∀ s s', I (r.place x y) s → body x y s = .ok s' →
      I (r.place x y + 1) s') (hscan : r.scan body s = .ok s') : I (r.dx * r.dy) s' := by
  obtain ⟨w, hw⟩ := Int.eq_ofNat_of_zero_le hdx
  obtain ⟨h, hh⟩ := Int.eq_ofNat_of_zero_le hdy
  rw [scan, hw, hh, Int.toNat_natCast, Int.toNat_natCast] at hscan
  rw [hw, hh, Int.mul_comm]
  refine of_repeatFor_eq_ok (fun j s => I (j * w) s) (by simpa using h₀) ?_ hscan
  intro j hj s s' hs hrow
  have hnext : ((j + 1 : ℕ) : ℤ) * w = j * w + w := by push_cast; ring
  rw [hnext]
  refine of_repeatFor_eq_ok (fun i s => I (j * w + i) s) (by simpa using hs) ?_ hrow
  intro i hi s s' hs hpoint
  have hplace := place_of_lt (r := r) i j
  rw [hw] at hplace
  have h := hstep _ _ (contains_of_lt (i := i) (j := j) (by omega) (by omega)) s s' (by rwa [hplace])
    hpoint
  rw [hplace] at h
  simpa [Int.add_assoc] using h

/-- What the turn of a point sets, and no other turn undoes, holds of all points in the end. -/
lemma ends_scan_set {J : σ → Prop} {R : ℤ → ℤ → σ → Prop} (hdx : 0 ≤ r.dx) (hdy : 0 ≤ r.dy)
    (hs : J s) (hstep : ∀ x y, r.contains x y → ∀ s, J s →
      Ends (fun s' => J s' ∧ R x y s' ∧ ∀ x' y', R x' y' s → R x' y' s') E (body x y s)) :
    Ends (fun s' => J s' ∧ (∀ x y, r.contains x y → R x y s') ∧ ∀ x y, R x y s → R x y s') E
      (r.scan body s) := by
  refine (ends_scan (fun k s' => J s' ∧ (∀ x y, r.contains x y → r.place x y < k → R x y s') ∧
    ∀ x y, R x y s → R x y s') ⟨hs, fun x y hxy hlt => ?_, fun _ _ h => h⟩ hdx hdy ?_).weaken
    (fun s' h => ⟨h.1, fun x y hxy => h.2.1 x y hxy (place_lt hxy), h.2.2⟩) fun _ h => h
  · exact absurd hlt (Int.not_lt.mpr (place_nonneg hxy))
  · intro x y hxy s₁ ⟨hJ, hdone, hkept⟩
    refine (hstep x y hxy s₁ hJ).weaken (fun s₂ ⟨hJ', hset, hkeep⟩ => ?_) fun _ h => h
    refine ⟨hJ', fun x' y' hxy' hlt => ?_, fun x' y' h => hkeep x' y' (hkept x' y' h)⟩
    by_cases heq : r.place x' y' = r.place x y
    · obtain ⟨rfl, rfl⟩ := place_inj hxy' hxy heq
      exact hset
    · exact hkeep x' y' (hdone x' y' hxy' (by omega))

end Rectangle

end GoImage
