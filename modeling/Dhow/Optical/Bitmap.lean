import Dhow.Lib.Image

/-!
# Binarization

The file `bitmap.go` of the package `optical`: a threshold for each block of eight by eight pixels,
from the block itself where it has contrast and from the blocks before it where it has none, then
averaged over five by five blocks. Pixels that are all black or all white come out as they are:
every threshold on the way stays above black and at most white.
-/

namespace Dhow.Optical
open Checked GoImage

variable {ε : Type}

structure Bitmap where
  w : ℤ
  h : ℤ
  dark : List Bool
  deriving DecidableEq

/-- Points outside the image read as light. -/
def Bitmap.darkAt (b : Bitmap) (x y : ℤ) : Checked ε Bool :=
  if x < 0 ∨ y < 0 ∨ x ≥ b.w ∨ y ≥ b.h then .ok false else index b.dark (y * b.w + x)

def blockSize : ℤ := 8

/-- The contrast up to which a block is taken for uniform. -/
def minDynamicRange : ℤ := 24

/-! ### Luminance -/

def luminanceScan (img : Image) (pixels : List UInt8) : Checked ε (List UInt8 × ℤ) :=
  img.bounds.scan (fun x y (pixels, i) => do
    let c ← img.colorAt x y
    let pixels ← store pixels i c.luma
    .ok (pixels, i + 1)) (pixels, 0)

/-- A grey image without gaps between its rows. -/
def packedGray (img : Image) (w : ℤ) : Option Gray :=
  match img with
  | .gray p => if p.stride = w then some p else none
  | _ => none

def luminance (img : Image) : Checked ε (List UInt8 × ℤ × ℤ) := do
  let b := img.bounds
  let w := int64 b.dx
  let h := int64 b.dy
  let pixels ← alloc 1 (int64 (w * h)) 0
  match packedGray img w with
  | some p => do
    let pix ← slice p.pix 0 (int64 (w * h))
    .ok (copy pixels pix, w, h)
  | none => do
    let (pixels, _) ← luminanceScan img pixels
    .ok (pixels, w, h)

/-! ### Thresholds -/

/-- The least and the greatest of the first `n` pixels. -/
def extremes (pixels : List UInt8) (n : ℤ) : Checked ε (UInt8 × UInt8) := do
  let first ← index pixels 0
  let part ← slice pixels 0 n
  forEach (fun p (lo, hi) => .ok (min lo p, max hi p)) part (first, first)

structure BlockStats where
  sum : ℤ
  lo : ℤ
  hi : ℤ
  n : ℤ

def BlockStats.add (s : BlockStats) (v : ℤ) : BlockStats :=
  ⟨s.sum + v, min s.lo v, max s.hi v, s.n + 1⟩

def blockRect (w h bx bY : ℤ) : Rectangle :=
  let x₀ := bx * blockSize
  let y₀ := bY * blockSize
  ⟨x₀, y₀, min (x₀ + blockSize) w, min (y₀ + blockSize) h⟩

def blockStats (pixels : List UInt8) (w h bx bY : ℤ) : Checked ε BlockStats :=
  (blockRect w h bx bY).scan (fun x y s => do
    let p ← index pixels (y * w + x)
    .ok (s.add p.toNat)) ⟨0, 255, 0, 0⟩

def blockThreshold (thresholds : List ℤ) (bw globalThreshold : ℤ) (s : BlockStats) (bx bY : ℤ) :
    Checked ε ℤ :=
  if s.hi - s.lo > minDynamicRange then quot s.sum s.n
  else if bx > 0 ∧ bY > 0 then do
    let above ← index thresholds ((bY - 1) * bw + bx)
    let left ← index thresholds (bY * bw + bx - 1)
    let corner ← index thresholds ((bY - 1) * bw + bx - 1)
    let neighbour := (above + 2 * left + corner).tdiv 4
    .ok (if s.lo ≥ neighbour then s.lo.tdiv 2 else neighbour)
  else .ok globalThreshold

def blockThresholds (pixels : List UInt8) (w h bw bh globalThreshold : ℤ) :
    Checked ε (List ℤ) := do
  let thresholds ← alloc 8 (int64 (bw * bh)) 0
  (⟨0, 0, bw, bh⟩ : Rectangle).scan (fun bx bY thresholds => do
    let s ← blockStats pixels w h bx bY
    let t ← blockThreshold thresholds bw globalThreshold s bx bY
    store thresholds (bY * bw + bx) t) thresholds

/-- The average over five by five blocks, less at the edges. -/
def smoothThreshold (thresholds : List ℤ) (bw bh bx bY : ℤ) : Checked ε ℤ := do
  let (sum, n) ← (⟨-2, -2, 3, 3⟩ : Rectangle).scan (fun dx dy (sum, n) =>
    let nx := bx + dx
    let ny := bY + dy
    if nx < 0 ∨ ny < 0 ∨ nx ≥ bw ∨ ny ≥ bh then .ok (sum, n)
    else do
      let t ← index thresholds (ny * bw + nx)
      .ok (sum + t, n + 1)) ((0 : ℤ), (0 : ℤ))
  quot sum n

/-! ### Binarization -/

def binarizeBlock (pixels : List UInt8) (w h t bx bY : ℤ) (dark : List Bool) :
    Checked ε (List Bool) :=
  (blockRect w h bx bY).scan (fun x y dark => do
    let p ← index pixels (y * w + x)
    store dark (y * w + x) (decide ((p.toNat : ℤ) < t))) dark

/-- An image too small to have blocks has one threshold. -/
def binarizeSmall (pixels : List UInt8) (w h : ℤ) (dark : List Bool) : Checked ε Bitmap := do
  let (lo, hi) ← extremes pixels (int64 (w * h))
  let threshold := (lo.toNat : ℤ) + ((hi.toNat : ℤ) - lo.toNat).tdiv 2
  let dark ← repeatFor (fun i dark => do
    let p ← index pixels i
    store dark i (decide ((p.toNat : ℤ) < threshold))) dark dark.length
  .ok ⟨w, h, dark⟩

def binarizeGray (pixels : List UInt8) (w h : ℤ) : Checked ε Bitmap := do
  let dark ← alloc 1 (int64 (w * h)) false
  if w ≤ 0 ∨ h ≤ 0 ∨ pixels.length < int64 (w * h) then .ok ⟨w, h, dark⟩
  else if w < blockSize ∨ h < blockSize then binarizeSmall pixels w h dark
  else do
    let (globalLo, globalHi) ← extremes pixels (int64 (w * h))
    let globalThreshold := ((globalLo.toNat : ℤ) + globalHi.toNat).tdiv 2
    let bw := (w + blockSize - 1).tdiv blockSize
    let bh := (h + blockSize - 1).tdiv blockSize
    let thresholds ← blockThresholds pixels w h bw bh globalThreshold
    let dark ← (⟨0, 0, bw, bh⟩ : Rectangle).scan (fun bx bY dark => do
      let t ← smoothThreshold thresholds bw bh bx bY
      binarizeBlock pixels w h t bx bY dark) dark
    .ok ⟨w, h, dark⟩

def binarize (img : Image) : Checked ε Bitmap := do
  let (pixels, w, h) ← luminance img
  binarizeGray pixels w h

/-! ### What the luminance holds -/

lemma gives_luminanceScan {img : Image} {color : ℤ → ℤ → Color} {pixels : List UInt8}
    (hdx : 0 ≤ img.bounds.dx) (hdy : 0 ≤ img.bounds.dy)
    (hcolor : ∀ x y, img.bounds.contains x y → (img.colorAt x y : Checked ε Color) = .ok (color x y))
    (hlen : pixels.length = (img.bounds.dx * img.bounds.dy).toNat) :
    Gives (fun r => r.1.length = pixels.length ∧ ∀ x y, img.bounds.contains x y →
        (index r.1 (img.bounds.place x y) : Checked ε UInt8) = .ok (color x y).luma)
      (luminanceScan img pixels : Checked ε (List UInt8 × ℤ)) := by
  unfold luminanceScan
  refine (Rectangle.ends_scan (fun k (r : List UInt8 × ℤ) => r.2 = k ∧ r.1.length = pixels.length ∧
    ∀ x y, img.bounds.contains x y → img.bounds.place x y < k →
      (index r.1 (img.bounds.place x y) : Checked ε UInt8) = .ok (color x y).luma)
    ⟨rfl, rfl, ?_⟩ hdx hdy ?_).weaken
    (fun r hr => ⟨hr.2.1, fun x y hxy => hr.2.2 x y hxy (Rectangle.place_lt hxy)⟩) fun _ h => h
  · intro x y hxy hlt
    exact absurd hlt (Int.not_lt.mpr (Rectangle.place_nonneg hxy))
  · rintro x y hxy ⟨ps, i⟩ ⟨hi, hps, hdone⟩
    have hlt := Rectangle.place_lt hxy
    have hnonneg := Rectangle.place_nonneg hxy
    dsimp only at hi hps hdone ⊢
    subst hi
    rw [hcolor x y hxy, ok_bind]
    refine Gives.bind (gives_store hnonneg (by omega)) fun ps' h => .ok ⟨rfl, h.1.trans hps, ?_⟩
    intro x' y' hxy' hlt'
    rw [h.2]
    split_ifs with heq
    · obtain ⟨rfl, rfl⟩ := Rectangle.place_inj hxy' hxy heq
      rfl
    · exact hdone x' y' hxy' (by omega)

end Dhow.Optical
