import Dhow.Optical.Thresholds

/-!
# Rendering

A grid of modules as an image, as the package `render` draws it, and what is left of it when the
image is binarized: every pixel is dark exactly when the module it lies in is.
-/

namespace Dhow.Optical
open Checked GoImage

variable {ε : Type}

/-- A square of modules. -/
structure QRCode where
  size : ℕ
  modules : List UInt8
  length_eq : modules.length = size * size

/-- Modules outside the grid are light. -/
def QRCode.dark (qr : QRCode) (x y : ℤ) : Checked ε Bool :=
  if x < 0 ∨ y < 0 ∨ x ≥ qr.size ∨ y ≥ qr.size then .ok false
  else do
    let m ← index qr.modules (y * qr.size + x)
    .ok (m = 1)

inductive RenderError
  | scaleTooSmall (scale : ℤ)
  deriving DecidableEq

def RenderError.text : RenderError → String
  | scaleTooSmall scale => s!"scale must be at least 1 pixel per module, got {scale}"

/-- The light margin, in modules. -/
def quietZone : ℤ := 4

def drawModule (scale x y : ℤ) (img : Paletted) : Checked ε Paletted :=
  let px := int64 ((x + quietZone) * scale)
  let py := int64 ((y + quietZone) * scale)
  (⟨0, 0, scale, scale⟩ : Rectangle).scan (fun dx dy img =>
    img.setColorIndex (int64 (px + dx)) (int64 (py + dy)) 1) img

def image (qr : QRCode) (scale : ℤ) : Checked RenderError Image :=
  if scale < 1 then fail (.scaleTooSmall scale)
  else do
    let total := int64 ((qr.size + 2 * quietZone) * scale)
    let img ← newPaletted (rect 0 0 total total) [Color.white, Color.black]
    let img ← (⟨0, 0, qr.size, qr.size⟩ : Rectangle).scan (fun x y img => do
      let dark ← qr.dark x y
      if dark then drawModule scale x y img else .ok img) img
    .ok (.paletted img)

/-! ### Modules -/

namespace QRCode
variable (qr : QRCode)

/-- Whether a module is in the grid and dark. -/
def IsDark (x y : ℤ) : Prop :=
  (0 ≤ x ∧ x < qr.size ∧ 0 ≤ y ∧ y < qr.size) ∧ qr.modules[(y * qr.size + x).toNat]? = some 1

instance (x y : ℤ) : Decidable (qr.IsDark x y) := by
  unfold IsDark
  infer_instance

lemma dark_eq (x y : ℤ) : (qr.dark x y : Checked ε Bool) = .ok (decide (qr.IsDark x y)) := by
  unfold dark
  by_cases hin : 0 ≤ x ∧ x < qr.size ∧ 0 ≤ y ∧ y < qr.size
  · have hcell := cell_lt hin.2.1 hin.2.2.2 (Int.natCast_nonneg qr.size)
    have hcell₀ := cell_nonneg hin.1 hin.2.1 hin.2.2.1
    have hlen : ((qr.modules.length : ℕ) : ℤ) = qr.size * qr.size := by rw [qr.length_eq]; rfl
    obtain ⟨m, hm⟩ : ∃ m, qr.modules[(y * qr.size + x).toNat]? = some m :=
      ⟨_, List.getElem?_eq_getElem (by omega)⟩
    rw [if_neg (by omega), index_eq (Int.toNat_of_nonneg hcell₀).symm hm, ok_bind]
    congr 1
    apply decide_eq_decide.mpr
    unfold IsDark
    rw [hm, Option.some_inj]
    exact (and_iff_right hin).symm
  · rw [if_pos (by omega), decide_eq_false_iff_not.mpr fun h : qr.IsDark x y => hin h.1]

end QRCode

/-- The module that a pixel lies in. -/
lemma module_eq_iff {scale X x : ℤ} (hscale : 1 ≤ scale) :
    X / scale - quietZone = x ↔
      (x + quietZone) * scale ≤ X ∧ X < (x + quietZone) * scale + scale := by
  have hlo := Int.le_ediv_iff_mul_le (a := x + quietZone) (b := X) (c := scale) (by omega)
  have hhi := Int.ediv_lt_iff_lt_mul (a := X) (b := x + quietZone + 1) (c := scale) (by omega)
  rw [add_mul _ 1 scale, one_mul] at hhi
  omega

/-! ### The picture -/

section Picture
variable {qr : QRCode} {scale : ℤ}

def total (qr : QRCode) (scale : ℤ) : ℤ := (qr.size + 2 * quietZone) * scale

/-- The pixels of a module are in the picture. -/
lemma module_bounds (hscale : 1 ≤ scale) {z : ℤ} (hz₀ : 0 ≤ z) (hz : z < qr.size) :
    0 ≤ (z + quietZone) * scale ∧ (z + quietZone) * scale + scale ≤ total qr scale := by
  unfold total quietZone
  constructor
  · exact Int.mul_nonneg (by omega) (by omega)
  · calc (z + 4) * scale + scale = (z + 5) * scale := by ring
      _ ≤ (qr.size + 2 * 4) * scale := Int.mul_le_mul_of_nonneg_right (by omega) (by omega)

lemma eight_le_total (qr : QRCode) (hscale : 1 ≤ scale) : 8 ≤ total qr scale := by
  have h : 8 * 1 ≤ (qr.size + 2 * quietZone) * scale :=
    Int.mul_le_mul (by unfold quietZone; omega) hscale (by decide) (by unfold quietZone; omega)
  exact h

def picture (qr : QRCode) (scale : ℤ) : Rectangle := ⟨0, 0, total qr scale, total qr scale⟩

lemma dx_picture (qr : QRCode) (scale : ℤ) : (picture qr scale).dx = total qr scale :=
  Int.sub_zero _

lemma dy_picture (qr : QRCode) (scale : ℤ) : (picture qr scale).dy = total qr scale :=
  Int.sub_zero _

/-- A side is no longer than all the pixels are many. -/
lemma total_le_maxAlloc (hscale : 1 ≤ scale) (hroom : total qr scale * total qr scale ≤ maxAlloc) :
    total qr scale ≤ maxAlloc := by
  have h8 := eight_le_total qr hscale
  calc total qr scale = 1 * total qr scale := (Int.one_mul _).symm
    _ ≤ total qr scale * total qr scale := Int.mul_le_mul_of_nonneg_right (by omega) (by omega)
    _ ≤ maxAlloc := hroom

lemma sized_picture (hscale : 1 ≤ scale) (hroom : total qr scale * total qr scale ≤ maxAlloc) :
    (picture qr scale).Sized := by
  have h8 := eight_le_total qr hscale
  have hle := total_le_maxAlloc hscale hroom
  unfold maxAlloc at hle
  constructor <;> simp only [dx_picture, dy_picture] <;> omega

/-- Where the picture fits a slice, the pixels of its modules are counted right. -/
lemma int64_pixel (hscale : 1 ≤ scale) (hroom : total qr scale * total qr scale ≤ maxAlloc) {z d : ℤ}
    (hz₀ : 0 ≤ z) (hz : z < qr.size) (hd₀ : 0 ≤ d) (hd : d < scale) :
    int64 (int64 ((z + quietZone) * scale) + d) = (z + quietZone) * scale + d := by
  have hbounds := module_bounds hscale hz₀ hz
  have hle := total_le_maxAlloc hscale hroom
  rw [int64_of_le_maxAlloc (x := (z + quietZone) * scale) hbounds.1 (by omega),
    int64_of_le_maxAlloc (by omega) (by omega)]

/-- A picture on which nothing is drawn outside the dark modules. -/
structure Canvas (ε : Type) (qr : QRCode) (scale : ℤ) (img : Paletted) : Prop where
  rect_eq : img.rect = ⟨0, 0, total qr scale, total qr scale⟩
  stride_eq : img.stride = total qr scale
  palette_eq : img.palette = [Color.white, Color.black]
  length_eq : img.pix.length = (total qr scale * total qr scale).toNat
  light : ∀ X Y, img.rect.contains X Y →
    (index img.pix (img.rect.place X Y) : Checked ε UInt8) = .ok 0 ∨
      (index img.pix (img.rect.place X Y) : Checked ε UInt8) = .ok 1 ∧
        qr.IsDark (X / scale - quietZone) (Y / scale - quietZone)

/-- What is drawn at a point, once it is. -/
def Drawn (ε : Type) (t X Y : ℤ) (img : Paletted) : Prop :=
  (index img.pix (Y * t + X) : Checked ε UInt8) = .ok 1

namespace Canvas

lemma place_eq {img : Paletted} (hc : Canvas ε qr scale img) (X Y : ℤ) :
    img.rect.place X Y = Y * total qr scale + X := by
  rw [hc.rect_eq, Rectangle.place, Rectangle.dx]
  simp

lemma pixOffset_eq {img : Paletted} (hc : Canvas ε qr scale img) (X Y : ℤ) :
    img.pixOffset X Y = Y * total qr scale + X := by
  rw [Paletted.pixOffset, hc.rect_eq, hc.stride_eq, Int.sub_zero, Int.sub_zero]

lemma place_bounds {img : Paletted} (hc : Canvas ε qr scale img) {X Y : ℤ}
    (hXY : img.rect.contains X Y) :
    0 ≤ Y * total qr scale + X ∧ Y * total qr scale + X < img.pix.length := by
  have h₀ := Rectangle.place_nonneg hXY
  have h₁ := Rectangle.place_lt hXY
  have hside : img.rect.dx * img.rect.dy = total qr scale * total qr scale := by
    rw [hc.rect_eq, Rectangle.dx, Rectangle.dy]
    simp
  rw [hc.place_eq] at h₀ h₁
  rw [hc.length_eq]
  omega

lemma setColorIndex {img : Paletted} (hc : Canvas ε qr scale img) {X Y : ℤ}
    (hXY : img.rect.contains X Y)
    (hdark : qr.IsDark (X / scale - quietZone) (Y / scale - quietZone)) :
    Gives (fun img' => Canvas ε qr scale img' ∧ Drawn ε (total qr scale) X Y img' ∧
        ∀ X' Y', Drawn ε (total qr scale) X' Y' img → Drawn ε (total qr scale) X' Y' img')
      (img.setColorIndex X Y 1 : Checked ε Paletted) := by
  obtain ⟨h₀, h₁⟩ := hc.place_bounds hXY
  rw [Paletted.setColorIndex, if_pos hXY, hc.pixOffset_eq]
  refine Gives.bind (gives_store h₀ h₁) fun pix ⟨hlen, hpix⟩ => .ok ⟨?_, ?_, ?_⟩
  · refine ⟨hc.rect_eq, hc.stride_eq, hc.palette_eq, hlen.trans hc.length_eq, fun X' Y' hXY' => ?_⟩
    dsimp only at hXY' ⊢
    rw [hpix]
    split_ifs with heq
    · rw [← hc.place_eq] at heq
      obtain ⟨rfl, rfl⟩ := Rectangle.place_inj hXY' hXY heq
      exact .inr ⟨rfl, hdark⟩
    · exact hc.light X' Y' hXY'
  · unfold Drawn
    rw [hpix, if_pos rfl]
  · intro X' Y' hdrawn
    unfold Drawn at hdrawn ⊢
    rw [hpix]
    split_ifs
    · rfl
    · exact hdrawn

end Canvas

lemma gives_drawModule (hscale : 1 ≤ scale)
    (hroom : total qr scale * total qr scale ≤ maxAlloc) {x y : ℤ} (hdark : qr.IsDark x y)
    {img : Paletted} (hc : Canvas ε qr scale img) :
    Gives (fun img' => Canvas ε qr scale img' ∧
        (∀ X Y, X / scale - quietZone = x → Y / scale - quietZone = y →
          Drawn ε (total qr scale) X Y img') ∧
        ∀ X Y, Drawn ε (total qr scale) X Y img → Drawn ε (total qr scale) X Y img')
      (drawModule scale x y img : Checked ε Paletted) := by
  obtain ⟨⟨hx₀, hx, hy₀, hy⟩, -⟩ := id hdark
  have hxb := module_bounds hscale hx₀ hx
  have hyb := module_bounds hscale hy₀ hy
  unfold drawModule
  have hscale₀ : 0 ≤ scale := by omega
  have hdx : 0 ≤ (⟨0, 0, scale, scale⟩ : Rectangle).dx := Int.sub_nonneg.mpr hscale₀
  have hdy : 0 ≤ (⟨0, 0, scale, scale⟩ : Rectangle).dy := Int.sub_nonneg.mpr hscale₀
  refine (Rectangle.ends_scan_set (J := Canvas ε qr scale)
    (R := fun dx dy => Drawn ε (total qr scale) ((x + quietZone) * scale + dx)
      ((y + quietZone) * scale + dy)) hdx hdy hc
    fun dx dy hpoint img hc => ?_).weaken
    (fun img' h => ⟨h.1, fun X Y hX hY => ?_, fun X Y hdrawn => ?_⟩) fun _ h => h
  · obtain ⟨hdx₀, hdx, hdy₀, hdy⟩ := hpoint
    dsimp only at hdx₀ hdx hdy₀ hdy
    have hX : ((x + quietZone) * scale + dx) / scale - quietZone = x :=
      (module_eq_iff hscale).mpr ⟨by omega, by omega⟩
    have hY : ((y + quietZone) * scale + dy) / scale - quietZone = y :=
      (module_eq_iff hscale).mpr ⟨by omega, by omega⟩
    rw [int64_pixel hscale hroom hx₀ hx hdx₀ hdx, int64_pixel hscale hroom hy₀ hy hdy₀ hdy]
    refine (hc.setColorIndex ?_ (by rwa [hX, hY])).weaken
      (fun img' h => ⟨h.1, h.2.1, fun dx' dy' => h.2.2 _ _⟩) fun _ h => h
    rw [hc.rect_eq]
    unfold Rectangle.contains
    dsimp only
    omega
  · have hX := (module_eq_iff hscale).mp hX
    have hY := (module_eq_iff hscale).mp hY
    have h := h.2.1 (X - (x + quietZone) * scale) (Y - (y + quietZone) * scale) (by
      unfold Rectangle.contains
      dsimp only
      omega)
    rwa [add_sub_cancel, add_sub_cancel] at h
  · have h := h.2.2 (X - (x + quietZone) * scale) (Y - (y + quietZone) * scale)
    rw [add_sub_cancel, add_sub_cancel] at h
    exact h hdrawn

/-- The colour of a pixel of the picture. -/
def pixelColor (qr : QRCode) (scale X Y : ℤ) : Color :=
  if qr.IsDark (X / scale - quietZone) (Y / scale - quietZone) then Color.black else Color.white

lemma canvas_new (hscale : 1 ≤ scale) (hroom : total qr scale * total qr scale ≤ maxAlloc) :
    Gives (Canvas ε qr scale) (newPaletted (rect 0 0 (total qr scale) (total qr scale))
      [Color.white, Color.black] : Checked ε Paletted) := by
  have h8 := eight_le_total qr hscale
  have hrect : rect 0 0 (total qr scale) (total qr scale) = picture qr scale := by
    rw [rect, min_eq_left (by omega), max_eq_right (by omega), picture]
  rw [hrect, (sized_picture hscale hroom).newPaletted_eq (by rwa [dx_picture, dy_picture]),
    dx_picture, dy_picture]
  refine .ok ⟨rfl, rfl, rfl, List.length_replicate, fun X Y hXY => .inl ?_⟩
  have h₀ := Rectangle.place_nonneg hXY
  have h₁ := Rectangle.place_lt hXY
  dsimp only at h₀ h₁ ⊢
  rw [dx_picture, dy_picture] at h₁
  refine index_eq (Int.toNat_of_nonneg h₀).symm ?_
  rw [List.getElem?_replicate, if_pos (by omega)]

lemma Canvas.colorAt_eq {img : Paletted} (hc : Canvas ε qr scale img)
    (hdrawn : ∀ X Y, qr.IsDark (X / scale - quietZone) (Y / scale - quietZone) →
      Drawn ε (total qr scale) X Y img) {X Y : ℤ} (hXY : img.rect.contains X Y) :
    (img.colorAt X Y : Checked ε Color) = .ok (pixelColor qr scale X Y) := by
  rw [Paletted.colorAt, if_pos hXY, hc.pixOffset_eq, hc.palette_eq, pixelColor]
  by_cases hdark : qr.IsDark (X / scale - quietZone) (Y / scale - quietZone)
  · rw [hdrawn X Y hdark, if_pos hdark]
    rfl
  · have hlight := hc.light X Y hXY
    rw [hc.place_eq] at hlight
    rw [hlight.resolve_right fun h => hdark h.2, if_neg hdark]
    rfl

lemma gives_image (hscale : 1 ≤ scale) (hroom : total qr scale * total qr scale ≤ maxAlloc) :
    Gives (fun img => ∃ p, img = .paletted p ∧
        p.rect = picture qr scale ∧ ∀ X Y, p.rect.contains X Y →
          (p.colorAt X Y : Checked RenderError Color) = .ok (pixelColor qr scale X Y))
      (image qr scale) := by
  have htotal : int64 ((qr.size + 2 * quietZone) * scale) = total qr scale :=
    int64_of_le_maxAlloc (by have := eight_le_total qr hscale; unfold total at this; omega)
      (total_le_maxAlloc hscale hroom)
  rw [image, if_neg (by omega), htotal]
  refine Gives.bind (canvas_new hscale hroom) fun img hc => ?_
  refine Gives.bind (Rectangle.ends_scan_set (J := Canvas RenderError qr scale)
    (R := fun x y img => qr.IsDark x y → ∀ X Y, X / scale - quietZone = x →
      Y / scale - quietZone = y → Drawn RenderError (total qr scale) X Y img)
    (by simp [Rectangle.dx]) (by simp [Rectangle.dy]) hc fun x y hpoint img hc => ?_)
    fun img h => .ok ⟨img, rfl, h.1.rect_eq, ?_⟩
  · rw [qr.dark_eq, ok_bind]
    by_cases hdark : qr.IsDark x y
    · rw [if_pos (decide_eq_true hdark)]
      refine (gives_drawModule hscale hroom hdark hc).weaken (fun img' h => ?_) fun _ h => h
      exact ⟨h.1, fun _ => h.2.1, fun x' y' hkeep hdark' X Y hX hY =>
        h.2.2 X Y (hkeep hdark' X Y hX hY)⟩
    · rw [if_neg (by simpa using hdark)]
      exact .ok ⟨hc, fun h => absurd h hdark, fun _ _ h => h⟩
  · intro X Y hXY
    refine h.1.colorAt_eq (fun X Y hdark => ?_) hXY
    obtain ⟨hx₀, hx, hy₀, hy⟩ := hdark.1
    exact h.2.1 _ _ ⟨hx₀, hx, hy₀, hy⟩ hdark X Y rfl rfl

/-- Black where a module is dark and white elsewhere, quiet zone and all. -/
def Luminous (qr : QRCode) (scale t : ℤ) (pixels : List UInt8) : Prop :=
  ∀ X Y, 0 ≤ X → X < t → 0 ≤ Y → Y < t →
    (index pixels (Y * t + X) : Checked RenderError UInt8) =
      .ok (if qr.IsDark (X / scale - quietZone) (Y / scale - quietZone) then 0 else 255)

lemma gives_luminance (hscale : 1 ≤ scale)
    (hroom : total qr scale * total qr scale ≤ maxAlloc) :
    Gives (fun r => r.2 = (total qr scale, total qr scale) ∧
        r.1.length = (total qr scale * total qr scale).toNat ∧
        Luminous qr scale (total qr scale) r.1)
      (image qr scale >>= luminance) := by
  refine Gives.bind (gives_image hscale hroom) ?_
  rintro img ⟨p, rfl, hrect, hcolor⟩
  have hbounds : (Image.paletted p).bounds = picture qr scale := hrect
  have hsized := sized_picture hscale hroom
  have harea : (picture qr scale).dx * (picture qr scale).dy ≤ maxAlloc := by
    rwa [dx_picture, dy_picture]
  unfold luminance
  dsimp only
  rw [hbounds, hsized.int64_dx, hsized.int64_dy, hsized.int64_area harea,
    alloc_one_eq hsized.area_nonneg harea, ok_bind]
  refine Gives.bind (gives_luminanceScan (by rw [hbounds]; exact hsized.dx_nonneg)
    (by rw [hbounds]; exact hsized.dy_nonneg) hcolor (by rw [hbounds, List.length_replicate])) ?_
  rintro ⟨pixels, n⟩ ⟨hpixels, hluma⟩
  rw [hbounds] at hluma
  simp only [dx_picture, dy_picture] at hpixels ⊢
  refine .ok ⟨rfl, hpixels.trans List.length_replicate, fun X Y hX₀ hX hY₀ hY => ?_⟩
  have h := hluma X Y ⟨hX₀, hX, hY₀, hY⟩
  rw [Rectangle.place, dx_picture, picture] at h
  rw [Int.sub_zero, Int.sub_zero] at h
  rw [h, pixelColor]
  split_ifs <;> rfl

/-- A pixel of every module of the grid is in the picture. -/
lemma exists_pixel (hscale : 1 ≤ scale) {x : ℤ} (hx₀ : -quietZone ≤ x) (hx : x < qr.size) :
    ∃ X, 0 ≤ X ∧ X < total qr scale ∧ X / scale - quietZone = x := by
  refine ⟨(x + quietZone) * scale, Int.mul_nonneg (by omega) (by omega), ?_, ?_⟩
  · exact Int.mul_lt_mul_of_pos_right (by unfold quietZone; omega) (by omega)
  · exact (module_eq_iff hscale).mpr ⟨le_rfl, by omega⟩

lemma mem_take_of_index {pixels : List UInt8} {n : ℕ} {i : ℤ} {p : UInt8} (h₀ : 0 ≤ i) (hi : i < n)
    (h : (index pixels i : Checked ε UInt8) = .ok p) : p ∈ pixels.take n := by
  obtain ⟨k, rfl⟩ := Int.eq_ofNat_of_zero_le h₀
  refine List.mem_iff_getElem?.mpr ⟨k, ?_⟩
  rw [List.getElem?_take_of_lt (Int.ofNat_lt.mp hi)]
  exact index_eq_ok_iff.mp h

lemma Luminous.bilevel {t : ℤ} {pixels : List UInt8} (h : Luminous qr scale t pixels) (ht : 8 ≤ t)
    (hlen : pixels.length = (t * t).toNat) : Bilevel pixels t t := by
  refine ⟨hlen.ge, fun p hp => ?_⟩
  obtain ⟨k, hk⟩ := List.mem_iff_getElem?.mp hp
  have hkn : k < (t * t).toNat := by
    have hlt := (List.getElem?_eq_some_iff.mp hk).1
    rw [List.length_take] at hlt
    omega
  rw [List.getElem?_take_of_lt hkn] at hk
  have hrow : (k : ℤ) / t < t := Int.ediv_lt_of_lt_mul (by omega) (by omega)
  have hcell := h (k % t) (k / t) (Int.emod_nonneg _ (by omega)) (Int.emod_lt_of_pos _ (by omega))
    (Int.ediv_nonneg (by omega) (by omega)) hrow
  rw [Int.ediv_mul_add_emod, index_eq rfl hk] at hcell
  cases hcell
  split_ifs
  · exact .inl rfl
  · exact .inr rfl

/-- The shade of every module of the grid and of the quiet zone before it is among the pixels. -/
lemma Luminous.mem {pixels : List UInt8} (h : Luminous qr scale (total qr scale) pixels)
    (hscale : 1 ≤ scale) {x y : ℤ} (hx₀ : -quietZone ≤ x) (hx : x < qr.size) (hy₀ : -quietZone ≤ y)
    (hy : y < qr.size) :
    (if qr.IsDark x y then (0 : UInt8) else 255) ∈
      pixels.take (total qr scale * total qr scale).toNat := by
  obtain ⟨X, hX₀, hX, hXx⟩ := exists_pixel hscale hx₀ hx
  obtain ⟨Y, hY₀, hY, hYy⟩ := exists_pixel hscale hy₀ hy
  have hcell := h X Y hX₀ hX hY₀ hY
  rw [hXx, hYy] at hcell
  have hlt := cell_lt hX hY (by omega)
  exact mem_take_of_index (cell_nonneg hX₀ hX hY₀) (by omega) hcell

lemma gives_binarize_image (hscale : 1 ≤ scale)
    (hroom : total qr scale * total qr scale ≤ maxAlloc) (hdark : ∃ x y, qr.IsDark x y) :
    Gives (fun b => b.w = total qr scale ∧ b.h = total qr scale ∧
        ∀ X Y, 0 ≤ X → X < total qr scale → 0 ≤ Y → Y < total qr scale →
          (b.darkAt X Y : Checked RenderError Bool) =
            .ok (decide (qr.IsDark (X / scale - quietZone) (Y / scale - quietZone))))
      (image qr scale >>= binarize) := by
  have ht := eight_le_total qr hscale
  have hbinarize : image qr scale >>= binarize =
      (image qr scale >>= luminance) >>= fun r => binarizeGray r.1 r.2.1 r.2.2 := by
    rw [bind_assoc]
    rfl
  rw [hbinarize]
  refine Gives.bind (gives_luminance hscale hroom) ?_
  rintro ⟨pixels, w, h⟩ ⟨hwh, hlen, hpixels : Luminous qr scale (total qr scale) pixels⟩
  cases hwh
  have hb := hpixels.bilevel ht hlen
  obtain ⟨x, y, hdark⟩ := hdark
  obtain ⟨hx₀, hx, hy₀, hy⟩ := hdark.1
  have hblack := hpixels.mem hscale (x := x) (y := y) (by unfold quietZone; omega) hx
    (by unfold quietZone; omega) hy
  rw [if_pos hdark] at hblack
  -- The corner of the quiet zone is white.
  have hcorner : ¬qr.IsDark (-quietZone) (-quietZone) := fun h => absurd h.1.1 (by decide)
  have hwhite := hpixels.mem hscale (x := -quietZone) (y := -quietZone) le_rfl
    (by unfold quietZone; omega) le_rfl (by unfold quietZone; omega)
  rw [if_neg hcorner] at hwhite
  refine (gives_binarizeGray hb ht ht hroom hblack hwhite).weaken (fun b hb => ?_) fun _ h => h
  obtain ⟨hw, hh, hmarked⟩ := hb
  refine ⟨hw, hh, fun X Y hX₀ hX hY₀ hY => ?_⟩
  obtain ⟨p, hp, hmark⟩ := hmarked X Y hX₀ hX hY₀ hY
  rw [hpixels X Y hX₀ hX hY₀ hY] at hp
  cases hp
  rw [Bitmap.darkAt, if_neg (by omega), hw, hmark]
  congr 1
  apply decide_eq_decide.mpr
  split_ifs with hd
  · exact ⟨fun _ => hd, fun _ => rfl⟩
  · exact ⟨fun h => absurd h (by decide), fun h => absurd h hd⟩

end Picture

/-- Black and white pixels in a slice come out as they are, and so does a symbol at every scale at
which its picture fits a slice. -/
theorem binarize_exact :
    (∀ (pixels : List UInt8) (w h : ℕ), pixels.length ≤ maxAlloc → 8 ≤ w → 8 ≤ h →
      w * h ≤ pixels.length → (∀ p ∈ pixels.take (w * h), p = 0 ∨ p = 255) →
      0 ∈ pixels.take (w * h) → 255 ∈ pixels.take (w * h) →
      ∃ b, (binarizeGray pixels w h : Checked ε Bitmap) = .ok b ∧ ∀ x < w, ∀ y < h,
        ∃ p, pixels[y * w + x]? = some p ∧
          (b.darkAt x y : Checked ε Bool) = .ok (decide (p = 0))) ∧
    ∀ (qr : QRCode) (scale : ℤ), 1 ≤ scale → total qr scale * total qr scale ≤ maxAlloc →
      (∃ x y, (qr.dark x y : Checked RenderError Bool) = .ok true) →
      ∃ b, (image qr scale >>= binarize) = .ok b ∧ ∀ px py,
        (b.darkAt px py : Checked RenderError Bool) =
          qr.dark (px / scale - quietZone) (py / scale - quietZone) := by
  constructor
  · intro pixels w h hslice hw hh hlen hlevels hblack hwhite
    have harea : ((w : ℤ) * h).toNat = w * h := by rw [← Int.natCast_mul, Int.toNat_natCast]
    have hb : Bilevel pixels w h := ⟨by omega, by rwa [harea]⟩
    rw [← harea] at hblack hwhite
    obtain ⟨b, hbin, hbw, hbh, hmarked⟩ := gives_iff.mp
      (gives_binarizeGray (ε := ε) hb (by omega) (by omega) (by omega) hblack hwhite)
    refine ⟨b, hbin, fun x hx y hy => ?_⟩
    obtain ⟨p, hp, hmark⟩ := hmarked x y (by omega) (by omega) (by omega) (by omega)
    refine ⟨p, ?_, ?_⟩
    · rw [← Int.natCast_mul, ← Int.natCast_add] at hp
      exact index_eq_ok_iff.mp hp
    · rw [Bitmap.darkAt, if_neg (by omega), hbw, hmark]
  · intro qr scale hscale hroom hdark
    have hdark : ∃ x y, qr.IsDark x y := by
      obtain ⟨x, y, h⟩ := hdark
      rw [qr.dark_eq] at h
      cases hd : decide (qr.IsDark x y) with
      | true => exact ⟨x, y, of_decide_eq_true hd⟩
      | false =>
        rw [hd] at h
        cases h
    obtain ⟨b, hbin, hbw, hbh, hmarked⟩ := gives_iff.mp (gives_binarize_image hscale hroom hdark)
    refine ⟨b, hbin, fun px py => ?_⟩
    by_cases hin : 0 ≤ px ∧ px < total qr scale ∧ 0 ≤ py ∧ py < total qr scale
    · rw [qr.dark_eq]
      exact hmarked px py hin.1 hin.2.1 hin.2.2.1 hin.2.2.2
    · have hlight : ¬qr.IsDark (px / scale - quietZone) (py / scale - quietZone) := by
        rintro ⟨⟨hx₀, hx, hy₀, hy⟩, -⟩
        have hX := (module_eq_iff hscale).mp (Eq.refl (px / scale - quietZone))
        have hY := (module_eq_iff hscale).mp (Eq.refl (py / scale - quietZone))
        have hxb := module_bounds hscale hx₀ hx
        have hyb := module_bounds hscale hy₀ hy
        omega
      rw [qr.dark_eq, Bitmap.darkAt, if_pos (by omega)]
      congr 1
      exact (decide_eq_false hlight).symm

/-- Eight by eight pixels, the first of them black. -/
def oneBlackPixel : List UInt8 := 0 :: List.replicate 63 255

lemma mem_oneBlackPixel {p : UInt8} (hp : p ∈ oneBlackPixel) : p = 0 ∨ p = 255 := by
  rcases List.mem_cons.mp hp with rfl | hp
  · exact .inl rfl
  · exact .inr (List.eq_of_mem_replicate hp)

theorem binarize_exact_small :
    (∃ b, (binarizeGray oneBlackPixel 8 8 : Checked RenderError Bitmap) = .ok b ∧
      ∀ x : ℕ, x < 8 → ∀ y : ℕ, y < 8 → ∃ p, oneBlackPixel[y * 8 + x]? = some p ∧
        (b.darkAt x y : Checked RenderError Bool) = .ok (decide (p = 0))) ∧
    ∃ b, (image ⟨1, [1], rfl⟩ 3 >>= binarize) = .ok b ∧ ∀ px py,
      (b.darkAt px py : Checked RenderError Bool) =
        (⟨1, [1], rfl⟩ : QRCode).dark (px / 3 - quietZone) (py / 3 - quietZone) :=
  ⟨binarize_exact.1 oneBlackPixel 8 8 (by decide) le_rfl le_rfl (by decide)
      (fun _ hp => mem_oneBlackPixel (List.mem_of_mem_take hp)) (by decide) (by decide),
    (binarize_exact (ε := RenderError)).2 ⟨1, [1], rfl⟩ 3 (by decide) (by decide) ⟨0, 0, rfl⟩⟩

/-- A grid of the smallest size of a symbol. -/
def darkGrid : QRCode := ⟨21, List.replicate (21 * 21) 1, List.length_replicate⟩

/-- Where the picture does not fit a slice, there is none. -/
theorem binarize_large :
    (darkGrid.dark 0 0 : Checked RenderError Bool) = .ok true ∧
      (image darkGrid 200000000 >>= binarize) = .error (.panic .length) := by
  have htotal : int64 ((darkGrid.size + 2 * quietZone) * 200000000) = 5800000000 := by
    rw [show ((darkGrid.size : ℕ) : ℤ) = 21 from rfl]
    decide
  have hlength : pixelBufferLength (rect 0 0 5800000000 5800000000) = -1 := by decide
  have hnew : (newPaletted (rect 0 0 5800000000 5800000000) [Color.white, Color.black] :
      Checked RenderError Paletted) = .error (.panic .length) := by
    rw [newPaletted, hlength]
    rfl
  constructor
  · rw [darkGrid.dark_eq]
    rfl
  · rw [image, if_neg (by decide), htotal]
    dsimp only
    rw [hnew]
    rfl

end Dhow.Optical
