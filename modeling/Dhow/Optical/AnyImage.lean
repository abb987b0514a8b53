import Dhow.Optical.Thresholds

/-!
# Binarization of any image

Whatever the pixels of an image are, there is a threshold for each of its blocks, from black to
white: no block is without pixels, a block with contrast has more than none, and the blocks that a
threshold is taken from have theirs already. So binarization ends with one bit for each pixel, and
no white pixel comes out dark.
-/

namespace Dhow.Optical
open Checked GoImage

variable {ε : Type} {pixels : List UInt8} {w h bx bY : ℤ}

/-- From black to white. -/
def IsShade (t : ℤ) : Prop := 0 ≤ t ∧ t ≤ 255

lemma isShade_toNat (p : UInt8) : IsShade p.toNat := by
  have hp : p.toNat < 256 := p.toNat_lt
  unfold IsShade
  omega

/-- From one shade halfway to another. -/
lemma isShade_halfway (lo hi : UInt8) :
    IsShade ((lo.toNat : ℤ) + ((hi.toNat : ℤ) - lo.toNat).tdiv 2) := by
  obtain ⟨hlo₀, hlo⟩ := isShade_toNat lo
  obtain ⟨hhi₀, hhi⟩ := isShade_toNat hi
  unfold IsShade
  rcases le_total (lo.toNat : ℤ) hi.toNat with hle | hle
  · rw [Int.tdiv_eq_ediv_of_nonneg (by omega)]
    omega
  · rw [← neg_sub (lo.toNat : ℤ) hi.toNat, Int.neg_tdiv, Int.tdiv_eq_ediv_of_nonneg (by omega)]
    omega

lemma isShade_mean (lo hi : UInt8) : IsShade (((lo.toNat : ℤ) + hi.toNat).tdiv 2) := by
  obtain ⟨hlo₀, hlo⟩ := isShade_toNat lo
  obtain ⟨hhi₀, hhi⟩ := isShade_toNat hi
  unfold IsShade
  rw [Int.tdiv_eq_ediv_of_nonneg (by omega)]
  omega

lemma gives_quot_shade {sum n : ℤ} (hn : 1 ≤ n) (hlo : 0 ≤ sum) (hhi : sum ≤ 255 * n) :
    Gives IsShade (quot sum n : Checked ε ℤ) := by
  rw [quot, if_neg (by omega), Int.tdiv_eq_ediv_of_nonneg hlo]
  refine .ok ⟨Int.ediv_nonneg hlo (by omega), ?_⟩
  exact Int.ediv_le_of_le_mul (by omega) hhi

/-! ### Blocks -/

/-- The pixels of the image are there. -/
def Covers (pixels : List UInt8) (w h : ℤ) : Prop := (w * h).toNat ≤ pixels.length

lemma Covers.exists_index (hc : Covers pixels w h) (hbx₀ : 0 ≤ bx) (hbY₀ : 0 ≤ bY) {x y : ℤ}
    (hxy : (blockRect w h bx bY).contains x y) :
    (0 ≤ y * w + x ∧ y * w + x < w * h) ∧
      ∃ p, (index pixels (y * w + x) : Checked ε UInt8) = .ok p := by
  obtain ⟨⟨hx, hxw⟩, hy, hyh⟩ := (blockRect_contains_iff x y).mp hxy
  have hlt := cell_lt hxw hyh (by omega)
  have hnonneg := cell_nonneg (show 0 ≤ x by omega) hxw (show 0 ≤ y by omega)
  have hin : y * w + x < ((w * h).toNat : ℤ) := by omega
  obtain ⟨p, -, hindex⟩ := Checked.exists_index hnonneg hin hc
  exact ⟨⟨hnonneg, hlt⟩, p, hindex ε⟩

/-- The statistics of some pixels: without any, the block has no contrast. -/
structure BlockStats.Sound (s : BlockStats) : Prop where
  n_nonneg : 0 ≤ s.n
  sum_nonneg : 0 ≤ s.sum
  sum_le : s.sum ≤ 255 * s.n
  lo_shade : IsShade s.lo
  hi_shade : IsShade s.hi
  empty : s.n = 0 → s.hi = 0

lemma BlockStats.Sound.add {s : BlockStats} (hs : s.Sound) (p : UInt8) :
    (s.add p.toNat).Sound := by
  obtain ⟨hn, hsum₀, hsum, ⟨hlo₀, hlo⟩, ⟨hhi₀, hhi⟩, -⟩ := hs
  obtain ⟨hp₀, hp⟩ := isShade_toNat p
  refine ⟨?_, ?_, ?_, ⟨?_, ?_⟩, ⟨?_, ?_⟩, ?_⟩ <;> simp only [BlockStats.add] <;> omega

lemma gives_blockStats_sound (hc : Covers pixels w h) (hbx₀ : 0 ≤ bx) (hbx : bx * 8 < w)
    (hbY₀ : 0 ≤ bY) (hbY : bY * 8 < h) :
    Gives BlockStats.Sound (blockStats pixels w h bx bY : Checked ε BlockStats) := by
  obtain ⟨⟨hdx, -⟩, hdy, -⟩ := blockRect_bounds hbx hbY
  unfold blockStats
  refine Rectangle.ends_scan (fun _ (s : BlockStats) => s.Sound) ?_ hdx hdy ?_
  · exact ⟨le_rfl, le_rfl, le_rfl, ⟨by decide, by decide⟩, ⟨le_rfl, by decide⟩, fun _ => rfl⟩
  · intro x y hxy s hs
    obtain ⟨-, p, hindex⟩ := hc.exists_index (ε := ε) hbx₀ hbY₀ hxy
    rw [hindex, ok_bind]
    exact .ok (hs.add p)

/-- The first `k` thresholds are shades. -/
def ShadesBelow (ε : Type) (thresholds : List ℤ) (k : ℤ) : Prop :=
  ∀ m, 0 ≤ m → m < k → ∃ t, IsShade t ∧ (index thresholds m : Checked ε ℤ) = .ok t

lemma gives_blockThreshold_shade {thresholds : List ℤ} {bw globalThreshold : ℤ} {s : BlockStats}
    (hs : s.Sound) (hglobal : IsShade globalThreshold) (hbx : bx < bw)
    (hprev : ShadesBelow ε thresholds (bY * bw + bx)) :
    Gives IsShade (blockThreshold thresholds bw globalThreshold s bx bY : Checked ε ℤ) := by
  obtain ⟨hn, hsum₀, hsum, ⟨hlo₀, hlo⟩, -, hempty⟩ := hs
  unfold blockThreshold
  refine Ends.ite (fun hcontrast => ?_) fun hflat => Ends.ite (fun hinner => ?_) fun _ =>
    .ok hglobal
  · have hne : s.n ≠ 0 := fun h => by
      have := hempty h
      unfold minDynamicRange at hcontrast
      omega
    exact gives_quot_shade (by omega) hsum₀ hsum
  · have hrow : (bY - 1) * bw = bY * bw - bw := by ring
    have hrow₀ : 0 ≤ (bY - 1) * bw := Int.mul_nonneg (by omega) (by omega)
    obtain ⟨above, ⟨habove₁, habove₂⟩, habove⟩ := hprev ((bY - 1) * bw + bx) (by omega) (by omega)
    obtain ⟨left, ⟨hleft₁, hleft₂⟩, hleft⟩ := hprev (bY * bw + bx - 1) (by omega) (by omega)
    obtain ⟨corner, ⟨hcorner₁, hcorner₂⟩, hcorner⟩ :=
      hprev ((bY - 1) * bw + bx - 1) (by omega) (by omega)
    rw [habove, hleft, hcorner, ok_bind, ok_bind, ok_bind]
    dsimp only
    rw [Int.tdiv_eq_ediv_of_nonneg (by omega), Int.tdiv_eq_ediv_of_nonneg hlo₀]
    refine .ok ?_
    unfold IsShade
    split_ifs <;> omega

lemma gives_blockThresholds_shade (hc : Covers pixels w h) {bw bh globalThreshold : ℤ}
    (hbw₀ : 0 ≤ bw) (hbh₀ : 0 ≤ bh) (hbw : (bw - 1) * 8 < w) (hbh : (bh - 1) * 8 < h)
    (hroom : bw * bh * 8 ≤ maxAlloc) (hglobal : IsShade globalThreshold) :
    Gives (fun thresholds => ShadesBelow ε thresholds (bw * bh))
      (blockThresholds pixels w h bw bh globalThreshold : Checked ε (List ℤ)) := by
  have hlen₀ : 0 ≤ bw * bh := Int.mul_nonneg hbw₀ hbh₀
  have hdx : (⟨0, 0, bw, bh⟩ : Rectangle).dx = bw := Int.sub_zero bw
  have hdy : (⟨0, 0, bw, bh⟩ : Rectangle).dy = bh := Int.sub_zero bh
  rw [blockThresholds, int64_of_le_maxAlloc hlen₀ (by omega), alloc_eq hlen₀ hroom, ok_bind]
  refine (Rectangle.ends_scan
    (fun k thresholds => thresholds.length = (bw * bh).toNat ∧ ShadesBelow ε thresholds k)
    ⟨List.length_replicate, fun m h₀ h₁ => by omega⟩ (by omega) (by omega) ?_).weaken
    (fun thresholds h => ?_) fun _ h => h
  swap
  · rw [hdx, hdy] at h
    exact h.2
  rintro bx bY ⟨hbx₀, hbx, hbY₀, hbY⟩ thresholds ⟨hlen, hprev⟩
  dsimp only at hbx₀ hbx hbY₀ hbY
  simp only [Rectangle.place, hdx, Int.sub_zero] at hprev ⊢
  have hcell := cell_lt hbx hbY hbw₀
  have hcell₀ := cell_nonneg hbx₀ hbx hbY₀
  refine Gives.bind (gives_blockStats_sound hc hbx₀ (by omega) hbY₀ (by omega)) fun s hs => ?_
  refine Gives.bind (gives_blockThreshold_shade hs hglobal hbx hprev) fun t ht => ?_
  refine (gives_store hcell₀ (by omega)).weaken (fun thresholds' h => ?_) fun _ h => h
  refine ⟨h.1.trans hlen, fun m hm₀ hm => ?_⟩
  rw [h.2]
  by_cases hnew : m = bY * bw + bx
  · rw [if_pos hnew]
    exact ⟨t, ht, rfl⟩
  · rw [if_neg hnew]
    exact hprev m hm₀ (by omega)

lemma gives_smoothThreshold_shade {thresholds : List ℤ} {bw bh : ℤ}
    (hshades : ShadesBelow ε thresholds (bw * bh)) (hbx₀ : 0 ≤ bx) (hbx : bx < bw) (hbY₀ : 0 ≤ bY)
    (hbY : bY < bh) :
    Gives IsShade (smoothThreshold thresholds bw bh bx bY : Checked ε ℤ) := by
  unfold smoothThreshold
  refine Gives.bind (Rectangle.ends_scan (fun k (acc : ℤ × ℤ) =>
    0 ≤ acc.2 ∧ 0 ≤ acc.1 ∧ acc.1 ≤ 255 * acc.2 ∧ (12 < k → 1 ≤ acc.2))
    (by simp) (by decide) (by decide) ?_) ?_
  swap
  · rintro ⟨sum, n⟩ ⟨-, hlo, hhi, hn⟩
    exact gives_quot_shade (hn (by decide)) hlo hhi
  rintro dx dy ⟨hdx₀, hdx, hdy₀, hdy⟩ ⟨sum, n⟩ ⟨hn₀, hlo, hhi, hn⟩
  dsimp only at hdx₀ hdx hdy₀ hdy
  simp only [Rectangle.place, Rectangle.dx] at hn ⊢
  refine Ends.ite (fun hout => ?_) fun hin => ?_
  · exact .ok ⟨hn₀, hlo, hhi, fun _ => hn (by omega)⟩
  · have hnx : 0 ≤ bx + dx ∧ bx + dx < bw := by omega
    have hny : 0 ≤ bY + dy ∧ bY + dy < bh := by omega
    have hcell₀ := cell_nonneg hnx.1 hnx.2 hny.1
    have hcell := cell_lt hnx.2 hny.2 (by omega)
    obtain ⟨t, ⟨ht₁, ht₂⟩, hindex⟩ := hshades _ hcell₀ hcell
    rw [hindex, ok_bind]
    exact .ok ⟨by omega, by dsimp only; omega, by dsimp only; omega, fun _ => by dsimp only; omega⟩

/-! ### The binarized image -/

/-- One bit for each pixel. -/
def Bitmap.Full (b : Bitmap) : Prop := b.dark.length = (b.w * b.h).toNat

lemma Bitmap.Full.gives_darkAt {b : Bitmap} (hb : b.Full) (x y : ℤ) :
    Gives (fun _ => True) (b.darkAt x y : Checked ε Bool) := by
  unfold Bitmap.darkAt
  refine Ends.ite (fun _ => .ok trivial) fun hin => ?_
  have hcell₀ := cell_nonneg (w := b.w) (show 0 ≤ x by omega) (by omega) (show 0 ≤ y by omega)
  have hcell := cell_lt (show x < b.w by omega) (show y < b.h by omega) (by omega)
  have hin : y * b.w + x < (b.dark.length : ℤ) := by
    rw [hb]
    omega
  obtain ⟨d, -, hd⟩ := Checked.exists_index hcell₀ hin le_rfl
  rw [hd ε]
  exact .ok trivial

/-- No white pixel is dark. -/
def WhiteLight (ε : Type) (pixels : List UInt8) (dark : List Bool) : Prop :=
  ∀ i : ℤ, (index pixels i : Checked ε UInt8) = .ok 255 →
    (index dark i : Checked ε Bool) ≠ .ok true

lemma whiteLight_replicate (n : ℕ) : WhiteLight ε pixels (List.replicate n false) := by
  intro i _ h
  rw [index] at h
  split_ifs at h
  simp at h

lemma WhiteLight.store {dark : List Bool} (hdark : WhiteLight ε pixels dark) {t i : ℤ}
    (ht : IsShade t) {p : UInt8} (hp : (index pixels i : Checked ε UInt8) = .ok p) (hi₀ : 0 ≤ i)
    (hi : i < dark.length) :
    Gives (fun dark' => dark'.length = dark.length ∧ WhiteLight ε pixels dark')
      (Checked.store dark i (decide ((p.toNat : ℤ) < t)) : Checked ε (List Bool)) := by
  refine (gives_store hi₀ hi).weaken (fun dark' h => ⟨h.1, fun j hj => ?_⟩) fun _ h => h
  rw [h.2]
  split_ifs with heq
  · subst heq
    rw [hp] at hj
    cases hj
    have hlight : ¬((255 : UInt8).toNat : ℤ) < t := Int.not_lt.mpr ht.2
    rw [decide_eq_false hlight]
    simp
  · exact hdark j hj

/-- What is left of an image. -/
def Binarized (ε : Type) (pixels : List UInt8) (w h : ℤ) (b : Bitmap) : Prop :=
  b.w = w ∧ b.h = h ∧ b.Full ∧ WhiteLight ε pixels b.dark

lemma gives_binarizeBlock_light (hc : Covers pixels w h) {t : ℤ} (ht : IsShade t) (hbx₀ : 0 ≤ bx)
    (hbx : bx * 8 < w) (hbY₀ : 0 ≤ bY) (hbY : bY * 8 < h) {dark : List Bool}
    (hlen : dark.length = (w * h).toNat) (hdark : WhiteLight ε pixels dark) :
    Gives (fun dark' => dark'.length = (w * h).toNat ∧ WhiteLight ε pixels dark')
      (binarizeBlock pixels w h t bx bY dark : Checked ε (List Bool)) := by
  obtain ⟨⟨hdx, -⟩, hdy, -⟩ := blockRect_bounds hbx hbY
  unfold binarizeBlock
  refine Rectangle.ends_scan
    (fun _ dark => dark.length = (w * h).toNat ∧ WhiteLight ε pixels dark) ⟨hlen, hdark⟩ hdx hdy ?_
  rintro x y hxy dark ⟨hlen, hdark⟩
  obtain ⟨⟨hcell₀, hcell⟩, p, hindex⟩ := hc.exists_index (ε := ε) hbx₀ hbY₀ hxy
  rw [hindex, ok_bind]
  exact (hdark.store ht hindex hcell₀ (by omega)).weaken (fun _ h => ⟨h.1.trans hlen, h.2⟩)
    fun _ h => h

lemma gives_extremes_any {n : ℤ} (hn : 0 < n) (hlen : n ≤ pixels.length) :
    Gives (fun _ => True) (extremes pixels n : Checked ε (UInt8 × UInt8)) := by
  obtain ⟨k, rfl⟩ := Int.eq_ofNat_of_zero_le hn.le
  exact (gives_extremes (by omega) (by omega)).ends fun _ _ => trivial

lemma gives_binarizeSmall (hn : 0 < w * h) (hroom : w * h ≤ maxAlloc) (hc : Covers pixels w h)
    {dark : List Bool}
    (hlen : dark.length = (w * h).toNat) (hdark : WhiteLight ε pixels dark) :
    Gives (Binarized ε pixels w h) (binarizeSmall pixels w h dark : Checked ε Bitmap) := by
  have hle : (w * h).toNat ≤ pixels.length := hc
  rw [binarizeSmall, int64_of_le_maxAlloc hn.le hroom]
  refine Gives.bind (gives_extremes_any hn (by omega)) ?_
  rintro ⟨lo, hi⟩ -
  refine Gives.bind (ends_repeatFor
    (fun _ (dark : List Bool) => dark.length = (w * h).toNat ∧ WhiteLight ε pixels dark) _
    ⟨hlen, hdark⟩ fun i hi s hs => ?_) fun dark' h => .ok ⟨rfl, rfl, h.1, h.2⟩
  have hin : (i : ℤ) < (pixels.length : ℤ) := by omega
  obtain ⟨p, -, hp⟩ := Checked.exists_index (Int.natCast_nonneg i) hin le_rfl
  rw [hp ε, ok_bind]
  exact (hs.2.store (isShade_halfway lo _) (hp ε) (Int.natCast_nonneg i) (by omega)).weaken
    (fun _ h => ⟨h.1.trans hs.1, h.2⟩) fun _ h => h

lemma gives_binarizeGray_any (hw : 0 ≤ w) (hh : 0 ≤ h) (hroom : w * h ≤ maxAlloc)
    (hlen : pixels.length = (w * h).toNat) :
    Gives (Binarized ε pixels w h) (binarizeGray pixels w h : Checked ε Bitmap) := by
  have hc : Covers pixels w h := hlen.ge
  have harea₀ : 0 ≤ w * h := Int.mul_nonneg hw hh
  rw [binarizeGray, int64_of_le_maxAlloc harea₀ hroom, alloc_one_eq harea₀ hroom, ok_bind]
  have hlight : WhiteLight ε pixels (List.replicate (w * h).toNat false) :=
    whiteLight_replicate _
  refine Ends.ite (fun _ => .ok ⟨rfl, rfl, List.length_replicate, hlight⟩) fun hne => ?_
  have harea : 0 < w * h := Int.mul_pos (by omega) (by omega)
  refine Ends.ite (fun _ => gives_binarizeSmall harea hroom hc List.length_replicate hlight)
    fun hlarge => ?_
  unfold blockSize at hlarge
  refine Gives.bind (gives_extremes_any harea (by omega)) ?_
  rintro ⟨lo, hi⟩ -
  have hsides : ∀ n : ℤ, 0 < n →
      0 ≤ (n + blockSize - 1).tdiv blockSize ∧
        ((n + blockSize - 1).tdiv blockSize - 1) * 8 < n := by
    intro n hn
    rw [blockSize, Int.tdiv_eq_ediv_of_nonneg (by omega)]
    omega
  obtain ⟨hbw₀, hbw⟩ := hsides w (by omega)
  obtain ⟨hbh₀, hbh⟩ := hsides h (by omega)
  generalize (w + blockSize - 1).tdiv blockSize = bw at *
  generalize (h + blockSize - 1).tdiv blockSize = bh at *
  have hblocks := blocks_room (by omega) (by omega) hroom hbh₀ hbw hbh
  refine Gives.bind (gives_blockThresholds_shade hc hbw₀ hbh₀ hbw hbh hblocks (isShade_mean lo hi))
    fun thresholds hshades => ?_
  refine Gives.bind (Rectangle.ends_scan
    (fun _ (dark : List Bool) => dark.length = (w * h).toNat ∧ WhiteLight ε pixels dark)
    ⟨List.length_replicate, hlight⟩ (Int.sub_nonneg.mpr hbw₀) (Int.sub_nonneg.mpr hbh₀)
    fun bx bY hblock dark hdark => ?_) fun dark h => .ok ⟨rfl, rfl, h.1, h.2⟩
  obtain ⟨hbx₀, hbx, hbY₀, hbY⟩ := hblock
  dsimp only at hbx₀ hbx hbY₀ hbY
  refine Gives.bind (gives_smoothThreshold_shade hshades hbx₀ hbx hbY₀ hbY) fun t ht => ?_
  exact gives_binarizeBlock_light hc ht hbx₀ (by omega) hbY₀ (by omega) hdark.1 hdark.2

/-! ### Images -/

/-- The bounds are those of an image, every point of them has its pixel, and every pixel its
colour. -/
def Complete : Image → Prop
  | .gray p => p.rect.Sized ∧ p.pix.length ≤ maxAlloc ∧ ∀ x y, p.rect.contains x y →
      0 ≤ p.pixOffset x y ∧ p.pixOffset x y < p.pix.length
  | .paletted p => p.rect.Sized ∧ ∀ x y, p.rect.contains x y →
      ∃ i, (0 ≤ p.pixOffset x y ∧ p.pix[(p.pixOffset x y).toNat]? = some i) ∧
        i.toNat < p.palette.length
  | .other bounds _ => bounds.Sized

lemma Complete.sized {img : Image} (h : Complete img) : img.bounds.Sized := by
  cases img with
  | gray p => exact h.1
  | paletted p => exact h.1
  | other bounds color => exact h

lemma Complete.colorAt {img : Image} (h : Complete img) {x y : ℤ}
    (hxy : img.bounds.contains x y) :
    ∃ c : Color, ∀ ε, (img.colorAt x y : Checked ε Color) = .ok c := by
  cases img with
  | gray p =>
    obtain ⟨h₀, h₁⟩ := h.2.2 x y hxy
    obtain ⟨g, -, hg⟩ := Checked.exists_index h₀ h₁ le_rfl
    refine ⟨Color.gray g, fun ε => ?_⟩
    rw [Image.colorAt, Gray.grayAt, if_pos (show p.rect.contains x y from hxy), hg ε, ok_bind]
  | paletted p =>
    obtain ⟨i, ⟨h₀, hi⟩, hpalette⟩ := h.2 x y hxy
    refine ⟨p.palette[i.toNat], fun ε => ?_⟩
    rw [Image.colorAt, Paletted.colorAt, if_pos (show p.rect.contains x y from hxy),
      index_eq (Int.toNat_of_nonneg h₀).symm hi, ok_bind]
    exact index_eq rfl (List.getElem?_eq_getElem hpalette)
  | other bounds color => exact ⟨color x y, fun _ => rfl⟩

/-- A packed grey image has all its pixels in a row. -/
lemma Complete.length_packed {img : Image} (h : Complete img) {p : Gray}
    (hp : packedGray img img.bounds.dx = some p) :
    img.bounds.dx * img.bounds.dy ≤ p.pix.length := by
  cases img with
  | gray q =>
    rw [packedGray] at hp
    split_ifs at hp with hstride
    cases hp
    rw [Image.bounds] at hstride ⊢
    have hdx := h.1.dx_nonneg
    have hdy := h.1.dy_nonneg
    by_cases hne : 0 < p.rect.dx ∧ 0 < p.rect.dy
    · obtain ⟨-, hlt⟩ := h.2.2 (p.rect.maxX - 1) (p.rect.maxY - 1) (by
        unfold Rectangle.contains
        unfold Rectangle.dx Rectangle.dy at hne
        omega)
      have hoff : p.pixOffset (p.rect.maxX - 1) (p.rect.maxY - 1) = p.rect.dx * p.rect.dy - 1 := by
        rw [Gray.pixOffset, hstride]
        unfold Rectangle.dx Rectangle.dy
        ring
      omega
    · have hzero : p.rect.dx * p.rect.dy = 0 := by
        rcases not_and_or.mp hne with h0 | h0
        · rw [show p.rect.dx = 0 by omega, zero_mul]
        · rw [show p.rect.dy = 0 by omega, mul_zero]
      omega
  | paletted q => cases hp
  | other bounds color => cases hp

/-- A scan that stores a pixel for each point has room for them. -/
lemma area_le_of_luminanceScan {img : Image} (h : img.bounds.Sized) {pixels : List UInt8}
    {r : List UInt8 × ℤ} (hscan : (luminanceScan img pixels : Checked ε _) = .ok r) :
    img.bounds.dx * img.bounds.dy ≤ pixels.length := by
  have hroom := Rectangle.of_scan_eq_ok (fun k (r : List UInt8 × ℤ) =>
    r.2 = k ∧ k ≤ pixels.length ∧ r.1.length = pixels.length) ⟨rfl, by omega, rfl⟩ h.dx_nonneg
    h.dy_nonneg ?_ hscan
  · exact hroom.2.1
  · rintro x y hxy ⟨ps, i⟩ s' ⟨hi, -, hlen⟩ hstep
    dsimp only at hi hlen hstep
    cases hcolor : (img.colorAt x y : Checked ε Color) with
    | error e =>
      rw [hcolor] at hstep
      cases hstep
    | ok c =>
      rw [hcolor, ok_bind, store] at hstep
      split_ifs at hstep with hin
      · cases hstep
        exact ⟨congrArg (· + 1) hi, by omega, List.length_set.trans hlen⟩
      · cases hstep

/-- The pixels of an image whose luminance is taken fit a slice. -/
lemma Complete.area_le {img : Image} (h : Complete img) {r : List UInt8 × ℤ × ℤ}
    (hluminance : (luminance img : Checked ε _) = .ok r) :
    img.bounds.dx * img.bounds.dy ≤ maxAlloc := by
  unfold luminance at hluminance
  dsimp only at hluminance
  rw [h.sized.int64_dx, h.sized.int64_dy, alloc] at hluminance
  split_ifs at hluminance with hroom
  · rw [ok_bind] at hluminance
    cases hp : packedGray img img.bounds.dx with
    | some p =>
      have hlen := h.length_packed hp
      cases img with
      | gray q =>
        rw [packedGray] at hp
        split_ifs at hp
        cases hp
        exact hlen.trans (by exact_mod_cast h.2.1)
      | paletted q => cases hp
      | other bounds color => cases hp
    | none =>
      rw [hp] at hluminance
      dsimp only at hluminance
      generalize hscan : luminanceScan img _ = c at hluminance
      cases c with
      | error e => cases hluminance
      | ok scanned =>
        have harea := area_le_of_luminanceScan h.sized hscan
        rw [List.length_replicate] at harea
        omega
  · cases hluminance

lemma Complete.gives_luminance {img : Image} (h : Complete img)
    (hroom : img.bounds.dx * img.bounds.dy ≤ maxAlloc) :
    Gives (fun r => r.2 = (img.bounds.dx, img.bounds.dy) ∧
        r.1.length = (img.bounds.dx * img.bounds.dy).toNat)
      (luminance img : Checked ε (List UInt8 × ℤ × ℤ)) := by
  have harea := Int.toNat_of_nonneg h.sized.area_nonneg
  unfold luminance
  dsimp only
  rw [h.sized.int64_dx, h.sized.int64_dy, h.sized.int64_area hroom,
    alloc_one_eq h.sized.area_nonneg hroom, ok_bind]
  cases hp : packedGray img img.bounds.dx with
  | some p =>
    have hlen := h.length_packed hp
    dsimp only
    have hslice : (slice p.pix 0 (img.bounds.dx * img.bounds.dy) : Checked ε (List UInt8)) =
        .ok (p.pix.take (img.bounds.dx * img.bounds.dy).toNat) :=
      slice_eq (k := 0) rfl harea.symm (Nat.zero_le _) (by omega)
    rw [hslice, ok_bind]
    refine .ok ⟨rfl, ?_⟩
    simp only [copy, List.length_append, List.length_take,
      List.length_drop, List.length_replicate]
    omega
  | none =>
    have hcolors : ∀ x y, ∃ c : Color, img.bounds.contains x y →
        (img.colorAt x y : Checked ε Color) = .ok c := by
      intro x y
      by_cases hxy : img.bounds.contains x y
      · obtain ⟨c, hc⟩ := h.colorAt hxy
        exact ⟨c, fun _ => hc ε⟩
      · exact ⟨Color.black, fun h => absurd h hxy⟩
    choose color hcolor using hcolors
    refine Gives.bind (gives_luminanceScan h.sized.dx_nonneg h.sized.dy_nonneg hcolor
      List.length_replicate) ?_
    rintro ⟨pixels, n⟩ ⟨hlen, -⟩
    exact .ok ⟨rfl, hlen.trans List.length_replicate⟩

lemma Complete.gives_binarize {img : Image} (h : Complete img)
    (hroom : img.bounds.dx * img.bounds.dy ≤ maxAlloc) :
    Gives (fun b => ∃ pixels, luminance img = (.ok (pixels, img.bounds.dx, img.bounds.dy) :
        Checked ε (List UInt8 × ℤ × ℤ)) ∧ pixels.length = (b.w * b.h).toNat ∧
          Binarized ε pixels img.bounds.dx img.bounds.dy b)
      (binarize img : Checked ε Bitmap) := by
  obtain ⟨⟨pixels, w, hh⟩, heq, hwh, hlen⟩ := gives_iff.mp (h.gives_luminance (ε := ε) hroom)
  cases hwh
  rw [binarize, heq, ok_bind]
  refine (gives_binarizeGray_any h.sized.dx_nonneg h.sized.dy_nonneg hroom hlen).ends
    fun b hb => ?_
  exact ⟨pixels, rfl, by rw [hb.1, hb.2.1]; exact hlen, hb⟩

/-- An image is binarized exactly if its pixels fit a slice. -/
lemma Complete.exists_binarize_iff {img : Image} (h : Complete img) :
    (∃ b, binarize img = (.ok b : Checked ε Bitmap)) ↔
      img.bounds.dx * img.bounds.dy ≤ maxAlloc := by
  constructor
  · rintro ⟨b, hb⟩
    rw [binarize] at hb
    cases hluminance : (luminance img : Checked ε (List UInt8 × ℤ × ℤ)) with
    | error e =>
      rw [hluminance] at hb
      cases hb
    | ok r => exact h.area_le hluminance
  · intro hroom
    obtain ⟨b, hb, -⟩ := gives_iff.mp (h.gives_binarize (ε := ε) hroom)
    exact ⟨b, hb⟩

/-- Every image whose pixels fit a slice, and no other, has a threshold for each of its pixels, and
no white pixel is taken for dark. -/
theorem binarize_total (img : Image) (h : Complete img) :
    ((∃ b, binarize img = (.ok b : Checked ε Bitmap)) ↔
      img.bounds.dx * img.bounds.dy ≤ maxAlloc) ∧
    (img.bounds.dx * img.bounds.dy ≤ maxAlloc →
      ∃ pixels b, luminance img = (.ok (pixels, img.bounds.dx, img.bounds.dy) :
          Checked ε (List UInt8 × ℤ × ℤ)) ∧
        binarize img = (.ok b : Checked ε Bitmap) ∧ b.w = img.bounds.dx ∧ b.h = img.bounds.dy ∧
        (∀ x y, ∃ d, b.darkAt x y = (.ok d : Checked ε Bool)) ∧
        ∀ i : ℤ, (index pixels i : Checked ε UInt8) = .ok 255 →
          (index b.dark i : Checked ε Bool) = .ok false) := by
  refine ⟨h.exists_binarize_iff, fun hroom => ?_⟩
  obtain ⟨b, hb, pixels, hpixels, hlen, hw, hh, hfull, hlight⟩ :=
    gives_iff.mp (h.gives_binarize (ε := ε) hroom)
  refine ⟨pixels, b, hpixels, hb, hw, hh, fun x y => ?_, fun i hi => ?_⟩
  · obtain ⟨d, hd, -⟩ := gives_iff.mp (hfull.gives_darkAt (ε := ε) x y)
    exact ⟨d, hd⟩
  · have hwhite := hlight i hi
    have hin : 0 ≤ i ∧ i < pixels.length := by
      rw [index] at hi
      split_ifs at hi with hin
      exact hin
    obtain ⟨d, -, hd⟩ := Checked.exists_index (n := b.dark.length) hin.1
      (by rw [hfull, ← hlen]; exact hin.2) le_rfl
    rw [hd ε] at hwhite ⊢
    cases d with
    | true => exact absurd rfl hwhite
    | false => rfl

/-- A single white pixel. -/
def whitePixel : Gray := ⟨[255], 1, ⟨0, 0, 1, 1⟩⟩

lemma complete_whitePixel : Complete (.gray whitePixel) := by
  refine ⟨⟨by decide, by decide, by decide, by decide⟩, by decide,
    fun x y ⟨hx₀, hx, hy₀, hy⟩ => ?_⟩
  unfold Gray.pixOffset
  simp only [whitePixel] at hx₀ hx hy₀ hy ⊢
  rw [List.length_singleton]
  omega

theorem binarize_total_whitePixel :
    ∃ pixels b, luminance (.gray whitePixel) = (.ok (pixels, 1, 1) :
        Checked Unit (List UInt8 × ℤ × ℤ)) ∧
      binarize (.gray whitePixel) = (.ok b : Checked Unit Bitmap) ∧ b.w = 1 ∧ b.h = 1 ∧
      (∀ x y, ∃ d, b.darkAt x y = (.ok d : Checked Unit Bool)) ∧
      ∀ i : ℤ, (index pixels i : Checked Unit UInt8) = .ok 255 →
        (index b.dark i : Checked Unit Bool) = .ok false :=
  (binarize_total (.gray whitePixel) complete_whitePixel).2 (by decide)

end Dhow.Optical
