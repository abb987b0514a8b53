import Dhow.Optical.Bitmap
import Mathlib.Tactic.Linarith

/-!
# The thresholds of a black and white image

Where every pixel is black or white, every threshold of the field is a level above black and at
most white: a block with contrast has white pixels enough, a block without takes the average of
such levels or half of white, and the smoothed field averages such levels again. So a pixel is
below its threshold exactly when it is black.
-/

namespace Dhow.Optical
open Checked GoImage

variable {ε : Type} {pixels : List UInt8} {w h bx bY : ℤ}

/-- The pixels of the image are black or white. -/
structure Bilevel (pixels : List UInt8) (w h : ℤ) : Prop where
  length_le : (w * h).toNat ≤ pixels.length
  levels : ∀ p ∈ pixels.take (w * h).toNat, p = 0 ∨ p = 255

/-- Above black and at most white. -/
def IsLevel (t : ℤ) : Prop := 1 ≤ t ∧ t ≤ 255

lemma gives_quot {sum n : ℤ} (hn : 1 ≤ n) (hlo : n ≤ sum) (hhi : sum ≤ 255 * n) :
    Gives IsLevel (quot sum n : Checked ε ℤ) := by
  rw [quot, if_neg (by omega), Int.tdiv_eq_ediv_of_nonneg (by omega)]
  refine .ok ⟨(Int.le_ediv_iff_mul_le (by omega)).mpr (by omega), ?_⟩
  exact Int.ediv_le_of_le_mul (by omega) hhi

/-! ### Extremes -/

/-- The least pixel is at most, the greatest at least each pixel. -/
lemma gives_extremes {n : ℕ} (hn : 0 < n) (hlen : n ≤ pixels.length) :
    Gives (fun r => ∀ p ∈ pixels.take n, r.1 ≤ p ∧ p ≤ r.2)
      (extremes pixels n : Checked ε (UInt8 × UInt8)) := by
  obtain ⟨first, -, hfirst⟩ := Checked.exists_index (i := 0) (n := n) le_rfl (by omega) hlen
  have hslice : (slice pixels 0 n : Checked ε (List UInt8)) = .ok (pixels.take n) :=
    slice_eq (k := 0) rfl rfl (Nat.zero_le n) hlen
  rw [extremes, hfirst, ok_bind, hslice, ok_bind]
  refine ends_forEach (fun done (r : UInt8 × UInt8) => ∀ p ∈ done, r.1 ≤ p ∧ p ≤ r.2) _
    (by simp) ?_
  rintro done a rest - ⟨lo, hi⟩ hr
  refine .ok fun p hp => ?_
  have hmax : hi ≤ max hi a ∧ a ≤ max hi a := by
    change hi ≤ (if hi ≤ a then a else hi) ∧ a ≤ (if hi ≤ a then a else hi)
    split_ifs with hle
    · exact ⟨hle, UInt8.le_refl a⟩
    · exact ⟨UInt8.le_refl hi, (UInt8.le_total hi a).resolve_left hle⟩
  rcases List.mem_append.mp hp with hp | hp
  · exact ⟨UInt8.le_trans Std.min_le_left (hr p hp).1, UInt8.le_trans (hr p hp).2 hmax.1⟩
  · obtain rfl := List.mem_singleton.mp hp
    exact ⟨Std.min_le_right, hmax.2⟩

/-! ### Blocks -/

lemma blockRect_contains_iff (x y : ℤ) :
    (blockRect w h bx bY).contains x y ↔ (x / 8 = bx ∧ x < w) ∧ y / 8 = bY ∧ y < h := by
  unfold Rectangle.contains blockRect blockSize
  dsimp only
  omega

/-- A pixel of a block is a pixel of the image. -/
lemma Bilevel.exists_index (hb : Bilevel pixels w h) (hbx₀ : 0 ≤ bx) (hbY₀ : 0 ≤ bY) {x y : ℤ}
    (hxy : (blockRect w h bx bY).contains x y) :
    (0 ≤ y * w + x ∧ y * w + x < w * h) ∧
      ∃ p : UInt8, (p = 0 ∨ p = 255) ∧ (index pixels (y * w + x) : Checked ε UInt8) = .ok p := by
  obtain ⟨⟨hx, hxw⟩, hy, hyh⟩ := (blockRect_contains_iff x y).mp hxy
  have hlt := cell_lt hxw hyh (by omega)
  have hx₀ : 0 ≤ x := by omega
  have hy₀ : 0 ≤ y := by omega
  have hnonneg := cell_nonneg hx₀ hxw hy₀
  have hin : y * w + x < ((w * h).toNat : ℤ) := by omega
  obtain ⟨p, hp, hindex⟩ := Checked.exists_index hnonneg hin hb.length_le
  exact ⟨⟨hnonneg, hlt⟩, p, hb.levels p hp, hindex ε⟩

/-- The block of a point that is in the image has points. -/
lemma blockRect_bounds (hbx : bx * 8 < w) (hbY : bY * 8 < h) :
    (0 ≤ (blockRect w h bx bY).dx ∧ (blockRect w h bx bY).dx ≤ 8) ∧
      0 ≤ (blockRect w h bx bY).dy ∧ (blockRect w h bx bY).dy ≤ 8 := by
  unfold Rectangle.dx Rectangle.dy blockRect blockSize
  dsimp only
  omega

/-- The statistics of `n` pixels, `white` of them white and the others black. -/
structure BlockStats.Counts (s : BlockStats) (n white : ℤ) : Prop where
  n_eq : s.n = n
  sum_eq : s.sum = 255 * white
  nonneg : 0 ≤ white
  le : white ≤ n
  lo_eq : s.lo = if white < n then 0 else 255
  hi_eq : s.hi = if 0 < white then 255 else 0

namespace BlockStats.Counts
variable {s : BlockStats} {n white : ℤ}

lemma add_black (hs : s.Counts n white) : (s.add 0).Counts (n + 1) white := by
  obtain ⟨hn, hsum, hnonneg, hle, hlo, hhi⟩ := hs
  refine ⟨by simp [add, hn], by simp [add, hsum], hnonneg, by omega, ?_, ?_⟩
  · rw [add, if_pos (by omega), hlo]
    split_ifs <;> rfl
  · rw [add, hhi]
    split_ifs <;> rfl

lemma add_white (hs : s.Counts n white) : (s.add 255).Counts (n + 1) (white + 1) := by
  obtain ⟨hn, hsum, hnonneg, hle, hlo, hhi⟩ := hs
  refine ⟨by simp [add, hn], by rw [add, hsum]; ring, by omega, by omega, ?_, ?_⟩
  · simp only [add, hlo]
    split_ifs <;> omega
  · rw [add, if_pos (by omega), hhi]
    split_ifs <;> rfl

/-- With contrast there are pixels of both kinds. -/
lemma contrast_iff (hs : s.Counts n white) :
    s.hi - s.lo > minDynamicRange ↔ 0 < white ∧ white < n := by
  have hle := hs.le
  rw [hs.lo_eq, hs.hi_eq, minDynamicRange]
  split_ifs <;> omega

end BlockStats.Counts

lemma gives_blockStats (hb : Bilevel pixels w h) (hbx₀ : 0 ≤ bx) (hbx : bx * 8 < w)
    (hbY₀ : 0 ≤ bY) (hbY : bY * 8 < h) :
    Gives (fun s => ∃ n white, n ≤ 64 ∧ s.Counts n white)
      (blockStats pixels w h bx bY : Checked ε BlockStats) := by
  obtain ⟨⟨hdx, hdx8⟩, hdy, hdy8⟩ := blockRect_bounds hbx hbY
  unfold blockStats
  refine (Rectangle.ends_scan (fun k s => ∃ white, s.Counts k white)
    ⟨0, rfl, rfl, le_rfl, le_rfl, rfl, rfl⟩ hdx hdy ?_).weaken (fun s hs => ?_) fun _ h => h
  swap
  · obtain ⟨white, hs⟩ := hs
    exact ⟨_, white, Int.mul_le_mul hdx8 hdy8 hdy (by decide), hs⟩
  rintro x y hxy s ⟨white, hs⟩
  obtain ⟨-, p, hp, hindex⟩ := hb.exists_index (ε := ε) hbx₀ hbY₀ hxy
  rw [hindex, ok_bind]
  rcases hp with rfl | rfl
  · exact .ok ⟨white, hs.add_black⟩
  · exact .ok ⟨white + 1, hs.add_white⟩

/-- The first `k` thresholds are levels. -/
def LevelsBelow (ε : Type) (thresholds : List ℤ) (k : ℤ) : Prop :=
  ∀ m, 0 ≤ m → m < k → ∃ t, IsLevel t ∧ (index thresholds m : Checked ε ℤ) = .ok t

lemma gives_blockThreshold {thresholds : List ℤ} {bw globalThreshold n white : ℤ} {s : BlockStats}
    (hs : s.Counts n white) (hn : n ≤ 64) (hglobal : IsLevel globalThreshold)
    (hbx : bx < bw) (hprev : LevelsBelow ε thresholds (bY * bw + bx)) :
    Gives IsLevel (blockThreshold thresholds bw globalThreshold s bx bY : Checked ε ℤ) := by
  unfold blockThreshold
  refine Ends.ite (fun hcontrast => ?_) fun hflat => Ends.ite (fun hinner => ?_) fun _ =>
    .ok hglobal
  · obtain ⟨hwhite, hblack⟩ := hs.contrast_iff.mp hcontrast
    rw [hs.sum_eq, hs.n_eq]
    exact gives_quot (by omega) (by omega) (by omega)
  · have hrow : (bY - 1) * bw = bY * bw - bw := by ring
    have hrow₀ : 0 ≤ (bY - 1) * bw := Int.mul_nonneg (by omega) (by omega)
    obtain ⟨above, ⟨habove₁, habove₂⟩, habove⟩ := hprev ((bY - 1) * bw + bx) (by omega) (by omega)
    obtain ⟨left, ⟨hleft₁, hleft₂⟩, hleft⟩ := hprev (bY * bw + bx - 1) (by omega) (by omega)
    obtain ⟨corner, ⟨hcorner₁, hcorner₂⟩, hcorner⟩ :=
      hprev ((bY - 1) * bw + bx - 1) (by omega) (by omega)
    rw [habove, hleft, hcorner, ok_bind, ok_bind, ok_bind, hs.lo_eq]
    dsimp only
    rw [Int.tdiv_eq_ediv_of_nonneg (by omega)]
    refine .ok ?_
    unfold IsLevel
    -- A block that is as light as its neighbours is white, since these are above black.
    by_cases hwhite : white < n
    · rw [if_pos hwhite, if_neg (by omega)]
      omega
    · rw [if_neg hwhite, if_pos (by omega)]
      decide

/-- The thresholds of the blocks take no more room than the pixels. -/
lemma blocks_room (hw : 8 ≤ w) (hh : 8 ≤ h) (harea : w * h ≤ maxAlloc) {bw bh : ℤ} (hbh₀ : 0 ≤ bh)
    (hbw : (bw - 1) * 8 < w) (hbh : (bh - 1) * 8 < h) : bw * bh * 8 ≤ maxAlloc := by
  have hblocks : (4 * bw) * (4 * bh) ≤ w * h :=
    Int.mul_le_mul (by omega) (by omega) (by omega) (by omega)
  have hexpand : (4 * bw) * (4 * bh) = 16 * (bw * bh) := by ring
  have hnonneg : 0 ≤ w * h := Int.mul_nonneg (by omega) (by omega)
  omega

lemma gives_blockThresholds (hb : Bilevel pixels w h) {bw bh globalThreshold : ℤ} (hbw₀ : 0 ≤ bw)
    (hbh₀ : 0 ≤ bh) (hbw : (bw - 1) * 8 < w) (hbh : (bh - 1) * 8 < h)
    (hroom : bw * bh * 8 ≤ maxAlloc) (hglobal : IsLevel globalThreshold) :
    Gives (fun thresholds => LevelsBelow ε thresholds (bw * bh))
      (blockThresholds pixels w h bw bh globalThreshold : Checked ε (List ℤ)) := by
  have hlen₀ : 0 ≤ bw * bh := Int.mul_nonneg hbw₀ hbh₀
  have hdx : (⟨0, 0, bw, bh⟩ : Rectangle).dx = bw := Int.sub_zero bw
  have hdy : (⟨0, 0, bw, bh⟩ : Rectangle).dy = bh := Int.sub_zero bh
  rw [blockThresholds, int64_of_le_maxAlloc hlen₀ (by omega), alloc_eq hlen₀ hroom, ok_bind]
  refine (Rectangle.ends_scan
    (fun k thresholds => thresholds.length = (bw * bh).toNat ∧ LevelsBelow ε thresholds k)
    ⟨List.length_replicate, fun m h₀ h₁ => by omega⟩ (by omega) (by omega) ?_).weaken
    (fun thresholds h => ?_) fun _ h => h
  swap
  · rw [hdx, hdy] at h
    exact h.2
  rintro bx bY ⟨hbx₀, hbx, hbY₀, hbY⟩ thresholds ⟨hlen, hprev⟩
  dsimp only at hbx₀ hbx hbY₀ hbY
  simp only [Rectangle.place, hdx, Int.sub_zero] at hprev ⊢
  have hcell := cell_lt hbx hbY hbw₀
  have hcell₀ := cell_nonneg hbx₀ hbx hbY₀
  refine Gives.bind (gives_blockStats hb hbx₀ (by omega) hbY₀ (by omega)) ?_
  rintro s ⟨n, white, hn, hs⟩
  refine Gives.bind (gives_blockThreshold hs hn hglobal hbx hprev) fun t ht => ?_
  refine (gives_store hcell₀ (by omega)).weaken (fun thresholds' h => ?_) fun _ h => h
  refine ⟨h.1.trans hlen, fun m hm₀ hm => ?_⟩
  rw [h.2]
  by_cases hnew : m = bY * bw + bx
  · rw [if_pos hnew]
    exact ⟨t, ht, rfl⟩
  · rw [if_neg hnew]
    exact hprev m hm₀ (by omega)

lemma gives_smoothThreshold {thresholds : List ℤ} {bw bh : ℤ}
    (hlevels : LevelsBelow ε thresholds (bw * bh)) (hbx₀ : 0 ≤ bx) (hbx : bx < bw) (hbY₀ : 0 ≤ bY)
    (hbY : bY < bh) :
    Gives IsLevel (smoothThreshold thresholds bw bh bx bY : Checked ε ℤ) := by
  unfold smoothThreshold
  -- The block itself, the twelfth of the twenty-five, is never left out.
  refine Gives.bind (Rectangle.ends_scan (fun k (acc : ℤ × ℤ) =>
    0 ≤ acc.2 ∧ acc.2 ≤ acc.1 ∧ acc.1 ≤ 255 * acc.2 ∧ (12 < k → 1 ≤ acc.2))
    (by simp) (by decide) (by decide) ?_) ?_
  swap
  · rintro ⟨sum, n⟩ ⟨-, hlo, hhi, hn⟩
    exact gives_quot (hn (by decide)) hlo hhi
  rintro dx dy ⟨hdx₀, hdx, hdy₀, hdy⟩ ⟨sum, n⟩ ⟨hn₀, hlo, hhi, hn⟩
  dsimp only at hdx₀ hdx hdy₀ hdy
  simp only [Rectangle.place, Rectangle.dx] at hn ⊢
  refine Ends.ite (fun hout => ?_) fun hin => ?_
  · exact .ok ⟨hn₀, hlo, hhi, fun _ => hn (by omega)⟩
  · have hnx : 0 ≤ bx + dx ∧ bx + dx < bw := by omega
    have hny : 0 ≤ bY + dy ∧ bY + dy < bh := by omega
    have hcell₀ := cell_nonneg hnx.1 hnx.2 hny.1
    have hcell := cell_lt hnx.2 hny.2 (by omega)
    obtain ⟨t, ⟨ht₁, ht₂⟩, hindex⟩ := hlevels _ hcell₀ hcell
    rw [hindex, ok_bind]
    exact .ok ⟨by omega, by dsimp only; omega, by dsimp only; omega, fun _ => by dsimp only; omega⟩

/-! ### The binarized image -/

/-- A pixel of the image is marked dark exactly when it is black. -/
def Marked (ε : Type) (pixels : List UInt8) (w x y : ℤ) (dark : List Bool) : Prop :=
  ∃ p, (index pixels (y * w + x) : Checked ε UInt8) = .ok p ∧
    (index dark (y * w + x) : Checked ε Bool) = .ok (decide (p = 0))

/-- What the binarization of a block leaves. -/
lemma gives_binarizeBlock (hb : Bilevel pixels w h) {t : ℤ} (ht : IsLevel t) (hbx₀ : 0 ≤ bx)
    (hbx : bx * 8 < w) (hbY₀ : 0 ≤ bY) (hbY : bY * 8 < h) {dark : List Bool}
    (hdark : dark.length = (w * h).toNat) :
    Gives (fun dark' => dark'.length = (w * h).toNat ∧
        (∀ x y, (blockRect w h bx bY).contains x y → Marked ε pixels w x y dark') ∧
        ∀ x y, Marked ε pixels w x y dark → Marked ε pixels w x y dark')
      (binarizeBlock pixels w h t bx bY dark : Checked ε (List Bool)) := by
  obtain ⟨⟨hdx, -⟩, hdy, -⟩ := blockRect_bounds hbx hbY
  refine Rectangle.ends_scan_set hdx hdy hdark fun x y hxy dark hdark => ?_
  obtain ⟨⟨hcell₀, hcell⟩, p, hp, hindex⟩ := hb.exists_index (ε := ε) hbx₀ hbY₀ hxy
  have hbelow : decide ((p.toNat : ℤ) < t) = decide (p = 0) := by
    obtain ⟨ht₁, ht₂⟩ := ht
    rcases hp with rfl | rfl
    · exact decide_eq_decide.mpr ⟨fun _ => rfl, fun _ => Int.lt_of_lt_of_le Int.zero_lt_one ht₁⟩
    · exact decide_eq_decide.mpr ⟨fun h => absurd h (Int.not_lt.mpr ht₂), fun h => by cases h⟩
  rw [hindex, ok_bind, hbelow]
  refine (gives_store hcell₀ (by omega)).weaken (fun dark' h => ?_) fun _ h => h
  refine ⟨h.1.trans hdark, ⟨p, hindex, by rw [h.2, if_pos rfl]⟩, fun x' y' ⟨p', hp', hd'⟩ => ?_⟩
  refine ⟨p', hp', ?_⟩
  rw [h.2]
  split_ifs with heq
  · rw [heq, hindex] at hp'
    cases hp'
    rfl
  · exact hd'

/-- Every pixel of a black and white image of eight by eight pixels or more is marked. -/
lemma gives_binarizeGray (hb : Bilevel pixels w h) (hw : 8 ≤ w) (hh : 8 ≤ h)
    (hroom : w * h ≤ maxAlloc)
    (hblack : 0 ∈ pixels.take (w * h).toNat) (hwhite : 255 ∈ pixels.take (w * h).toNat) :
    Gives (fun b => b.w = w ∧ b.h = h ∧
        ∀ x y, 0 ≤ x → x < w → 0 ≤ y → y < h → Marked ε pixels w x y b.dark)
      (binarizeGray pixels w h : Checked ε Bitmap) := by
  have harea₀ : 0 < w * h := Int.mul_pos (by omega) (by omega)
  have harea : w * h = (w * h).toNat := (Int.toNat_of_nonneg harea₀.le).symm
  have hlen : (w * h).toNat ≤ pixels.length := hb.length_le
  have hextremes := gives_extremes (ε := ε) (n := (w * h).toNat) (by omega) hlen
  rw [← harea] at hextremes
  rw [binarizeGray, int64_of_le_maxAlloc harea₀.le hroom, alloc_one_eq harea₀.le hroom, ok_bind,
    if_neg (by omega), if_neg (by unfold blockSize; omega)]
  refine Gives.bind hextremes ?_
  rintro ⟨lo, hi⟩ hr
  have hlo : lo.toNat = 0 := Nat.le_zero.mp (hr 0 hblack).1
  have hhi : hi.toNat = 255 := Nat.le_antisymm (Nat.le_of_lt_succ hi.toNat_lt) (hr 255 hwhite).2
  simp only [hlo, hhi, blockSize]
  have hbw : (w + 8 - 1).tdiv 8 = (w + 7) / 8 := by
    rw [Int.tdiv_eq_ediv_of_nonneg (by omega)]
    congr 1
    omega
  have hbh : (h + 8 - 1).tdiv 8 = (h + 7) / 8 := by
    rw [Int.tdiv_eq_ediv_of_nonneg (by omega)]
    congr 1
    omega
  rw [hbw, hbh]
  have hbw₀ : 0 ≤ (w + 7) / 8 := by omega
  have hbh₀ : 0 ≤ (h + 7) / 8 := by omega
  have hblocks : (w + 7) / 8 * ((h + 7) / 8) * 8 ≤ maxAlloc :=
    blocks_room hw hh hroom hbh₀ (by omega) (by omega)
  refine Gives.bind (gives_blockThresholds hb hbw₀ hbh₀ (by omega) (by omega) hblocks
    ⟨by decide, by decide⟩) fun thresholds hlevels => ?_
  refine Gives.bind (Rectangle.ends_scan_set (J := fun dark => dark.length = (w * h).toNat)
    (R := fun bx bY dark => ∀ x y, (blockRect w h bx bY).contains x y → Marked ε pixels w x y dark)
    (Int.sub_nonneg.mpr hbw₀) (Int.sub_nonneg.mpr hbh₀) List.length_replicate
    fun bx bY hblock dark hdark => ?_) fun dark hdark => ?_
  · obtain ⟨hbx₀, hbx, hbY₀, hbY⟩ := hblock
    refine Gives.bind (gives_smoothThreshold hlevels hbx₀ hbx hbY₀ hbY) fun t ht => ?_
    dsimp only at hbx hbY
    refine (gives_binarizeBlock hb ht hbx₀ (by omega) hbY₀ (by omega) hdark).weaken
      (fun dark' h => ?_) fun _ h => h
    exact ⟨h.1, h.2.1, fun bx' bY' hmarked x y hxy => h.2.2 x y (hmarked x y hxy)⟩
  · refine .ok ⟨rfl, rfl, fun x y hx₀ hx hy₀ hy => ?_⟩
    refine hdark.2.1 (x / 8) (y / 8) ?_ x y ((blockRect_contains_iff x y).mpr ⟨⟨rfl, hx⟩, rfl, hy⟩)
    unfold Rectangle.contains
    dsimp only
    omega

end Dhow.Optical
