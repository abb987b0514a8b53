import Dhow.Netpbm.Grammar
import Mathlib.Tactic.IntervalCases

/-!
# The images of a stream

A header of four fields with plausible values, then as many bytes as it declares: exactly this is
read as an image, and what comes after it is left on the stream.
-/

namespace Dhow.Netpbm
open Bytes GoImage
open Checked (Gives Ends gives_store gives_iff index_eq index_eq_ok_iff)

/-- The four fields of a header. -/
def Header (channels width height maxValue : ℕ) (s rest : Str) : Prop :=
  ∃ magic s₁ s₂ s₃, Field magic s s₁ ∧ channelsOf magic = some channels ∧ Number width s₁ s₂ ∧
    Number height s₂ s₃ ∧ Number maxValue s₃ rest

/-- What a header may declare. -/
structure Plausible (width height maxValue : ℕ) : Prop where
  width_pos : 0 < width
  width_le : width ≤ maxNetpbmDimension
  height_pos : 0 < height
  height_le : height ≤ maxNetpbmDimension
  maxValue_pos : 0 < maxValue
  maxValue_le : maxValue ≤ 65535

def sampleBytes (maxValue : ℕ) : ℕ := if maxValue > 255 then 2 else 1

/-- The number of bytes that a header declares. -/
def dataSize (channels width height maxValue : ℕ) : ℕ :=
  width * height * channels * sampleBytes maxValue

lemma channelsOf_eq {magic : Str} {channels : ℕ} (h : channelsOf magic = some channels) :
    channels = 1 ∨ channels = 3 := by
  unfold channelsOf at h
  split_ifs at h
  · exact .inl (Option.some_inj.mp h).symm
  · exact .inr (Option.some_inj.mp h).symm

lemma sampleBytes_eq (maxValue : ℕ) : sampleBytes maxValue = 1 ∨ sampleBytes maxValue = 2 := by
  unfold sampleBytes
  split_ifs
  · exact .inr rfl
  · exact .inl rfl

lemma Plausible.dataSize_pos {channels width height maxValue : ℕ}
    (hp : Plausible width height maxValue) (hc : channels = 1 ∨ channels = 3) :
    0 < dataSize channels width height maxValue := by
  have hb := sampleBytes_eq maxValue
  exact Nat.mul_pos (Nat.mul_pos (Nat.mul_pos hp.width_pos hp.height_pos) (by omega)) (by omega)

/-- The pixels fit a slice. -/
lemma Plausible.area_le {width height maxValue : ℕ} (hp : Plausible width height maxValue) :
    width * height ≤ Checked.maxAlloc :=
  (Nat.mul_le_mul hp.width_le hp.height_le).trans (by decide)

/-! ### Pixels -/

lemma exists_sampleAt {data : Str} {n b : ℕ} (hb : b = 1 ∨ b = 2) (hn : n * b + b ≤ data.length) :
    ∃ v, sampleAt data n b = .ok v := by
  have hget : ∀ i, i < data.length → ∃ c, (Checked.index data i : Checked ReadError UInt8) = .ok c :=
    fun i hi => ⟨_, index_eq rfl (List.getElem?_eq_getElem hi)⟩
  rcases hb with rfl | rfl
  · obtain ⟨c, hc⟩ := hget n (by omega)
    exact ⟨c.toNat, by rw [sampleAt, if_pos rfl, hc]; rfl⟩
  · obtain ⟨hi, hhi⟩ := hget (2 * n) (by omega)
    obtain ⟨lo, hlo⟩ := hget (2 * n + 1) (by omega)
    push_cast at hhi hlo
    refine ⟨hi.toNat <<< 8 ||| lo.toNat, ?_⟩
    rw [sampleAt, if_neg (by decide), hhi, hlo]
    rfl

lemma exists_pixelValue {data : Str} {i channels b area : ℕ} (hc : channels = 1 ∨ channels = 3)
    (hb : b = 1 ∨ b = 2) (hi : i < area) (hlen : data.length = area * channels * b) :
    ∃ v, pixelValue data i channels b = .ok v := by
  have hsample : ∀ k, k < channels → ∃ v, sampleAt data (i * channels + k) b = .ok v := by
    intro k hk
    apply exists_sampleAt hb
    calc (i * channels + k) * b + b = (i * channels + k + 1) * b := by ring
      _ ≤ (area * channels) * b := by
        apply Nat.mul_le_mul_right
        calc i * channels + k + 1 ≤ (i + 1) * channels := by rw [Nat.add_mul, Nat.one_mul]; omega
          _ ≤ area * channels := Nat.mul_le_mul_right _ hi
      _ = data.length := hlen.symm
  rcases hc with rfl | rfl
  · obtain ⟨v, hv⟩ := hsample 0 (by decide)
    rw [Nat.mul_one, Nat.add_zero] at hv
    exact ⟨Float.ofNat v, by rw [pixelValue, if_pos rfl, hv]; rfl⟩
  · obtain ⟨r, hr⟩ := hsample 0 (by decide)
    obtain ⟨g, hg⟩ := hsample 1 (by decide)
    obtain ⟨b', hb'⟩ := hsample 2 (by decide)
    rw [Nat.add_zero] at hr
    exact ⟨_, by rw [pixelValue, if_neg (by decide), hr, hg, hb']; rfl⟩

/-- Every pixel is its value, scaled. -/
lemma gives_toGray {data : Str} {width height channels maxValue : ℕ}
    (hc : channels = 1 ∨ channels = 3) (hp : Plausible width height maxValue)
    (hlen : data.length = dataSize channels width height maxValue) :
    Gives (fun img => img.rect = ⟨0, 0, width, height⟩ ∧ img.stride = (width : ℤ) ∧
        img.pix.length = width * height ∧ ∀ i < width * height, ∃ v,
          pixelValue data i channels (sampleBytes maxValue) = .ok v ∧
            img.pix[i]? = some (scaleValue v maxValue))
      (toGray data width height channels (sampleBytes maxValue) maxValue) := by
  have hrect : rect 0 0 width height = ⟨0, 0, width, height⟩ := by
    rw [rect, min_eq_left (Int.natCast_nonneg _), min_eq_left (Int.natCast_nonneg _),
      max_eq_right (Int.natCast_nonneg _), max_eq_right (Int.natCast_nonneg _)]
  have hdx : (⟨0, 0, width, height⟩ : Rectangle).dx = width := Int.sub_zero _
  have hdy : (⟨0, 0, width, height⟩ : Rectangle).dy = height := Int.sub_zero _
  have hwidth : width ≤ 16384 := hp.width_le
  have hheight : height ≤ 16384 := hp.height_le
  have hsized : (⟨0, 0, width, height⟩ : Rectangle).Sized :=
    ⟨by omega, by omega, by omega, by omega⟩
  have harea : (width : ℤ) * height = (width * height : ℕ) := (Int.natCast_mul width height).symm
  rw [toGray, hrect, hsized.newGray_eq (by rw [hdx, hdy, harea]; exact_mod_cast hp.area_le), hdx,
    hdy, harea, Int.toNat_natCast, Checked.ok_bind]
  refine Gives.bind (Checked.ends_repeatFor (fun k (pix : Str) => pix.length = width * height ∧
    ∀ i < k, ∃ v, pixelValue data i channels (sampleBytes maxValue) = .ok v ∧
      pix[i]? = some (scaleValue v maxValue)) (width * height)
    ⟨List.length_replicate, fun i hi => absurd hi (Nat.not_lt_zero i)⟩ ?_) ?_
  · intro i hi pix ⟨hpix, hdone⟩
    obtain ⟨v, hv⟩ := exists_pixelValue hc (sampleBytes_eq maxValue) hi hlen
    rw [hv, Checked.ok_bind, Checked.store_eq rfl (hpix ▸ hi)]
    refine .ok ⟨List.length_set.trans hpix, fun k hk => ?_⟩
    by_cases hki : k = i
    · subst hki
      exact ⟨v, hv, List.getElem?_set_self (hpix ▸ hi)⟩
    · rw [List.getElem?_set_ne (Ne.symm hki)]
      exact hdone k (by omega)
  · intro pix ⟨hpix, hdone⟩
    exact .ok ⟨rfl, rfl, hpix, hdone⟩

/-! ### Reading an image -/

/-- After a good magic the numbers are read. -/
lemma readNetpbm_magic {magic s s₁ : Str} {channels : ℕ} (hmagic : Field magic s s₁)
    (hchannels : channelsOf magic = some channels) :
    readNetpbm s = (do
      let width ← readInt
      let height ← readInt
      let maxValue ← readInt
      if width ≤ 0 ∨ height ≤ 0 ∨ width > maxNetpbmDimension ∨ height > maxNetpbmDimension then
        ByteReader.fail (.implausibleSize width height)
      else if maxValue ≤ 0 ∨ maxValue > 65535 then ByteReader.fail (.maximum maxValue)
      else do
        let data ← ByteReader.readFull (dataSize channels width height maxValue) (.truncated .eof)
          (.truncated .unexpectedEOF)
        ByteReader.lift (toGray data width height channels (sampleBytes maxValue) maxValue) :
          Reader Gray) s₁ := by
  rw [readNetpbm, ByteReader.bind_ok (readToken_field hmagic), hchannels]
  rfl

lemma readNetpbm_header {channels width height maxValue : ℕ} {s rest : Str}
    (h : Header channels width height maxValue s rest) (hp : Plausible width height maxValue) :
    readNetpbm s = (do
      let data ← ByteReader.readFull (dataSize channels width height maxValue) (.truncated .eof)
        (.truncated .unexpectedEOF)
      ByteReader.lift (toGray data width height channels (sampleBytes maxValue) maxValue) :
        Reader Gray) rest := by
  obtain ⟨magic, s₁, s₂, s₃, hmagic, hchannels, hwidth, hheight, hmax⟩ := h
  obtain ⟨hw₀, hw, hh₀, hh, hm₀, hm⟩ := hp
  rw [readNetpbm_magic hmagic hchannels, ByteReader.bind_ok (readInt_number hwidth),
    ByteReader.bind_ok (readInt_number hheight), ByteReader.bind_ok (readInt_number hmax),
    if_neg (by omega), if_neg (by omega)]

/-- An image is read to its last byte. -/
lemma readNetpbm_image {channels width height maxValue : ℕ} {s data rest : Str}
    (h : Header channels width height maxValue s (data ++ rest))
    (hp : Plausible width height maxValue)
    (hlen : data.length = dataSize channels width height maxValue) :
    ∃ img, toGray data width height channels (sampleBytes maxValue) maxValue = .ok img ∧
      readNetpbm s = (.ok img, rest) := by
  have hc : channels = 1 ∨ channels = 3 := by
    obtain ⟨magic, -, -, -, -, hmagic, -⟩ := h
    exact channelsOf_eq hmagic
  obtain ⟨img, himg, -⟩ := gives_iff.mp (gives_toGray hc hp hlen)
  refine ⟨img, himg, ?_⟩
  rw [readNetpbm_header h hp, ByteReader.bind_ok (ByteReader.readFull_append hlen), ByteReader.lift,
    himg]

end Dhow.Netpbm
