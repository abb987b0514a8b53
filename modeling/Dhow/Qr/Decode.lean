import Dhow.Qr.Blocks
import Dhow.Qr.DataModules
import Dhow.Qr.Segments

/-!
# Decoding a grid

`Decode` never panics, whatever the grid, and it accounts for what it returns: a copy of the format
information and every block are within the radius of their codes of what the grid holds.
-/

namespace Dhow.Qr
open Bytes Checked ReedSolomon

structure Result where
  data : Str
  version : ℤ
  level : Level
  mask : ℕ
  deriving DecidableEq

/-- A product of machine integers. -/
def intMul (a b : ℤ) : ℤ := (a * b).bmod (2 ^ 64)

def decode (g : Option Grid) : Checked QrError Result := do
  match g with
  | none => fail .notAQRCode
  | some g =>
    if (g.dark.length : ℤ) ≠ intMul g.size g.size then fail .notAQRCode
    else
      match versionForSize g.size with
      | none => fail (.notASize g.size)
      | some version =>
        let (level, mask) ← readFormatInfo g
        match ← blockLayout version level with
        | none => fail (.noLayout version level)
        | some lay =>
          let codewords ← readCodewords g version mask lay.totalCodewords
          let data ← deinterleaveAndCorrect codewords lay
          let payload ← parseSegments data version
          return ⟨payload, version, level, mask⟩

/-- What a result rests on: the format, a word of the code for each block of the grid, and the
segments in their data. -/
structure Explained (g : Grid) (version : ℕ) (level : Level) (mask : ℕ) (data : Str) : Prop where
  version_pos : 1 ≤ version
  version_le : version ≤ 40
  size_eq : g.size = side version
  mask_lt : mask < 8
  format : ∃ copy ∈ formatCopies (side version), g.formatErrors copy level mask ≤ 3
  blocks : ∃ codewords words, BitList.ofBytes codewords =
      ((dataModules version).map (g.unmasked mask)).take (8 * codewords.length) ∧
    codewords.length = (shape version level).layout.totalCodewords ∧
    List.Forall₂ (Near (shape version level).eccLen) ((shape version level).blocks codewords)
      words ∧
    Segments (charCountBits version) (BitList.ofBytes ((shape version level).dataOf words)) data
  length_le : (data.length : ℤ) ≤ (shape version level).layout.dataCodewords

lemma layout_cases : ∀ version : ℕ, version < 41 → 1 ≤ version →
    ∀ level ∈ [Level.low, .medium, .quartile, .high],
      8 * (shape version level).layout.totalCodewords ≤ rawDataModules version := by
  decide +kernel

/-- The layout fits in the data modules. -/
lemma totalCodewords_le {version : ℕ} (h1 : 1 ≤ version) (h40 : version ≤ 40) (level : Level) :
    8 * (shape version level).layout.totalCodewords ≤ (dataModules version).length :=
  (layout_cases version (by omega) h1 level (by cases level <;> decide)).trans
    (rawDataModules_le h1 h40)

/-- The data of words of the right lengths is as long as the layout says. -/
lemma length_dataOf_blocks {s : Shape} (hs : s.WellFormed) {codewords : Str} {words : List Str}
    (h : List.Forall₂ (Near s.eccLen) (s.blocks codewords) words) :
    ((s.dataOf words).length : ℤ) = s.layout.dataCodewords := by
  have hshort := hs.numShort_le
  have hcount : words.length = s.numBlocks := by
    rw [← h.length_eq, Shape.blocks, List.length_map, List.length_range]
  have hlong : ∀ j w, words[j]? = some w → s.dataLen j ≤ w.length := by
    intro j w hw
    obtain ⟨hj, rfl⟩ := List.getElem?_eq_some_iff.mp hw
    have hnear := h.get (h.length_eq ▸ hj) hj
    rw [List.get_eq_getElem, List.get_eq_getElem] at hnear
    have hlen := hnear.length
    simp only [Shape.blocks, Shape.block, List.getElem_map, List.length_map, List.length_range,
      List.getElem_range, Shape.blockLen] at hlen
    omega
  rw [Shape.length_dataOf hlong, hcount, Shape.layout]
  push_cast [hshort]
  rfl

/-- The product of the sides does not overflow. -/
lemma intMul_side {version : ℕ} (h40 : version ≤ 40) :
    intMul (side version) (side version) = (side version * side version : ℕ) := by
  have hle : side version ≤ 177 := by
    unfold side
    omega
  have hmul : side version * side version ≤ 177 * 177 := Nat.mul_le_mul hle hle
  rw [intMul, ← Nat.cast_mul]
  generalize side version * side version = area at hmul ⊢
  exact Int.bmod_eq_of_le_mul_two (by omega) (by omega)

lemma square_of_length {g : Grid} {version : ℕ} (h40 : version ≤ 40)
    (hsize : g.size = side version) (hlen : (g.dark.length : ℤ) = intMul g.size g.size) :
    g.Square (side version) := by
  refine ⟨hsize, ?_⟩
  rw [hsize, intMul_side h40] at hlen
  exact Int.ofNat.inj hlen

/-- Decoding does not panic, whatever the size of the grid and its modules, and what it returns is
explained by words of the codes that are near what the grid holds. -/
theorem decode_explained (g : Grid) :
    (∀ p, decode (some g) ≠ .error (.panic p)) ∧
      ∀ r, decode (some g) = .ok r →
        ∃ version : ℕ, r.version = (version : ℤ) ∧
          Explained g version r.level r.mask r.data := by
  suffices h : Ends (fun r : Result => ∃ version : ℕ, r.version = (version : ℤ) ∧
      Explained g version r.level r.mask r.data) (fun _ => True) (decode (some g)) by
    refine ⟨h.ne_panic, fun r hr => ?_⟩
    rw [hr] at h
    exact h.of_ok
  rw [decode]
  dsimp only
  split_ifs with hlen
  · exact .fail trivial
  · rw [not_not] at hlen
    cases hversion : versionForSize g.size with
    | none => exact .fail trivial
    | some v =>
      obtain ⟨h1, h40, hsize⟩ := versionForSize_eq_some hversion
      obtain ⟨version, rfl⟩ := Int.eq_ofNat_of_zero_le (show 0 ≤ v by omega)
      have h1 : 1 ≤ version := by omega
      have h40 : version ≤ 40 := by omega
      have hside : g.size = side version := by
        rw [hsize]
        unfold sizeForVersion side
        omega
      have hn : 21 ≤ side version := by
        unfold side
        omega
      have hsquare := square_of_length h40 hside hlen
      refine Ends.bind ((hsquare.ends_readFormatInfo hn).weaken (fun _ h => h) fun _ _ => trivial) ?_
      rintro ⟨level, mask⟩ ⟨hmask, hformat⟩
      have hwell := shape_wellFormed h1 h40 level
      have hlayout := blockLayout_eq h1 h40 level
      dsimp only at hmask hformat ⊢
      rw [hlayout, ok_bind]
      obtain ⟨total, htotal⟩ : ∃ n : ℕ, (shape version level).layout.totalCodewords = n :=
        ⟨_, (Shape.length_order hwell).symm⟩
      have hfits := totalCodewords_le h1 h40 level
      rw [htotal] at hfits
      dsimp only
      rw [htotal]
      refine Gives.bind (hsquare.gives_readCodewords h1 h40 mask (by omega)) ?_
      rintro codewords ⟨hcount, hbits⟩
      refine Ends.bind ((ends_deinterleaveAndCorrect hwell (by rw [htotal, hcount])).weaken
        (fun _ h => h) fun _ _ => trivial) ?_
      rintro data ⟨words, hwords, rfl⟩
      refine Ends.bind ((ends_parseSegments _ _).weaken (fun _ h => h) fun _ _ => trivial) ?_
      intro payload hpayload
      refine .ok ⟨version, rfl, h1, h40, hside, hmask, hformat, ?_, ?_⟩
      · refine ⟨codewords, words, ?_, by rw [hcount, htotal], hwords, hpayload⟩
        rw [hcount]
        exact hbits
      · have hle := hpayload.length_le
        rw [BitList.length_ofBytes] at hle
        change (payload.length : ℤ) ≤ _
        rw [← length_dataOf_blocks hwell hwords]
        omega

end Dhow.Qr
