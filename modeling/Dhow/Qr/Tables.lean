import Dhow.Lib.Checked
import Dhow.Qr.Errors

/-!
# Tables of the QR decoder

The two tables of `tables.go` and what it derives from them, which is what the standard has in a
table of its own.
-/

namespace Dhow.Qr
open Checked

/-- The two bits of the format information, which are not in the order of the tables. -/
def Level.formatBits : Level → ℕ
  | low => 1
  | medium => 0
  | quartile => 3
  | high => 2

def levelFromFormatBits (b : ℕ) : Option Level :=
  if b = 1 then some .low
  else if b = 0 then some .medium
  else if b = 3 then some .quartile
  else if b = 2 then some .high
  else none

lemma levelFromFormatBits_eq_some {b : ℕ} {level : Level}
    (h : levelFromFormatBits b = some level) : b = level.formatBits := by
  unfold levelFromFormatBits at h
  split_ifs at h with h1 h2 h3 h4
  all_goals
    cases h
    assumption

lemma levelFromFormatBits_formatBits (level : Level) :
    levelFromFormatBits level.formatBits = some level := by
  cases level <;> rfl

def minVersion : ℤ := 1

def maxVersion : ℤ := 40

/-- How many bytes of each block are error correction, by the version. -/
def eccCodewordsPerBlock : Level → List ℤ
  | .low => [0, 7, 10, 15, 20, 26, 18, 20, 24, 30, 18, 20, 24, 26, 30, 22, 24, 28, 30, 28, 28, 28,
    28, 30, 30, 26, 28, 30, 30, 30, 30, 30, 30, 30, 30, 30, 30, 30, 30, 30, 30]
  | .medium => [0, 10, 16, 26, 18, 24, 16, 18, 22, 22, 26, 30, 22, 22, 24, 24, 28, 28, 26, 26, 26,
    26, 28, 28, 28, 28, 28, 28, 28, 28, 28, 28, 28, 28, 28, 28, 28, 28, 28, 28, 28]
  | .quartile => [0, 13, 22, 18, 26, 18, 24, 18, 22, 20, 24, 28, 26, 24, 20, 30, 24, 28, 28, 26,
    30, 28, 30, 30, 30, 30, 28, 30, 30, 30, 30, 30, 30, 30, 30, 30, 30, 30, 30, 30, 30]
  | .high => [0, 17, 28, 22, 16, 22, 28, 26, 26, 24, 28, 24, 28, 22, 24, 24, 30, 28, 28, 26, 28,
    30, 24, 30, 30, 30, 30, 30, 30, 30, 30, 30, 30, 30, 30, 30, 30, 30, 30, 30, 30]

/-- How many blocks the codewords are split into, by the version. -/
def numErrorCorrectionBlocks : Level → List ℤ
  | .low => [0, 1, 1, 1, 1, 1, 2, 2, 2, 2, 4, 4, 4, 4, 4, 6, 6, 6, 6, 7, 8, 8, 9, 9, 10, 12, 12,
    12, 13, 14, 15, 16, 17, 18, 19, 19, 20, 21, 22, 24, 25]
  | .medium => [0, 1, 1, 1, 2, 2, 4, 4, 4, 5, 5, 5, 8, 9, 9, 10, 10, 11, 13, 14, 16, 17, 17, 18,
    20, 21, 23, 25, 26, 28, 29, 31, 33, 35, 37, 38, 40, 43, 45, 47, 49]
  | .quartile => [0, 1, 1, 2, 2, 4, 4, 6, 6, 8, 8, 8, 10, 12, 16, 12, 17, 16, 18, 21, 20, 23, 23,
    25, 27, 29, 34, 34, 35, 38, 40, 43, 45, 48, 51, 53, 56, 59, 62, 65, 68]
  | .high => [0, 1, 1, 2, 4, 4, 4, 5, 6, 8, 8, 11, 11, 16, 16, 18, 16, 19, 21, 25, 25, 25, 34, 30,
    32, 35, 37, 40, 42, 45, 48, 51, 54, 57, 60, 63, 66, 70, 74, 77, 81]

/-- The modules per side. -/
def sizeForVersion (version : ℤ) : ℤ := version * 4 + 17

def versionForSize (size : ℤ) : Option ℤ :=
  if size < sizeForVersion minVersion ∨ size > sizeForVersion maxVersion then none
  else if (size - 17).tmod 4 ≠ 0 then none
  else some ((size - 17).tdiv 4)

/-- The modules for data and error correction: the whole grid less every function pattern. -/
def rawDataModules (version : ℤ) : ℤ :=
  let result := (16 * version + 128) * version + 64
  if version ≥ 2 then
    let numAlign := version.tdiv 7 + 2
    let result := result - ((25 * numAlign - 10) * numAlign - 55)
    if version ≥ 7 then result - 36 else result
  else result

/-- The row and column centres of the alignment patterns. -/
def alignmentPatternPositions (version : ℤ) : Checked QrError (List ℤ) := do
  if version = 1 then return []
  let numAlign := version.tdiv 7 + 2
  let step ← (if version ≠ 32 then do
      let half ← quot (version * 4 + numAlign * 2 + 1) (numAlign * 2 - 2)
      return half * 2
    else .ok 26 : Checked QrError ℤ)
  let result ← make numAlign 0
  let result ← store result 0 6
  -- pass `k` is the one for the position `numAlign - 1 - k`
  repeatFor (fun k result =>
    store result (numAlign - 1 - k) (sizeForVersion version - 7 - k * step)) result
    (numAlign - 1).toNat

/-- How the codewords are split into blocks of two lengths that differ by one byte, the short ones
first. -/
structure Layout where
  numBlocks : ℤ
  eccLen : ℤ
  shortBlockLen : ℤ
  shortBlockDataLen : ℤ
  numShortBlocks : ℤ
  totalCodewords : ℤ
  dataCodewords : ℤ
  deriving DecidableEq

def blockLayout (version : ℤ) (level : Level) : Checked QrError (Option Layout) := do
  if version < minVersion ∨ version > maxVersion then return none
  let numBlocks ← index (numErrorCorrectionBlocks level) version
  let eccLen ← index (eccCodewordsPerBlock level) version
  let total := (rawDataModules version).tdiv 8
  let shortLen ← quot total numBlocks
  let long ← rem total numBlocks
  return some
    { numBlocks := numBlocks
      eccLen := eccLen
      shortBlockLen := shortLen
      shortBlockDataLen := shortLen - eccLen
      numShortBlocks := numBlocks - long
      totalCodewords := total
      dataCodewords := total - eccLen * numBlocks }

/-- The width of the character count of a byte-mode segment. -/
def charCountBits (version : ℤ) : ℕ := if version ≤ 9 then 8 else 16

lemma versionForSize_eq_some {size version : ℤ} (h : versionForSize size = some version) :
    1 ≤ version ∧ version ≤ 40 ∧ size = sizeForVersion version := by
  unfold versionForSize sizeForVersion minVersion maxVersion at h
  split_ifs at h with hrange hrem
  have hdiv := Int.tmod_add_mul_tdiv (size - 17) 4
  rw [Option.some.injEq] at h
  unfold sizeForVersion
  omega

lemma versionForSize_sizeForVersion {version : ℤ} (h1 : 1 ≤ version) (h40 : version ≤ 40) :
    versionForSize (sizeForVersion version) = some version := by
  have hsub : sizeForVersion version - 17 = 4 * version := by
    unfold sizeForVersion
    omega
  unfold versionForSize
  rw [if_neg (by unfold sizeForVersion minVersion maxVersion; omega), hsub, if_neg]
  · rw [Int.mul_tdiv_cancel_left version (by decide)]
  · rw [not_not]
    exact Int.mul_tmod_right 4 version

/-! ### Layouts -/

/-- The lengths of the blocks of a layout: `numShort` blocks with `shortDataLen` bytes of data
each, then the others with one more. -/
structure Shape where
  numBlocks : ℕ
  eccLen : ℕ
  shortDataLen : ℕ
  numShort : ℕ

namespace Shape

def layout (s : Shape) : Layout where
  numBlocks := s.numBlocks
  eccLen := s.eccLen
  shortBlockLen := s.shortDataLen + s.eccLen
  shortBlockDataLen := s.shortDataLen
  numShortBlocks := s.numShort
  totalCodewords := s.numBlocks * (s.shortDataLen + s.eccLen) + (s.numBlocks - s.numShort)
  dataCodewords := s.numBlocks * s.shortDataLen + (s.numBlocks - s.numShort)

structure WellFormed (s : Shape) : Prop where
  numShort_le : s.numShort ≤ s.numBlocks
  eccLen_pos : 0 < s.eccLen
  shortDataLen_pos : 0 < s.shortDataLen
  length_le : s.shortDataLen + s.eccLen ≤ 254

/-- The bytes of data of block `j`. -/
def dataLen (s : Shape) (j : ℕ) : ℕ := if j < s.numShort then s.shortDataLen else s.shortDataLen + 1

end Shape

/-- The blocks of the standard by the version: of each kind how many there are, how many codewords one
has, and how many of these are data. -/
def blockTable : Level → List (List (ℕ × ℕ × ℕ))
  | .low => [[], [(1, 26, 19)], [(1, 44, 34)], [(1, 70, 55)], [(1, 100, 80)], [(1, 134, 108)],
    [(2, 86, 68)], [(2, 98, 78)], [(2, 121, 97)], [(2, 146, 116)], [(2, 86, 68), (2, 87, 69)],
    [(4, 101, 81)], [(2, 116, 92), (2, 117, 93)], [(4, 133, 107)], [(3, 145, 115), (1, 146, 116)],
    [(5, 109, 87), (1, 110, 88)], [(5, 122, 98), (1, 123, 99)], [(1, 135, 107), (5, 136, 108)],
    [(5, 150, 120), (1, 151, 121)], [(3, 141, 113), (4, 142, 114)], [(3, 135, 107), (5, 136, 108)],
    [(4, 144, 116), (4, 145, 117)], [(2, 139, 111), (7, 140, 112)], [(4, 151, 121), (5, 152, 122)],
    [(6, 147, 117), (4, 148, 118)], [(8, 132, 106), (4, 133, 107)], [(10, 142, 114), (2, 143, 115)],
    [(8, 152, 122), (4, 153, 123)], [(3, 147, 117), (10, 148, 118)], [(7, 146, 116), (7, 147, 117)],
    [(5, 145, 115), (10, 146, 116)], [(13, 145, 115), (3, 146, 116)], [(17, 145, 115)],
    [(17, 145, 115), (1, 146, 116)], [(13, 145, 115), (6, 146, 116)],
    [(12, 151, 121), (7, 152, 122)], [(6, 151, 121), (14, 152, 122)],
    [(17, 152, 122), (4, 153, 123)], [(4, 152, 122), (18, 153, 123)],
    [(20, 147, 117), (4, 148, 118)], [(19, 148, 118), (6, 149, 119)]]
  | .medium => [[], [(1, 26, 16)], [(1, 44, 28)], [(1, 70, 44)], [(2, 50, 32)], [(2, 67, 43)],
    [(4, 43, 27)], [(4, 49, 31)], [(2, 60, 38), (2, 61, 39)], [(3, 58, 36), (2, 59, 37)],
    [(4, 69, 43), (1, 70, 44)], [(1, 80, 50), (4, 81, 51)], [(6, 58, 36), (2, 59, 37)],
    [(8, 59, 37), (1, 60, 38)], [(4, 64, 40), (5, 65, 41)], [(5, 65, 41), (5, 66, 42)],
    [(7, 73, 45), (3, 74, 46)], [(10, 74, 46), (1, 75, 47)], [(9, 69, 43), (4, 70, 44)],
    [(3, 70, 44), (11, 71, 45)], [(3, 67, 41), (13, 68, 42)], [(17, 68, 42)], [(17, 74, 46)],
    [(4, 75, 47), (14, 76, 48)], [(6, 73, 45), (14, 74, 46)], [(8, 75, 47), (13, 76, 48)],
    [(19, 74, 46), (4, 75, 47)], [(22, 73, 45), (3, 74, 46)], [(3, 73, 45), (23, 74, 46)],
    [(21, 73, 45), (7, 74, 46)], [(19, 75, 47), (10, 76, 48)], [(2, 74, 46), (29, 75, 47)],
    [(10, 74, 46), (23, 75, 47)], [(14, 74, 46), (21, 75, 47)], [(14, 74, 46), (23, 75, 47)],
    [(12, 75, 47), (26, 76, 48)], [(6, 75, 47), (34, 76, 48)], [(29, 74, 46), (14, 75, 47)],
    [(13, 74, 46), (32, 75, 47)], [(40, 75, 47), (7, 76, 48)], [(18, 75, 47), (31, 76, 48)]]
  | .quartile => [[], [(1, 26, 13)], [(1, 44, 22)], [(2, 35, 17)], [(2, 50, 24)],
    [(2, 33, 15), (2, 34, 16)], [(4, 43, 19)], [(2, 32, 14), (4, 33, 15)],
    [(4, 40, 18), (2, 41, 19)], [(4, 36, 16), (4, 37, 17)], [(6, 43, 19), (2, 44, 20)],
    [(4, 50, 22), (4, 51, 23)], [(4, 46, 20), (6, 47, 21)], [(8, 44, 20), (4, 45, 21)],
    [(11, 36, 16), (5, 37, 17)], [(5, 54, 24), (7, 55, 25)], [(15, 43, 19), (2, 44, 20)],
    [(1, 50, 22), (15, 51, 23)], [(17, 50, 22), (1, 51, 23)], [(17, 47, 21), (4, 48, 22)],
    [(15, 54, 24), (5, 55, 25)], [(17, 50, 22), (6, 51, 23)], [(7, 54, 24), (16, 55, 25)],
    [(11, 54, 24), (14, 55, 25)], [(11, 54, 24), (16, 55, 25)], [(7, 54, 24), (22, 55, 25)],
    [(28, 50, 22), (6, 51, 23)], [(8, 53, 23), (26, 54, 24)], [(4, 54, 24), (31, 55, 25)],
    [(1, 53, 23), (37, 54, 24)], [(15, 54, 24), (25, 55, 25)], [(42, 54, 24), (1, 55, 25)],
    [(10, 54, 24), (35, 55, 25)], [(29, 54, 24), (19, 55, 25)], [(44, 54, 24), (7, 55, 25)],
    [(39, 54, 24), (14, 55, 25)], [(46, 54, 24), (10, 55, 25)], [(49, 54, 24), (10, 55, 25)],
    [(48, 54, 24), (14, 55, 25)], [(43, 54, 24), (22, 55, 25)], [(34, 54, 24), (34, 55, 25)]]
  | .high => [[], [(1, 26, 9)], [(1, 44, 16)], [(2, 35, 13)], [(4, 25, 9)],
    [(2, 33, 11), (2, 34, 12)], [(4, 43, 15)], [(4, 39, 13), (1, 40, 14)],
    [(4, 40, 14), (2, 41, 15)], [(4, 36, 12), (4, 37, 13)], [(6, 43, 15), (2, 44, 16)],
    [(3, 36, 12), (8, 37, 13)], [(7, 42, 14), (4, 43, 15)], [(12, 33, 11), (4, 34, 12)],
    [(11, 36, 12), (5, 37, 13)], [(11, 36, 12), (7, 37, 13)], [(3, 45, 15), (13, 46, 16)],
    [(2, 42, 14), (17, 43, 15)], [(2, 42, 14), (19, 43, 15)], [(9, 39, 13), (16, 40, 14)],
    [(15, 43, 15), (10, 44, 16)], [(19, 46, 16), (6, 47, 17)], [(34, 37, 13)],
    [(16, 45, 15), (14, 46, 16)], [(30, 46, 16), (2, 47, 17)], [(22, 45, 15), (13, 46, 16)],
    [(33, 46, 16), (4, 47, 17)], [(12, 45, 15), (28, 46, 16)], [(11, 45, 15), (31, 46, 16)],
    [(19, 45, 15), (26, 46, 16)], [(23, 45, 15), (25, 46, 16)], [(23, 45, 15), (28, 46, 16)],
    [(19, 45, 15), (35, 46, 16)], [(11, 45, 15), (46, 46, 16)], [(59, 46, 16), (1, 47, 17)],
    [(22, 45, 15), (41, 46, 16)], [(2, 45, 15), (64, 46, 16)], [(24, 45, 15), (46, 46, 16)],
    [(42, 45, 15), (32, 46, 16)], [(10, 45, 15), (67, 46, 16)], [(20, 45, 15), (61, 46, 16)]]

/-- The shape of the blocks of a version and level. -/
def shape (version : ℕ) (level : Level) : Shape :=
  match (blockTable level).getD version [] with
  | [(count, codewords, data)] => ⟨count, codewords - data, data, count⟩
  | [(short, codewords, data), (long, _, _)] => ⟨short + long, codewords - data, data, short⟩
  | _ => ⟨0, 0, 0, 0⟩

/-- In a shape each block has the codewords and the data of the standard. -/
lemma shape_blocks : ∀ version : ℕ, version < 41 → ∀ level ∈ [Level.low, .medium, .quartile, .high],
    (List.range (shape version level).numBlocks).map (fun j =>
        ((shape version level).dataLen j + (shape version level).eccLen,
          (shape version level).dataLen j)) =
      ((blockTable level).getD version []).flatMap fun group =>
        List.replicate group.1 (group.2.1, group.2.2) := by
  decide +kernel

/-- The layout of the decoder is that of the standard. -/
lemma blockLayout_cases : ∀ version : ℕ, version < 41 → 1 ≤ version →
    ∀ level ∈ [Level.low, .medium, .quartile, .high],
      blockLayout version level = .ok (some (shape version level).layout) ∧
        (shape version level).numShort ≤ (shape version level).numBlocks ∧
        0 < (shape version level).eccLen ∧ 0 < (shape version level).shortDataLen ∧
        (shape version level).shortDataLen + (shape version level).eccLen ≤ 254 := by
  decide +kernel

lemma blockLayout_eq {version : ℕ} (h1 : 1 ≤ version) (h40 : version ≤ 40) (level : Level) :
    blockLayout version level = .ok (some (shape version level).layout) :=
  (blockLayout_cases version (by omega) h1 level (by cases level <;> decide)).1

lemma shape_wellFormed {version : ℕ} (h1 : 1 ≤ version) (h40 : version ≤ 40) (level : Level) :
    (shape version level).WellFormed := by
  obtain ⟨-, h⟩ := blockLayout_cases version (by omega) h1 level (by cases level <;> decide)
  exact ⟨h.1, h.2.1, h.2.2.1, h.2.2.2⟩

end Dhow.Qr
