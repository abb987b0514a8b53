import Dhow.Planning
import Dhow.Lib.WrappingSum
import Mathlib.GroupTheory.GroupAction.Ring

/-!
# The symbol total

The total of a chunk map is a sum of `u32`s, which wraps. Every block's count is checked to be a
`u32`, the total is not.
-/

namespace Dhow
namespace ChunkMap

def totalSymbols (map : ChunkMap) : UInt32 :=
  (map.blocks.map fun block => UInt32.ofNat block.symbolCount).foldl (· + ·) 0

variable (map : ChunkMap)

lemma symbolCount_eq_of_mem {block : BlockInfo} (hb : block ∈ map.blocks) :
    block.symbolCount = block.size ⌈/⌉ map.params.symbolSize := by
  obtain ⟨i, hi⟩ := List.mem_iff_getElem?.mp hb
  rw [map.eq_blockAt hi]
  exact map.params.symbolCount_eq _

/-- The layout was computed, so the check of every block passed. -/
lemma computeBlocksFrom_symbolCount_lt {params : ChunkParams} {left i offset : ℕ}
    {blocks : List BlockInfo} (h : computeBlocksFrom params left i offset = .ok blocks) :
    ∀ block ∈ blocks, block.symbolCount < 2 ^ 32 := by
  induction left generalizing i offset blocks with
  | zero =>
    cases h
    simp
  | succ left ih =>
    rw [computeBlocksFrom] at h
    split_ifs at h with hcount
    cases hrest : computeBlocksFrom params left (i + 1) (offset + params.blockSize i) with
    | error e => simp [hrest] at h
    | ok rest =>
      simp only [hrest, Except.ok.injEq] at h
      subst h
      intro block hb
      rcases List.mem_cons.mp hb with rfl | hb
      · exact Nat.lt_of_le_pred (by decide) (Nat.le_of_not_lt hcount)
      · exact ih hrest block hb

/-- No block's count is cut to its `u32`. -/
lemma map_toNat_symbolCount :
    (map.blocks.map fun block => UInt32.ofNat block.symbolCount).map UInt32.toNat =
      map.blocks.map fun block => block.size ⌈/⌉ map.params.symbolSize := by
  rw [List.map_map]
  apply List.map_congr_left
  intro block hb
  have hlt := computeBlocksFrom_symbolCount_lt map.blocks_eq block hb
  rw [Function.comp_apply, UInt32.toNat_ofNat_of_lt' hlt, map.symbolCount_eq_of_mem hb]

lemma sum_size : (map.blocks.map BlockInfo.size).sum = map.params.payloadSize := by
  have h := map.tiles_blocks.sum_sizes
  rwa [Nat.zero_add, List.map_map] at h

/-- Symbols of two bytes or more are half the bytes, and at most one half more a block. -/
lemma two_mul_sum_ceilDiv_le {n : ℕ} (hn : 2 ≤ n) (blocks : List BlockInfo) :
    2 * (blocks.map fun block => block.size ⌈/⌉ n).sum ≤
      (blocks.map BlockInfo.size).sum + blocks.length := by
  induction blocks with
  | nil => rfl
  | cons block blocks ih =>
    have hhalf : block.size ⌈/⌉ n ≤ (block.size + 1) / 2 := by
      rw [ceilDiv_le_iff_le_mul (Nat.lt_of_lt_of_le (by decide) hn)]
      calc block.size ≤ 2 * ((block.size + 1) / 2) := by omega
        _ ≤ n * ((block.size + 1) / 2) := Nat.mul_le_mul_right _ hn
    rw [List.map_cons, List.map_cons, List.sum_cons, List.sum_cons, List.length_cons]
    omega

/-- Only 4 GiB in symbols of one byte has too many. -/
lemma sum_symbols_lt_iff :
    (map.blocks.map fun block => block.size ⌈/⌉ map.params.symbolSize).sum < 2 ^ 32 ↔
      ¬(map.params.payloadSize = 2 ^ 32 ∧ map.params.symbolSize = 1) := by
  have hpay : map.params.payloadSize ≤ 2 ^ 32 := map.params.payloadSize_le
  have hpos : 1 ≤ map.params.symbolSize := map.params.symbolSize_mem.1
  rcases hpos.eq_or_lt with hone | htwo
  · rw [← hone]
    simp only [ceilDiv_one]
    have hsum : (map.blocks.map fun block => block.size).sum = map.params.payloadSize :=
      map.sum_size
    rw [hsum, and_true]
    exact hpay.lt_iff_ne
  · have hhalf := two_mul_sum_ceilDiv_le htwo map.blocks
    have hcount : map.blocks.length ≤ 1024 := by
      rw [map.length_blocks]
      exact map.params.blockCount_mem.2
    rw [map.sum_size] at hhalf
    constructor
    · rintro - ⟨-, hone⟩
      omega
    · intro _
      omega

/-- The total is the sum of the blocks' symbols exactly when that is a `u32`. -/
lemma toNat_totalSymbols_eq_iff :
    map.totalSymbols.toNat = (map.blocks.map fun block => block.size ⌈/⌉ map.params.symbolSize).sum ↔
      ¬(map.params.payloadSize = 2 ^ 32 ∧ map.params.symbolSize = 1) := by
  have h := WrappingSum.value_foldl_eq_sum_iff UInt32.toNat_add
    (map.blocks.map fun block => UInt32.ofNat block.symbolCount) UInt32.toNat_zero
    (by decide : 0 < 2 ^ 32)
  rw [map.map_toNat_symbolCount] at h
  rw [← map.sum_symbols_lt_iff, ← h]
  rfl

end ChunkMap

/-- For parameters with a chunk map, the symbol total is that of the blocks unless 4 GiB are cut into
symbols of one byte. -/
theorem totalSymbols_eq_sum_iff {payloadSize blockCount symbolSize : ℕ} {params : ChunkParams}
    {map : ChunkMap} (hparams : ChunkParams.new payloadSize blockCount symbolSize = .ok params)
    (hmap : ChunkMap.new params = .ok map) :
    map.totalSymbols.toNat = (map.blocks.map fun block => block.size ⌈/⌉ symbolSize).sum ↔
      ¬(payloadSize = 2 ^ 32 ∧ symbolSize = 1) := by
  obtain ⟨hpay, -, hsize⟩ := ChunkParams.new_eq_ok hparams
  have h := map.toNat_totalSymbols_eq_iff
  rwa [ChunkMap.new_eq_ok hmap, hpay, hsize] at h

/-- 4 GiB have a chunk map in two blocks, whatever the symbol size. -/
lemma exists_two_blocks {symbolSize : ℕ}
    (hsize : minSymbolSize ≤ symbolSize ∧ symbolSize ≤ maxSymbolSize) :
    ∃ params map, ChunkParams.new (2 ^ 32) 2 symbolSize = .ok params ∧
      ChunkMap.new params = .ok map := by
  have hblocks : minBlockCount ≤ 2 ∧ 2 ≤ maxBlockCount := by decide
  let params : ChunkParams := ⟨2 ^ 32, 2, symbolSize, le_refl _, hblocks, hsize⟩
  have hparams : ChunkParams.new (2 ^ 32) 2 symbolSize = .ok params := by
    rw [ChunkParams.new, dif_neg (by decide), dif_pos hblocks, dif_pos hsize]
  have hcount : ∀ i, params.symbolCount (params.blockSize i) ≤ 2 ^ 32 - 1 := by
    intro i
    have hle : params.blockSize i ≤ 2 ^ 32 ⌈/⌉ 2 := (params.blockSize_le i).2
    rw [Nat.ceilDiv_eq_add_pred_div] at hle
    rw [params.symbolCount_eq, ceilDiv_le_iff_le_mul hsize.1]
    calc params.blockSize i ≤ 1 * (2 ^ 32 - 1) := by omega
      _ ≤ symbolSize * (2 ^ 32 - 1) := Nat.mul_le_mul_right _ hsize.1
  obtain ⟨map, hmap⟩ := ChunkMap.exists_new hcount
  exact ⟨params, map, hparams, hmap⟩

/-- 4 GiB in two blocks of symbols of one byte: a total of 2³² does not come out. -/
theorem totalSymbols_wraps : ¬∀ payloadSize blockCount symbolSize params map,
    ChunkParams.new payloadSize blockCount symbolSize = .ok params →
    ChunkMap.new params = .ok map →
    map.totalSymbols.toNat = (map.blocks.map fun block => block.size ⌈/⌉ symbolSize).sum := by
  intro hclaim
  obtain ⟨params, map, hparams, hmap⟩ := @exists_two_blocks 1 (by decide)
  have hsum : (map.blocks.map fun block => block.size).sum = 2 ^ 32 := by
    rw [← (ChunkParams.new_eq_ok hparams).1, ← ChunkMap.new_eq_ok hmap]
    exact map.sum_size
  have htotal := hclaim _ _ _ params map hparams hmap
  simp only [ceilDiv_one] at htotal
  rw [hsum] at htotal
  exact absurd htotal map.totalSymbols.toNat_lt.ne

/-- The same payload in symbols of two bytes. -/
theorem totalSymbols_eq_sum_iff_two_bytes : ∃ params map,
    ChunkParams.new (2 ^ 32) 2 2 = .ok params ∧ ChunkMap.new params = .ok map ∧
      map.totalSymbols.toNat = (map.blocks.map fun block => block.size ⌈/⌉ 2).sum := by
  obtain ⟨params, map, hparams, hmap⟩ := @exists_two_blocks 2 (by decide)
  exact ⟨params, map, hparams, hmap, (totalSymbols_eq_sum_iff hparams hmap).mpr (by decide)⟩

end Dhow
