import Dhow.ReferenceSession
import Mathlib.Algebra.Order.Floor.Div

/-!
# Source blocks

RaptorQ takes symbols of a multiple of eight bytes and splits a block into source blocks of at
most 56403 symbols, which it counts in one byte. The session's own checks bound the payload, the
block count and the symbol size, each by itself; this is the bound they would need together.
-/

namespace Dhow
open Bytes

/-- The most symbols RaptorQ puts in one source block. -/
def maxSourceSymbols : ℕ := 56403

/-- The source blocks a `u8` can count. -/
def maxSourceBlocks : ℕ := 255

/-- The symbol size `T` RaptorQ makes of a session's symbol size. -/
def alignedSymbolSize (symbolSize : ℕ) : ℕ := symbolSize - symbolSize % 8

/-- The symbols of `T` bytes in a block of `size` bytes. -/
def alignedSymbolCount (size symbolSize : ℕ) : ℕ :=
  size ⌈/⌉ alignedSymbolSize symbolSize

/-- The source blocks `Z` of a block of `size` bytes. -/
def sourceBlockCount (size symbolSize : ℕ) : ℕ :=
  alignedSymbolCount size symbolSize ⌈/⌉ maxSourceSymbols

lemma alignedSymbolSize_pos {symbolSize : ℕ} (h : 64 ≤ symbolSize) :
    0 < alignedSymbolSize symbolSize := by
  unfold alignedSymbolSize
  omega

lemma sourceBlockCount_le_iff {symbolSize : ℕ} (h : 64 ≤ symbolSize) (size n : ℕ) :
    sourceBlockCount size symbolSize ≤ n ↔
      size ≤ alignedSymbolSize symbolSize * (maxSourceSymbols * n) := by
  rw [sourceBlockCount, ceilDiv_le_iff_le_mul (by decide), alignedSymbolCount,
    ceilDiv_le_iff_le_mul (alignedSymbolSize_pos h)]

/-- The first block is the largest. -/
lemma ChunkParams.blockSize_zero (params : ChunkParams) :
    params.blockSize 0 = params.payloadSize ⌈/⌉ params.blockCount := by
  rw [ceilDiv_eq_div_add params.blockCount_pos, blockSize,
    ceilDiv_eq_div_add params.blockCount_pos]
  split_ifs <;> omega

lemma ChunkMap.size_le {map : ChunkMap} {block : BlockInfo} (hb : block ∈ map.blocks) :
    block.size ≤ map.params.payloadSize ⌈/⌉ map.params.blockCount := by
  obtain ⟨i, hi⟩ := List.mem_iff_getElem?.mp hb
  rw [map.eq_blockAt hi, ceilDiv_eq_div_add map.params.blockCount_pos]
  simp only [ChunkParams.blockAt, ChunkParams.blockSize,
    ceilDiv_eq_div_add map.params.blockCount_pos]
  split_ifs <;> omega

lemma ChunkMap.exists_first (map : ChunkMap) :
    ∃ block ∈ map.blocks, block.size = map.params.payloadSize ⌈/⌉ map.params.blockCount := by
  have hlen : 0 < map.blocks.length := by
    rw [map.length_blocks]
    exact map.params.blockCount_pos
  exact ⟨_, List.mem_of_getElem? (map.blocks_getElem? hlen), map.params.blockSize_zero⟩

/-- The source blocks of every block of a validated session fit their `u8` count exactly when
the payload is no longer than the session's blocks can hold. -/
theorem sourceBlocks_fit_iff {params : SessionParams} {map : ChunkMap}
    (hparams : validateParams params = .ok ()) (hmap : chunkMapFor params = .ok map) :
    (∀ block ∈ map.blocks, block.size ≠ 0 →
      sourceBlockCount block.size params.symbolSize.toNat ≤ maxSourceBlocks) ↔
      params.payloadSize.toNat ≤ params.blockCount.toNat *
        (alignedSymbolSize params.symbolSize.toNat * (maxSourceSymbols * maxSourceBlocks)) := by
  -- the session with any identifier and key
  let p : Pipeline := ⟨zeros 16, params, zeros 32, map, hparams, hmap⟩
  have hsize : 64 ≤ params.symbolSize.toNat := p.symbolSize_bounds.1
  obtain ⟨hpay, hcount⟩ := p.chunkMap_params
  rw [← hpay, ← hcount, ← ceilDiv_le_iff_le_mul map.params.blockCount_pos]
  constructor
  · intro h
    obtain ⟨block, hb, hfirst⟩ := map.exists_first
    rw [← hfirst]
    by_cases hs : block.size = 0
    · rw [hs]
      exact Nat.zero_le _
    · exact (sourceBlockCount_le_iff hsize _ _).mp (h block hb hs)
  · intro h block hb _
    exact (sourceBlockCount_le_iff hsize _ _).mpr ((ChunkMap.size_le hb).trans h)

theorem sourceBlocks_fit_reference :
    (∀ block ∈ Reference.chunkMap.blocks, block.size ≠ 0 →
      sourceBlockCount block.size Reference.params.symbolSize.toNat ≤ maxSourceBlocks) ↔
      Reference.params.payloadSize.toNat ≤ Reference.params.blockCount.toNat *
        (alignedSymbolSize Reference.params.symbolSize.toNat *
          (maxSourceSymbols * maxSourceBlocks)) :=
  sourceBlocks_fit_iff Reference.pipeline.params_valid Reference.pipeline.chunkMap_eq

/-- Four gibibytes in one block of symbols of 64 bytes. -/
def fourGibibytes : SessionParams where
  payloadSize := 4294967296
  blockCount := 1
  symbolSize := 64
  sourceSymbolsPerBlock := 67108864
  totalSymbolsPerBlock := 67108868
  raptorq := ⟨1, 1, 1⟩
  payloadDigest := zeros 32

theorem fourGibibytes_overflow : validateParams fourGibibytes = .ok () ∧
    ∃ map, chunkMapFor fourGibibytes = .ok map ∧ ∃ block ∈ map.blocks, block.size ≠ 0 ∧
      maxSourceBlocks < sourceBlockCount block.size fourGibibytes.symbolSize.toNat :=
  ⟨rfl, ⟨⟨4294967296, 1, 64, by decide, by decide, by decide⟩, _, rfl⟩, rfl, _,
    List.mem_cons_self, by decide +kernel, by decide +kernel⟩

end Dhow
