import Dhow.Errors
import Dhow.Lib.Tiling
import Mathlib.Data.Nat.ModEq
import Mathlib.Algebra.Order.Floor.Div

/-!
# Chunking

The division of a payload into source blocks (`chunker.rs`). A `ChunkParams` and a `ChunkMap`
carry the bounds and the layout they were checked against, so the layout's arithmetic is proved
once: the blocks tile the payload, and reassembling the extracted blocks gives it back.
-/

namespace Dhow
open Bytes

def maxPayloadSize : ℕ := 4 * 1024 * 1024 * 1024
def minSymbolSize : ℕ := 1
def maxSymbolSize : ℕ := 65535
def minBlockCount : ℕ := 1
def maxBlockCount : ℕ := 1024

structure ChunkParams where
  payloadSize : ℕ
  blockCount : ℕ
  symbolSize : ℕ
  payloadSize_le : payloadSize ≤ maxPayloadSize
  blockCount_mem : minBlockCount ≤ blockCount ∧ blockCount ≤ maxBlockCount
  symbolSize_mem : minSymbolSize ≤ symbolSize ∧ symbolSize ≤ maxSymbolSize
  deriving DecidableEq

def ChunkParams.new (payloadSize blockCount symbolSize : ℕ) : Except ChunkError ChunkParams :=
  if hs : maxPayloadSize < payloadSize then
    .error (.payloadTooLarge payloadSize maxPayloadSize)
  else if hb : minBlockCount ≤ blockCount ∧ blockCount ≤ maxBlockCount then
    if hn : minSymbolSize ≤ symbolSize ∧ symbolSize ≤ maxSymbolSize then
      .ok ⟨payloadSize, blockCount, symbolSize, Nat.le_of_not_lt hs, hb, hn⟩
    else .error (.invalidSymbolSize symbolSize)
  else .error (.invalidBlockCount blockCount)

structure BlockInfo where
  index : ℕ
  start : ℕ
  size : ℕ
  symbolCount : ℕ
  deriving DecidableEq

structure SymbolInfo where
  index : ℕ
  start : ℕ
  size : ℕ
  padded : Bool
  deriving DecidableEq

/-- The size of block `i`: the first `S mod B` blocks take the larger share. -/
def ChunkParams.blockSize (params : ChunkParams) (i : ℕ) : ℕ :=
  let remainder := params.payloadSize % params.blockCount
  let largeSize := params.payloadSize ⌈/⌉ params.blockCount
  let smallSize := params.payloadSize / params.blockCount
  if i < remainder then largeSize else smallSize

/-- The number of symbols a block of `size` bytes takes. -/
def ChunkParams.symbolCount (params : ChunkParams) (size : ℕ) : ℕ :=
  if size = 0 then 0 else size ⌈/⌉ params.symbolSize

/-- The loop of `compute_blocks` from block `i` at `offset`, with `left` blocks to go. -/
def computeBlocksFrom (params : ChunkParams) : (left i offset : ℕ) →
    Except ChunkError (List BlockInfo)
  | 0, _, _ => .ok []
  | left + 1, i, offset =>
    let size := params.blockSize i
    let symbolCount := params.symbolCount size
    if 2 ^ 32 - 1 < symbolCount then .error (.invalidSymbolSize params.symbolSize)
    else
      match computeBlocksFrom params left (i + 1) (offset + size) with
      | .error e => .error e
      | .ok rest => .ok (⟨i, offset, size, symbolCount⟩ :: rest)

def computeBlocks (params : ChunkParams) : Except ChunkError (List BlockInfo) :=
  computeBlocksFrom params params.blockCount 0 0

/-- A chunk map is the layout its parameters compute. -/
structure ChunkMap where
  params : ChunkParams
  blocks : List BlockInfo
  blocks_eq : computeBlocks params = .ok blocks

namespace ChunkMap

def new (params : ChunkParams) : Except ChunkError ChunkMap :=
  match h : computeBlocks params with
  | .error e => .error e
  | .ok blocks => .ok ⟨params, blocks, h⟩

def blockCount (map : ChunkMap) : ℕ := map.blocks.length

def blockInfo (map : ChunkMap) (index : ℕ) : Except ChunkError BlockInfo :=
  match map.blocks[index]? with
  | none => .error (.blockIndexOutOfRange index map.blockCount)
  | some block => .ok block

/-- Only the last symbol of a block can hold less than `symbolSize` bytes. -/
def symbolInfo (map : ChunkMap) (blockIndex symbolIndex : ℕ) : Except ChunkError SymbolInfo :=
  match map.blockInfo blockIndex with
  | .error e => .error e
  | .ok block =>
    if block.symbolCount ≤ symbolIndex then
      .error (.symbolIndexOutOfRange symbolIndex block.symbolCount)
    else
      let n := map.params.symbolSize
      let size :=
        if block.size % n ≠ 0 ∧ symbolIndex = block.symbolCount - 1 then block.size % n else n
      .ok ⟨symbolIndex, symbolIndex * n, size, decide (size < n)⟩

def extractBlock (map : ChunkMap) (payload : Str) (blockIndex : ℕ) : Except ChunkError Str :=
  match map.blockInfo blockIndex with
  | .error e => .error e
  | .ok block =>
    let stop := block.start + block.size
    if payload.length < stop then .error (.truncated stop payload.length)
    else .ok (slice payload block.start block.size)

/-- The bytes of a symbol, with zeros up to `symbolSize`. -/
def extractSymbol (map : ChunkMap) (blockPayload : Str) (blockIndex symbolIndex : ℕ) :
    Except ChunkError Str :=
  match map.symbolInfo blockIndex symbolIndex with
  | .error e => .error e
  | .ok info =>
    let stop := info.start + info.size
    if blockPayload.length < stop then .error (.truncated stop blockPayload.length)
    else
      .ok (slice blockPayload info.start info.size ++
        List.replicate (map.params.symbolSize - info.size) 0)

/-- The loop of `reassemble`: each block gives exactly its declared size. -/
def reassembleFrom : List BlockInfo → List Str → Except ChunkError Str
  | info :: infos, block :: blocks =>
    if block.length < info.size then .error (.truncated info.size block.length)
    else
      match reassembleFrom infos blocks with
      | .error e => .error e
      | .ok payload => .ok (block.take info.size ++ payload)
  | _, _ => .ok []

def reassemble (map : ChunkMap) (blocks : List Str) : Except ChunkError Str :=
  if blocks.length ≠ map.blockCount then
    .error (.blockIndexOutOfRange (blocks.length % 2 ^ 32) map.blockCount)
  else reassembleFrom map.blocks blocks

end ChunkMap

/-! ### The layout -/

/-- Bytes in the first `i` blocks. -/
def ChunkParams.blockStart (params : ChunkParams) (i : ℕ) : ℕ :=
  i * (params.payloadSize / params.blockCount) + min i (params.payloadSize % params.blockCount)

lemma ChunkParams.blockCount_pos (params : ChunkParams) : 0 < params.blockCount :=
  params.blockCount_mem.1

lemma ceilDiv_eq_div_add {a b : ℕ} (hb : 0 < b) :
    a ⌈/⌉ b = a / b + if a % b = 0 then 0 else 1 := by
  have hdiv := Nat.div_add_mod a b
  set q := a / b
  set r := a % b
  have hr : r < b := Nat.mod_lt _ hb
  rw [Nat.ceilDiv_eq_add_pred_div, ← hdiv]
  split
  · have he : b * q + r + b - 1 = b - 1 + b * q := by omega
    rw [he, Nat.add_mul_div_left _ _ hb, Nat.div_eq_of_lt (by omega)]
    omega
  · have he : b * q + r + b - 1 = (r - 1) + b * (q + 1) := by
      rw [Nat.mul_add, Nat.mul_one]
      omega
    rw [he, Nat.add_mul_div_left _ _ hb, Nat.div_eq_of_lt (by omega)]
    omega

lemma ChunkParams.blockStart_succ (params : ChunkParams) (i : ℕ) :
    params.blockStart (i + 1) = params.blockStart i + params.blockSize i := by
  simp only [blockStart, blockSize, ceilDiv_eq_div_add params.blockCount_pos, Nat.add_mul,
    Nat.one_mul]
  by_cases hi : i < params.payloadSize % params.blockCount
  · rw [if_pos hi, if_neg (by omega)]
    omega
  · rw [if_neg hi]
    omega

lemma ChunkParams.blockStart_blockCount (params : ChunkParams) :
    params.blockStart params.blockCount = params.payloadSize := by
  have hr := Nat.mod_lt params.payloadSize params.blockCount_pos
  rw [blockStart, Nat.min_eq_right hr.le]
  exact Nat.div_add_mod _ _

lemma ChunkParams.blockStart_mono (params : ChunkParams) : Monotone params.blockStart := by
  refine monotone_nat_of_le_succ fun i => ?_
  rw [params.blockStart_succ]
  exact Nat.le_add_right _ _

/-- Block `i` of the layout. -/
def ChunkParams.blockAt (params : ChunkParams) (i : ℕ) : BlockInfo :=
  ⟨i, params.blockStart i, params.blockSize i, params.symbolCount (params.blockSize i)⟩

lemma computeBlocksFrom_spec {params : ChunkParams} {left i : ℕ} {blocks : List BlockInfo}
    (h : computeBlocksFrom params left i (params.blockStart i) = .ok blocks) :
    blocks.length = left ∧ ∀ j < left, blocks[j]? = some (params.blockAt (i + j)) := by
  induction left generalizing i blocks with
  | zero =>
    cases h
    exact ⟨rfl, fun j hj => absurd hj (Nat.not_lt_zero j)⟩
  | succ left ih =>
    simp only [computeBlocksFrom] at h
    split at h
    · cases h
    · rw [← params.blockStart_succ] at h
      cases hrest : computeBlocksFrom params left (i + 1) (params.blockStart (i + 1)) with
      | error e => simp [hrest] at h
      | ok rest =>
        simp only [hrest, Except.ok.injEq] at h
        obtain ⟨hlen, hget⟩ := ih hrest
        subst h
        refine ⟨by simp [hlen], fun j hj => ?_⟩
        cases j with
        | zero => rfl
        | succ j =>
          rw [List.getElem?_cons_succ, hget j (by omega)]
          simp only [Nat.add_assoc, Nat.add_comm 1 j]

lemma ChunkParams.new_eq_ok {payloadSize blockCount symbolSize : ℕ} {params : ChunkParams}
    (h : new payloadSize blockCount symbolSize = .ok params) :
    params.payloadSize = payloadSize ∧ params.blockCount = blockCount ∧
      params.symbolSize = symbolSize := by
  unfold new at h
  split_ifs at h
  cases h
  exact ⟨rfl, rfl, rfl⟩

namespace ChunkMap

lemma new_eq_ok {params : ChunkParams} {map : ChunkMap} (h : new params = .ok map) :
    map.params = params := by
  unfold new at h
  split at h
  · cases h
  · cases h
    rfl

variable (map : ChunkMap)

lemma computeBlocksFrom_eq :
    computeBlocksFrom map.params map.params.blockCount 0 (map.params.blockStart 0) =
      .ok map.blocks := by
  have h0 : map.params.blockStart 0 = 0 := by simp [ChunkParams.blockStart]
  rw [h0]
  exact map.blocks_eq

lemma length_blocks : map.blocks.length = map.params.blockCount :=
  (computeBlocksFrom_spec map.computeBlocksFrom_eq).1

/-- The layout, block by block. -/
lemma blocks_getElem? {i : ℕ} (hi : i < map.blocks.length) :
    map.blocks[i]? = some (map.params.blockAt i) := by
  rw [map.length_blocks] at hi
  simpa using (computeBlocksFrom_spec map.computeBlocksFrom_eq).2 i hi

lemma eq_blockAt {i : ℕ} {block : BlockInfo} (h : map.blocks[i]? = some block) :
    block = map.params.blockAt i := by
  obtain ⟨hi, -⟩ := List.getElem?_eq_some_iff.mp h
  rwa [map.blocks_getElem? hi, Option.some.injEq, eq_comm] at h

/-! ### Extraction and reassembly -/

lemma blockInfo_of_getElem? {i : ℕ} {block : BlockInfo} (h : map.blocks[i]? = some block) :
    map.blockInfo i = .ok block := by
  rw [blockInfo, h]

/-- Every block of the layout lies in a payload of the declared size. -/
lemma block_end_le {i : ℕ} {block : BlockInfo} (h : map.blocks[i]? = some block) :
    block.start + block.size ≤ map.params.payloadSize := by
  obtain ⟨hi, -⟩ := List.getElem?_eq_some_iff.mp h
  rw [map.eq_blockAt h, ← map.params.blockStart_blockCount]
  simp only [ChunkParams.blockAt]
  rw [← map.params.blockStart_succ]
  exact map.params.blockStart_mono (by rw [← map.length_blocks]; omega)

/-- The bytes of one block of a payload. -/
def blockBytes (payload : Str) (block : BlockInfo) : Str := slice payload block.start block.size

lemma extractBlock_eq {payload : Str} (hp : payload.length = map.params.payloadSize) {i : ℕ}
    {block : BlockInfo} (h : map.blocks[i]? = some block) :
    map.extractBlock payload i = .ok (blockBytes payload block) := by
  have hend := map.block_end_le h
  simp only [extractBlock, map.blockInfo_of_getElem? h]
  rw [if_neg (by omega), blockBytes]

lemma length_blockBytes {payload : Str} (hp : payload.length = map.params.payloadSize)
    {block : BlockInfo} (h : block ∈ map.blocks) :
    (blockBytes payload block).length = block.size := by
  obtain ⟨i, hi⟩ := List.mem_iff_getElem?.mp h
  have hend := map.block_end_le hi
  exact length_slice_of_le (by omega)

lemma reassembleFrom_eq {infos : List BlockInfo} {blocks : List Str}
    (h : infos.map BlockInfo.size = blocks.map List.length) :
    reassembleFrom infos blocks = .ok blocks.flatten := by
  induction infos generalizing blocks with
  | nil =>
    obtain rfl : blocks = [] := by simpa using h.symm
    rfl
  | cons info infos ih =>
    cases blocks with
    | nil => simp at h
    | cons block blocks =>
      simp only [List.map_cons, List.cons.injEq] at h
      simp only [reassembleFrom, h.1, lt_irrefl, if_false, ih h.2, List.take_length,
        List.flatten_cons]

lemma blocks_eq_map : map.blocks = (List.range map.params.blockCount).map map.params.blockAt := by
  apply List.ext_getElem?
  intro i
  by_cases hi : i < map.blocks.length
  · have hb : i < map.params.blockCount := by rwa [map.length_blocks] at hi
    rw [map.blocks_getElem? hi, List.getElem?_map, List.getElem?_range hb, Option.map_some]
  · have hb : map.params.blockCount ≤ i := by
      rw [map.length_blocks] at hi
      omega
    rw [List.getElem?_eq_none (Nat.le_of_not_lt hi), List.getElem?_eq_none (by simpa using hb)]

/-- The blocks tile the payload. -/
lemma tiles_blocks :
    Tiles (map.blocks.map fun block => (block.start, block.size)) 0 map.params.payloadSize := by
  have h := Tiles.of_steps map.params.blockStart map.params.blockSize map.params.blockCount
    fun i _ => map.params.blockStart_succ i
  have h0 : map.params.blockStart 0 = 0 := by simp [ChunkParams.blockStart]
  rw [h0, map.params.blockStart_blockCount] at h
  rw [map.blocks_eq_map, List.map_map]
  exact h

lemma flatten_blockBytes {payload : Str} (hp : payload.length = map.params.payloadSize) :
    (map.blocks.map (blockBytes payload)).flatten = payload := by
  have h := map.tiles_blocks.flatten_slice payload
  rw [List.map_map, Nat.sub_zero, ← hp, slice_zero_length] at h
  exact h

/-- Reassembling the extracted blocks gives the payload back. -/
theorem reassemble_blockBytes {payload : Str} (hp : payload.length = map.params.payloadSize) :
    map.reassemble (map.blocks.map (blockBytes payload)) = .ok payload := by
  have hlen : map.blocks.map BlockInfo.size =
      (map.blocks.map (blockBytes payload)).map List.length := by
    rw [List.map_map]
    exact List.map_congr_left fun b hb => (map.length_blockBytes hp hb).symm
  rw [reassemble, if_neg (by simp [blockCount]), reassembleFrom_eq hlen,
    map.flatten_blockBytes hp]

end ChunkMap
end Dhow
