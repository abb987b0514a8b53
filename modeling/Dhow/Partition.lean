import Dhow.Chunker
import Dhow.Lib.Except

/-!
# Chunking partitions the payload

The layout of a chunk map and the operations that cut a payload along it: the blocks tile the
payload, the symbols of a block tile the block, and cutting, padding and reassembling lose
nothing.
-/

namespace Dhow
open Bytes

/-- What a chunk map promises of a payload of its size. -/
structure ChunkMap.Partitions (map : ChunkMap) (payload : Str) : Prop where
  /-- No sum of the layout leaves `u64`, no index or count leaves `u32`. -/
  fits : ∀ block : BlockInfo, block ∈ map.blocks → block.start + block.size ≤ maxPayloadSize ∧
    block.index < maxBlockCount ∧ block.symbolCount < 2 ^ 32
  index_eq : ∀ i (block : BlockInfo), map.blocks[i]? = some block → block.index = i
  tiles : Tiles (map.blocks.map fun block : BlockInfo => (block.start, block.size)) 0 payload.length
  larger_first : map.blocks.Pairwise fun a b : BlockInfo => b.size ≤ a.size ∧ a.size ≤ b.size + 1
  symbols : ∀ i (block : BlockInfo), map.blocks[i]? = some block →
    ∃ infos, (List.range block.symbolCount).mapM (map.symbolInfo i) = .ok infos ∧
      Tiles (infos.map fun info : SymbolInfo => (info.start, info.size)) 0 block.size ∧
      ∀ j (info : SymbolInfo), infos[j]? = some info → info.index = j ∧ 0 < info.size ∧
        info.size ≤ map.params.symbolSize ∧
        (info.size < map.params.symbolSize → j + 1 = block.symbolCount) ∧
        (info.padded = true ↔ info.size < map.params.symbolSize)
  extract : ∀ i (block : BlockInfo), map.blocks[i]? = some block →
    ∃ bytes symbols, map.extractBlock payload i = .ok bytes ∧
      (List.range block.symbolCount).mapM (map.extractSymbol bytes i) = .ok symbols ∧
      (∀ symbol ∈ symbols, symbol.length = map.params.symbolSize) ∧
      symbols.flatten.take block.size = bytes
  reassembles : ∃ blocks,
    (List.range map.params.blockCount).mapM (map.extractBlock payload) = .ok blocks ∧
      map.reassemble blocks = .ok payload
  reassemble_eq : ∀ (blocks : List Str) out, map.reassemble blocks = .ok out →
    out = (List.zipWith (fun (info : BlockInfo) (block : Str) => block.take info.size)
      map.blocks blocks).flatten
  reassemble_error_iff : ∀ blocks : List Str, (∃ e, map.reassemble blocks = .error e) ↔
    blocks.length ≠ map.params.blockCount ∨
      ∃ i : ℕ, ∃ info : BlockInfo, ∃ block : Str, map.blocks[i]? = some info ∧
        blocks[i]? = some block ∧ block.length < info.size

namespace ChunkMap
variable (map : ChunkMap)

lemma symbolSize_pos : 0 < map.params.symbolSize := map.params.symbolSize_mem.1

/-! ### Symbols of a block -/

/-- The bytes symbol `j` of a block of `size` bytes holds. -/
def symbolLength (size j : ℕ) : ℕ :=
  if size % map.params.symbolSize ≠ 0 ∧ j = map.params.symbolCount size - 1 then
    size % map.params.symbolSize
  else map.params.symbolSize

lemma symbolCount_eq (size : ℕ) : map.params.symbolCount size =
    size / map.params.symbolSize + if size % map.params.symbolSize = 0 then 0 else 1 := by
  unfold ChunkParams.symbolCount
  split
  next h => simp [h]
  next h => exact ceilDiv_eq_div_add map.symbolSize_pos

/-- The symbols of a block end where the bytes of the block do. -/
lemma min_succ_mul (size j : ℕ) (hj : j < map.params.symbolCount size) :
    min ((j + 1) * map.params.symbolSize) size =
      j * map.params.symbolSize + map.symbolLength size j := by
  have hdiv := Nat.div_add_mod size map.params.symbolSize
  have hmod := Nat.mod_lt size map.symbolSize_pos
  rw [map.symbolCount_eq] at hj
  unfold symbolLength
  rw [map.symbolCount_eq]
  set n := map.params.symbolSize
  set q := size / n
  set r := size % n
  rw [Nat.mul_comm n q] at hdiv
  split_ifs at hj ⊢ with hr hlast hlast
  · exact absurd hr hlast.1
  · have hle : (j + 1) * n ≤ q * n := Nat.mul_le_mul_right n (by omega)
    rw [Nat.min_eq_left (by omega), Nat.add_mul, Nat.one_mul]
  · have hjq : j = q := by omega
    rw [hjq, Nat.min_eq_right (by rw [Nat.add_mul]; omega)]
    omega
  · have hle : (j + 1) * n ≤ q * n := Nat.mul_le_mul_right n (by
      by_contra hgt
      exact hlast ⟨hr, by omega⟩)
    rw [Nat.min_eq_left (by omega), Nat.add_mul, Nat.one_mul]

lemma mul_lt_of_lt_symbolCount {size j : ℕ} (hj : j < map.params.symbolCount size) :
    j * map.params.symbolSize < size := by
  have hdiv := Nat.div_add_mod size map.params.symbolSize
  rw [map.symbolCount_eq] at hj
  set n := map.params.symbolSize with hn
  have hpos : 0 < n := map.symbolSize_pos
  rw [Nat.mul_comm] at hdiv
  split_ifs at hj with hr
  · have hle : (j + 1) * n ≤ size / n * n := Nat.mul_le_mul_right n (by omega)
    rw [Nat.add_mul] at hle
    omega
  · have hle : j * n ≤ size / n * n := Nat.mul_le_mul_right n (by omega)
    omega

lemma le_symbolCount_mul (size : ℕ) :
    size ≤ map.params.symbolCount size * map.params.symbolSize := by
  have hdiv := Nat.div_add_mod size map.params.symbolSize
  have hmod := Nat.mod_lt size map.symbolSize_pos
  rw [map.symbolCount_eq, Nat.add_mul]
  rw [Nat.mul_comm] at hdiv
  split <;> omega

/-- The symbols tile the block. -/
lemma tiles_symbols (size : ℕ) :
    Tiles ((List.range (map.params.symbolCount size)).map fun j =>
      (j * map.params.symbolSize, map.symbolLength size j)) 0 size := by
  have hstep : ∀ j < map.params.symbolCount size,
      min ((j + 1) * map.params.symbolSize) size =
        min (j * map.params.symbolSize) size + map.symbolLength size j := by
    intro j hj
    rw [map.min_succ_mul size j hj, Nat.min_eq_left (map.mul_lt_of_lt_symbolCount hj).le]
  have h := Tiles.of_steps (fun j => min (j * map.params.symbolSize) size)
    (map.symbolLength size) (map.params.symbolCount size) hstep
  rw [Nat.zero_mul, Nat.zero_min, Nat.min_eq_right (map.le_symbolCount_mul size)] at h
  convert h using 1
  apply List.map_congr_left
  intro j hj
  rw [Nat.min_eq_left (map.mul_lt_of_lt_symbolCount (List.mem_range.mp hj)).le]

lemma symbolLength_le (size j : ℕ) : map.symbolLength size j ≤ map.params.symbolSize := by
  unfold symbolLength
  split
  · exact (Nat.mod_lt _ map.symbolSize_pos).le
  · exact le_rfl

lemma symbolLength_pos (size j : ℕ) : 0 < map.symbolLength size j := by
  unfold symbolLength
  split
  next h => exact Nat.pos_of_ne_zero h.1
  · exact map.symbolSize_pos

/-- The information `symbolInfo` gives of symbol `j` of a block of `size` bytes. -/
def symbolAt (size j : ℕ) : SymbolInfo :=
  ⟨j, j * map.params.symbolSize, map.symbolLength size j,
    decide (map.symbolLength size j < map.params.symbolSize)⟩

variable {map}

lemma symbolInfo_eq {i j : ℕ} {block : BlockInfo} (hi : map.blocks[i]? = some block)
    (hj : j < block.symbolCount) : map.symbolInfo i j = .ok (map.symbolAt block.size j) := by
  have hcount : block.symbolCount = map.params.symbolCount block.size := by
    rw [map.eq_blockAt hi]
    rfl
  simp only [symbolInfo, map.blockInfo_of_getElem? hi]
  rw [if_neg (Nat.not_le.mpr hj), symbolAt, symbolLength, hcount]

/-- The bytes of symbol `j` of a block, with zeros up to the symbol size. -/
def paddedSymbol (map : ChunkMap) (bytes : Str) (j : ℕ) : Str :=
  slice bytes (j * map.params.symbolSize) (map.symbolLength bytes.length j) ++
    List.replicate (map.params.symbolSize - map.symbolLength bytes.length j) 0

lemma length_paddedSymbol {bytes : Str} {j : ℕ} (hj : j < map.params.symbolCount bytes.length) :
    (map.paddedSymbol bytes j).length = map.params.symbolSize := by
  have hend := map.min_succ_mul bytes.length j hj
  have hle := map.symbolLength_le bytes.length j
  rw [paddedSymbol, List.length_append, length_slice_of_le (by omega), List.length_replicate]
  omega

lemma extractSymbol_eq {i j : ℕ} {block : BlockInfo} (hi : map.blocks[i]? = some block)
    {bytes : Str} (hlen : bytes.length = block.size) (hj : j < block.symbolCount) :
    map.extractSymbol bytes i j = .ok (map.paddedSymbol bytes j) := by
  have hcount : block.symbolCount = map.params.symbolCount block.size := by
    rw [map.eq_blockAt hi]
    rfl
  have hend := map.min_succ_mul block.size j (by rwa [← hcount])
  simp only [extractSymbol, symbolInfo_eq hi hj, symbolAt]
  rw [if_neg (by omega), paddedSymbol, hlen]

lemma symbolLength_eq {size j : ℕ} (hj : j + 1 < map.params.symbolCount size) :
    map.symbolLength size j = map.params.symbolSize := by
  rw [symbolLength, if_neg]
  rintro ⟨-, hlast⟩
  omega

/-- The padding of a block's symbols lies behind its bytes. -/
lemma take_flatten_paddedSymbol (map : ChunkMap) (bytes : Str) :
    (((List.range (map.params.symbolCount bytes.length)).map (map.paddedSymbol bytes)).flatten).take
      bytes.length = bytes := by
  have htiles : ((List.range (map.params.symbolCount bytes.length)).map fun j =>
      slice bytes (j * map.params.symbolSize) (map.symbolLength bytes.length j)).flatten =
        bytes := by
    have h := (map.tiles_symbols bytes.length).flatten_slice bytes
    rw [List.map_map, Nat.sub_zero, slice_zero_length] at h
    exact h
  cases hc : map.params.symbolCount bytes.length with
  | zero =>
    have hle := map.le_symbolCount_mul bytes.length
    rw [hc, Nat.zero_mul, Nat.le_zero, List.length_eq_zero_iff] at hle
    simp [hle]
  | succ k =>
    -- all symbols but the last are full
    have hfull : (List.range k).map (map.paddedSymbol bytes) = (List.range k).map
        fun j => slice bytes (j * map.params.symbolSize) (map.symbolLength bytes.length j) := by
      apply List.map_congr_left
      intro j hj
      have hj := List.mem_range.mp hj
      rw [paddedSymbol, symbolLength_eq (by omega), Nat.sub_self, List.replicate_zero,
        List.append_nil]
    rw [hc, List.range_succ, List.map_append, List.flatten_append, List.map_singleton,
      List.flatten_singleton] at htiles
    rw [List.range_succ, List.map_append, List.flatten_append, hfull, List.map_singleton,
      List.flatten_singleton, paddedSymbol, ← List.append_assoc, htiles]
    exact List.take_left

/-! ### Sizes of blocks -/

lemma blockSize_bounds (params : ChunkParams) {i j : ℕ} (h : i ≤ j) :
    params.blockSize j ≤ params.blockSize i ∧ params.blockSize i ≤ params.blockSize j + 1 := by
  simp only [ChunkParams.blockSize, ceilDiv_eq_div_add params.blockCount_pos]
  split_ifs <;> omega

lemma symbolCount_lt {i left offset : ℕ} {params : ChunkParams} {blocks : List BlockInfo}
    (h : computeBlocksFrom params left i offset = .ok blocks) :
    ∀ block ∈ blocks, block.symbolCount < 2 ^ 32 := by
  induction left generalizing i offset blocks with
  | zero =>
    cases h
    simp
  | succ left ih =>
    simp only [computeBlocksFrom] at h
    split at h
    · cases h
    next hcount =>
      cases hrest : computeBlocksFrom params left (i + 1) (offset + params.blockSize i) with
      | error e => simp [hrest] at h
      | ok rest =>
        simp only [hrest, Except.ok.injEq] at h
        subst h
        intro block hb
        rcases List.mem_cons.mp hb with rfl | hb
        · exact Nat.lt_of_le_pred (by decide) (Nat.le_of_not_lt hcount)
        · exact ih hrest block hb

/-! ### Reassembly -/

lemma reassembleFrom_eq_ok {infos : List BlockInfo} {blocks : List Str} {out : Str}
    (h : reassembleFrom infos blocks = .ok out) :
    out = (List.zipWith (fun info block => block.take info.size) infos blocks).flatten := by
  induction infos generalizing blocks out with
  | nil =>
    cases h
    rfl
  | cons info infos ih =>
    cases blocks with
    | nil =>
      cases h
      rfl
    | cons block blocks =>
      rw [reassembleFrom] at h
      split at h
      · cases h
      · cases hrest : reassembleFrom infos blocks with
        | error e => simp [hrest] at h
        | ok rest =>
          simp only [hrest, Except.ok.injEq] at h
          rw [← h, ih hrest]
          rfl

lemma reassembleFrom_error_iff {infos : List BlockInfo} {blocks : List Str} :
    (∃ e, reassembleFrom infos blocks = .error e) ↔
      ∃ i : ℕ, ∃ info : BlockInfo, ∃ block : Str, infos[i]? = some info ∧ blocks[i]? = some block ∧
        block.length < info.size := by
  induction infos generalizing blocks with
  | nil => simp [reassembleFrom]
  | cons info infos ih =>
    cases blocks with
    | nil => simp [reassembleFrom]
    | cons block blocks =>
      by_cases hshort : block.length < info.size
      · simp only [reassembleFrom, if_pos hshort]
        exact ⟨fun _ => ⟨0, info, block, rfl, rfl, hshort⟩, fun _ => ⟨_, rfl⟩⟩
      · have hstep : (∃ e, reassembleFrom (info :: infos) (block :: blocks) = .error e) ↔
            ∃ e, reassembleFrom infos blocks = .error e := by
          rw [reassembleFrom, if_neg hshort]
          cases reassembleFrom infos blocks <;> simp
        rw [hstep, ih]
        constructor
        · rintro ⟨i, a, b, ha, hb, hlt⟩
          exact ⟨i + 1, a, b, ha, hb, hlt⟩
        · rintro ⟨i, a, b, ha, hb, hlt⟩
          cases i with
          | zero =>
            simp only [List.getElem?_cons_zero, Option.some.injEq] at ha hb
            subst ha hb
            exact absurd hlt hshort
          | succ i => exact ⟨i, a, b, ha, hb, hlt⟩

/-! ### The parts of the partition -/

variable (map)

lemma symbolCount_of_getElem? {i : ℕ} {block : BlockInfo} (hi : map.blocks[i]? = some block) :
    block.symbolCount = map.params.symbolCount block.size := by
  rw [map.eq_blockAt hi]
  rfl

lemma mapM_symbolInfo {i : ℕ} {block : BlockInfo} (hi : map.blocks[i]? = some block) :
    (List.range block.symbolCount).mapM (map.symbolInfo i) =
      .ok ((List.range block.symbolCount).map (map.symbolAt block.size)) := by
  rw [Except.mapM_eq_ok_iff, List.forall₂_map_right_iff]
  exact List.forall₂_same.mpr fun j hj => symbolInfo_eq hi (List.mem_range.mp hj)

lemma symbolAt_spec {i : ℕ} {block : BlockInfo} (hi : map.blocks[i]? = some block) {j : ℕ}
    {info : SymbolInfo}
    (hj : ((List.range block.symbolCount).map (map.symbolAt block.size))[j]? = some info) :
    info.index = j ∧ 0 < info.size ∧ info.size ≤ map.params.symbolSize ∧
      (info.size < map.params.symbolSize → j + 1 = block.symbolCount) ∧
      (info.padded = true ↔ info.size < map.params.symbolSize) := by
  rw [List.getElem?_map, Option.map_eq_some_iff] at hj
  obtain ⟨k, hk, rfl⟩ := hj
  obtain ⟨hlt, rfl⟩ := List.getElem?_eq_some_iff.mp hk
  rw [List.length_range] at hlt
  rw [List.getElem_range]
  refine ⟨rfl, map.symbolLength_pos _ _, map.symbolLength_le _ _, ?_, decide_eq_true_iff⟩
  intro hshort
  by_contra hne
  have hnext : j + 1 < map.params.symbolCount block.size := by
    rw [← map.symbolCount_of_getElem? hi]
    omega
  exact hshort.ne (symbolLength_eq hnext)

lemma mapM_extractSymbol {i : ℕ} {block : BlockInfo} (hi : map.blocks[i]? = some block)
    {bytes : Str} (hlen : bytes.length = block.size) :
    (List.range block.symbolCount).mapM (map.extractSymbol bytes i) =
      .ok ((List.range block.symbolCount).map (map.paddedSymbol bytes)) := by
  rw [Except.mapM_eq_ok_iff, List.forall₂_map_right_iff]
  exact List.forall₂_same.mpr fun j hj => extractSymbol_eq hi hlen (List.mem_range.mp hj)

lemma mapM_extractBlock {payload : Str} (hp : payload.length = map.params.payloadSize) :
    (List.range map.params.blockCount).mapM (map.extractBlock payload) =
      .ok (map.blocks.map (blockBytes payload)) := by
  rw [Except.mapM_eq_ok_iff, map.blocks_eq_map, List.map_map, List.forall₂_map_right_iff]
  refine List.forall₂_same.mpr fun i hi => ?_
  have hlt : i < map.blocks.length := by
    rw [map.length_blocks]
    exact List.mem_range.mp hi
  exact map.extractBlock_eq hp (map.blocks_getElem? hlt)

lemma reassemble_eq_ok {blocks : List Str} {out : Str} (h : map.reassemble blocks = .ok out) :
    out = (List.zipWith (fun info block => block.take info.size) map.blocks blocks).flatten := by
  rw [reassemble] at h
  split at h
  · cases h
  · exact reassembleFrom_eq_ok h

lemma reassemble_error_iff (blocks : List Str) : (∃ e, map.reassemble blocks = .error e) ↔
    blocks.length ≠ map.params.blockCount ∨
      ∃ i : ℕ, ∃ info : BlockInfo, ∃ block : Str, map.blocks[i]? = some info ∧
        blocks[i]? = some block ∧ block.length < info.size := by
  rw [reassemble, ChunkMap.blockCount, map.length_blocks]
  by_cases hcount : blocks.length = map.params.blockCount
  · rw [if_neg (not_not.mpr hcount), reassembleFrom_error_iff]
    exact ⟨.inr, fun h => h.resolve_left (not_not.mpr hcount)⟩
  · rw [if_pos hcount]
    exact ⟨fun _ => .inl hcount, fun _ => ⟨_, rfl⟩⟩

lemma fits_of_mem {block : BlockInfo} (hb : block ∈ map.blocks) :
    block.start + block.size ≤ maxPayloadSize ∧ block.index < maxBlockCount ∧
      block.symbolCount < 2 ^ 32 := by
  obtain ⟨i, hi⟩ := List.mem_iff_getElem?.mp hb
  obtain ⟨hlt, -⟩ := List.getElem?_eq_some_iff.mp hi
  refine ⟨(map.block_end_le hi).trans map.params.payloadSize_le, ?_,
    symbolCount_lt map.blocks_eq block hb⟩
  rw [map.length_blocks] at hlt
  rw [map.eq_blockAt hi]
  exact hlt.trans_le map.params.blockCount_mem.2

/-- Blocks reassemble to a payload of the declared size. -/
lemma length_of_reassemble {blocks : List Str} {out : Str} (h : map.reassemble blocks = .ok out) :
    out.length = map.params.payloadSize := by
  have hcount : blocks.length = map.blockCount := by
    by_contra hne
    rw [reassemble, if_pos hne] at h
    cases h
  have hlong : ∀ (i : ℕ) (info : BlockInfo) (block : Str), map.blocks[i]? = some info →
      blocks[i]? = some block → info.size ≤ block.length := by
    intro i info block hinfo hblock
    by_contra hlt
    obtain ⟨e, he⟩ := (map.reassemble_error_iff blocks).mpr
      (.inr ⟨i, info, block, hinfo, hblock, Nat.lt_of_not_le hlt⟩)
    rw [he] at h
    cases h
  have hzeros : (List.replicate map.params.payloadSize (0 : UInt8)).length =
      map.params.payloadSize := List.length_replicate
  have hsizes := congrArg List.length (map.flatten_blockBytes hzeros)
  rw [hzeros] at hsizes
  rw [map.reassemble_eq_ok h, ← hsizes, List.length_flatten, List.length_flatten]
  congr 1
  apply List.ext_getElem
  · simp [hcount, blockCount]
  · intro i hi hi'
    rw [List.length_map, List.length_map] at hi'
    have hi'' : i < blocks.length := hcount ▸ hi'
    have hle := hlong i _ _ (List.getElem?_eq_getElem hi') (List.getElem?_eq_getElem hi'')
    have hblock := map.length_blockBytes hzeros (List.getElem_mem hi')
    simp only [List.getElem_map, List.getElem_zipWith, List.length_take, hblock]
    exact Nat.min_eq_left hle

lemma larger_blocks_first :
    map.blocks.Pairwise fun a b => b.size ≤ a.size ∧ a.size ≤ b.size + 1 := by
  rw [map.blocks_eq_map]
  apply List.Pairwise.map _ _ List.pairwise_lt_range
  intro i j hij
  exact blockSize_bounds map.params hij.le

end ChunkMap

/-- Every accepted layout partitions every payload of its size. -/
theorem ChunkMap.partitions {payloadSize blockCount symbolSize : ℕ} {params : ChunkParams}
    {map : ChunkMap} (hparams : ChunkParams.new payloadSize blockCount symbolSize = .ok params)
    (hmap : ChunkMap.new params = .ok map) {payload : Str} (hp : payload.length = payloadSize) :
    map.Partitions payload := by
  obtain ⟨hsize, -, -⟩ := ChunkParams.new_eq_ok hparams
  rw [← hsize, ← new_eq_ok hmap] at hp
  refine ⟨fun _ => map.fits_of_mem, ?_, ?_, map.larger_blocks_first, ?_, ?_,
    ⟨_, map.mapM_extractBlock hp, map.reassemble_blockBytes hp⟩,
    fun _ _ => map.reassemble_eq_ok, map.reassemble_error_iff⟩
  · intro i block hi
    rw [map.eq_blockAt hi]
    rfl
  · rw [hp]
    exact map.tiles_blocks
  · intro i block hi
    refine ⟨_, map.mapM_symbolInfo hi, ?_, fun j info => map.symbolAt_spec hi⟩
    rw [List.map_map, map.symbolCount_of_getElem? hi]
    exact map.tiles_symbols block.size
  · intro i block hi
    have hlen := map.length_blockBytes hp (List.mem_of_getElem? hi)
    refine ⟨_, _, map.extractBlock_eq hp hi, map.mapM_extractSymbol hi hlen, ?_, ?_⟩
    · intro symbol hs
      obtain ⟨j, hj, rfl⟩ := List.mem_map.mp hs
      apply length_paddedSymbol
      rw [hlen, ← map.symbolCount_of_getElem? hi]
      exact List.mem_range.mp hj
    · have htake := map.take_flatten_paddedSymbol (blockBytes payload block)
      rwa [hlen, ← map.symbolCount_of_getElem? hi] at htake

/-- Five bytes in three blocks of symbols of two bytes. -/
theorem ChunkMap.partitions_five_bytes : ∃ params map,
    ChunkParams.new 5 3 2 = .ok params ∧ ChunkMap.new params = .ok map ∧
      map.Partitions [1, 2, 3, 4, 5] := by
  have hparams : ChunkParams.new 5 3 2 = .ok ⟨5, 3, 2, by decide, by decide, by decide⟩ := rfl
  have hmap : ChunkMap.new ⟨5, 3, 2, by decide, by decide, by decide⟩ = .ok ⟨_, _, rfl⟩ := rfl
  exact ⟨_, _, hparams, hmap, partitions hparams hmap rfl⟩

end Dhow
