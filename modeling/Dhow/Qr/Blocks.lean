import Dhow.Lib.Interleaving
import Dhow.Qr.Correct
import Dhow.Qr.Tables

/-!
# Blocks

The codewords come interleaved: a codeword of each block in turn. They are sorted into the blocks,
and each block is corrected.
-/

namespace Dhow.Qr
open Bytes Checked Interleaving

/-- The codeword that is next to come goes to place `i` of block `j`, or there is none: a short
block has a hole where the long ones have their last byte of data. -/
def placeCodeword (codewords : Str) (lay : Layout) (i j : ℕ) (s : ℕ × List Str) :
    Checked QrError (ℕ × List Str) :=
  if (i : ℤ) = lay.shortBlockDataLen ∧ (j : ℤ) < lay.numShortBlocks then .ok s
  else if s.1 ≥ codewords.length then fail .uncorrectable
  else do
    let c ← index codewords s.1
    let block ← index s.2 j
    let block ← store block i c
    let blocks ← store s.2 j block
    return (s.1 + 1, blocks)

/-- A block, without its hole, is corrected, and its data comes after that of the others. -/
def repairBlock (lay : Layout) (j : ℕ) (block data : Str) : Checked QrError Str := do
  let (codeword, dataLen) ← (if (j : ℤ) < lay.numShortBlocks then do
      let codeword ← makeEmpty lay.shortBlockLen
      let head ← slice block 0 lay.shortBlockDataLen
      let tail ← slice block (lay.shortBlockDataLen + 1) block.length
      return (codeword ++ head ++ tail, lay.shortBlockDataLen)
    else .ok (block, lay.shortBlockDataLen + 1) : Checked QrError (Str × ℤ))
  let codeword ← (correct codeword lay.eccLen).mapFail (.block j)
  let part ← slice codeword 0 dataLen
  return data ++ part

def deinterleaveAndCorrect (codewords : Str) (lay : Layout) : Checked QrError Str := do
  if codewords.length < lay.totalCodewords then fail .uncorrectable
  else
    let blocks ← make lay.numBlocks []
    let blocks ← repeatFor (fun i blocks => do
      let block ← make (lay.shortBlockLen + 1) 0
      store blocks i block) blocks blocks.length
    let (_, blocks) ← repeatFor (fun i s =>
      repeatFor (placeCodeword codewords lay i) s lay.numBlocks.toNat) (0, blocks)
      (lay.shortBlockLen + 1).toNat
    let data ← makeEmpty lay.dataCodewords
    forEach (fun p => repairBlock lay p.2 p.1) blocks.zipIdx data

namespace Shape
variable (s : Shape)

def blockLen (j : ℕ) : ℕ := s.dataLen j + s.eccLen

/-- The places of the codewords in the order they are sent in: the data of the blocks byte by byte,
then their error correction. -/
def order : List (ℕ × ℕ) :=
  byColumns s.numBlocks (s.shortDataLen + 1) s.dataLen ++
    (byColumns s.numBlocks s.eccLen fun _ => s.eccLen).map fun p => (p.1, s.dataLen p.1 + p.2)

/-- The codewords of block `j` among those that came. -/
def block (codewords : Str) (j : ℕ) : Str :=
  (List.range (s.blockLen j)).map fun i => codewords.getD (s.order.idxOf (j, i)) 0

def blocks (codewords : Str) : List Str := (List.range s.numBlocks).map (s.block codewords)

/-- The data of the blocks, one after the other. -/
def dataOf (words : List Str) : Str := (words.mapIdx fun j w => w.take (s.dataLen j)).flatten

variable {s}

lemma dataLen_le (j : ℕ) : s.dataLen j ≤ s.shortDataLen + 1 := by
  unfold dataLen
  split_ifs <;> omega

lemma le_dataLen (j : ℕ) : s.shortDataLen ≤ s.dataLen j := by
  unfold dataLen
  split_ifs <;> omega

lemma mem_order (p : ℕ × ℕ) : p ∈ s.order ↔ p.1 < s.numBlocks ∧ p.2 < s.blockLen p.1 := by
  obtain ⟨j, i⟩ := p
  have hle := s.dataLen_le j
  simp only [order, List.mem_append, mem_byColumns, List.mem_map, Prod.mk.injEq, blockLen]
  constructor
  · rintro (⟨hj, -, hi⟩ | ⟨⟨j', i'⟩, ⟨hj, -, hi⟩, rfl, rfl⟩)
    · exact ⟨hj, by omega⟩
    · exact ⟨hj, Nat.add_lt_add_left hi _⟩
  · rintro ⟨hj, hi⟩
    rcases Nat.lt_or_ge i (s.dataLen j) with hlt | hge
    · exact .inl ⟨hj, by omega, hlt⟩
    · exact .inr ⟨(j, i - s.dataLen j), ⟨hj, by dsimp only; omega, by dsimp only; omega⟩, rfl,
        Nat.add_sub_cancel' hge⟩

lemma length_order (h : s.WellFormed) : (s.order.length : ℤ) = s.layout.totalCodewords := by
  have hshort := h.numShort_le
  have hlast : ∀ j, s.shortDataLen < s.dataLen j ↔ s.numShort ≤ j := by
    intro j
    unfold dataLen
    split_ifs <;> omega
  rw [order, List.length_append, List.length_map, byColumns_succ, List.length_append,
    List.length_map, length_byColumns s.le_dataLen, length_byColumns fun _ => le_rfl]
  simp only [hlast]
  rw [length_filter_le, layout]
  push_cast [hshort]
  ring

/-! ### Holes -/

variable (s) in
/-- The places in the order of the code, which has the blocks at the long length. -/
def slots : List (ℕ × ℕ) :=
  (List.range (s.shortDataLen + s.eccLen + 1)).flatMap fun i =>
    ((List.range s.numBlocks).filter fun j => ¬(i = s.shortDataLen ∧ j < s.numShort)).map
      fun j => (j, i)

variable (s) in
/-- The place without the hole. -/
def close (p : ℕ × ℕ) : ℕ × ℕ :=
  (p.1, if p.1 < s.numShort ∧ s.shortDataLen < p.2 then p.2 - 1 else p.2)

variable (s) in
/-- The place with the hole. -/
def widen (p : ℕ × ℕ) : ℕ × ℕ :=
  (p.1, if p.1 < s.numShort ∧ s.shortDataLen ≤ p.2 then p.2 + 1 else p.2)

lemma mem_slots (p : ℕ × ℕ) : p ∈ s.slots ↔ p.1 < s.numBlocks ∧ p.2 ≤ s.shortDataLen + s.eccLen ∧
    ¬(p.2 = s.shortDataLen ∧ p.1 < s.numShort) := by
  obtain ⟨j, i⟩ := p
  simp only [slots, List.mem_flatMap, List.mem_range, List.mem_map, List.mem_filter,
    decide_eq_true_eq, Prod.mk.injEq]
  constructor
  · rintro ⟨i, hi, j, ⟨hj, hhole⟩, rfl, rfl⟩
    exact ⟨hj, by omega, hhole⟩
  · rintro ⟨hj, hi, hhole⟩
    exact ⟨i, by omega, j, ⟨hj, hhole⟩, rfl, rfl⟩

lemma nodup_slots : s.slots.Nodup := by
  rw [slots, List.nodup_flatMap]
  constructor
  · intro i _
    exact (List.nodup_range.filter _).map fun j j' h => congrArg Prod.fst h
  · apply List.Pairwise.imp _ List.nodup_range
    intro i i' hne
    apply List.disjoint_left.mpr
    intro p hp hp'
    obtain ⟨j, -, rfl⟩ := List.mem_map.mp hp
    obtain ⟨j', -, h⟩ := List.mem_map.mp hp'
    exact hne (congrArg Prod.snd h).symm

lemma widen_close {p : ℕ × ℕ} (h : p ∈ s.slots) : s.widen (s.close p) = p := by
  obtain ⟨-, -, hhole⟩ := (mem_slots p).mp h
  obtain ⟨j, i⟩ := p
  simp only [widen, close, Prod.mk.injEq, true_and] at hhole ⊢
  split_ifs <;> omega

/-- Column by column, the holes passed over, is the order the codewords are sent in. -/
lemma map_close_slots : s.slots.map s.close = s.order := by
  rw [slots, order, List.map_flatMap]
  have hsum : s.shortDataLen + s.eccLen + 1 = s.shortDataLen + 1 + s.eccLen := by omega
  rw [hsum, List.range_add, List.flatMap_append]
  congr 1
  · rw [byColumns]
    apply List.flatMap_congr
    intro i hi
    rw [List.mem_range] at hi
    have hkeep : (List.range s.numBlocks).filter
        (fun j => ¬(i = s.shortDataLen ∧ j < s.numShort)) =
        (List.range s.numBlocks).filter fun j => i < s.dataLen j := by
      apply List.filter_congr
      intro j _
      rw [decide_eq_decide, dataLen]
      split_ifs <;> omega
    rw [hkeep, List.map_map]
    apply List.map_congr_left
    intro j _
    rw [Function.comp_apply, close, if_neg (by dsimp only; omega)]
  · rw [byColumns, List.map_flatMap, List.flatMap_map]
    apply List.flatMap_congr
    intro e he
    rw [List.mem_range] at he
    have hall : (List.range s.numBlocks).filter
        (fun j => ¬(s.shortDataLen + 1 + e = s.shortDataLen ∧ j < s.numShort)) =
        (List.range s.numBlocks).filter fun _ => e < s.eccLen := by
      apply List.filter_congr
      intro j _
      rw [decide_eq_decide]
      omega
    rw [hall, List.map_map, List.map_map]
    apply List.map_congr_left
    intro j _
    simp only [Function.comp_apply, close, dataLen, Prod.mk.injEq, true_and]
    split_ifs <;> omega

end Shape

/-! ### Sorting -/

section Sorting
variable {s : Shape} {codewords : Str}

def cell (blocks : List Str) (p : ℕ × ℕ) : UInt8 := (blocks.getD p.1 []).getD p.2 0

/-- The blocks after the codewords for the places `done`. -/
structure Placed (s : Shape) (codewords : Str) (done : List (ℕ × ℕ)) (t : ℕ × List Str) : Prop where
  count_eq : t.1 = done.length
  length_eq : t.2.length = s.numBlocks
  row_eq : ∀ j < s.numBlocks, ∃ row, t.2[j]? = some row ∧
    row.length = s.shortDataLen + s.eccLen + 1
  cells_eq : done.map (cell t.2) = codewords.take done.length

/-- What a place holds when another one is written. -/
lemma cell_set {blocks : List Str} {row : Str} {j i : ℕ} (hrow : blocks[j]? = some row)
    (hi : i < row.length) (c : UInt8) (p : ℕ × ℕ) :
    cell (blocks.set j (row.set i c)) p = if p = (j, i) then c else cell blocks p := by
  obtain ⟨hj, rfl⟩ := List.getElem?_eq_some_iff.mp hrow
  obtain ⟨a, b⟩ := p
  simp only [cell, List.getD_eq_getElem?_getD, List.getElem?_set, Prod.mk.injEq]
  by_cases ha : j = a
  · subst ha
    rw [if_pos rfl, if_pos hj, Option.getD_some, List.getElem?_set, hrow, Option.getD_some]
    by_cases hb : i = b
    · subst hb
      simp [hi]
    · rw [if_neg hb, if_neg fun h => hb h.2.symm]
  · rw [if_neg ha, if_neg fun h => ha h.1.symm]

lemma gives_placeCodeword {done : List (ℕ × ℕ)} {t : ℕ × List Str} {j i : ℕ}
    (h : Placed s codewords done t) (hnew : (j, i) ∉ done) (hmem : (j, i) ∈ s.slots)
    (hlen : done.length < codewords.length) :
    Gives (Placed s codewords (done ++ [(j, i)])) (placeCodeword codewords s.layout i j t) := by
  obtain ⟨hj, hi, hhole⟩ := (Shape.mem_slots _).mp hmem
  obtain ⟨row, hrow, hrowlen⟩ := h.row_eq j hj
  have hirow : i < row.length := by
    dsimp only at hi
    omega
  have hget : codewords[t.1]? = some codewords[done.length] := by
    rw [h.count_eq, List.getElem?_eq_getElem hlen]
  have hnohole : ¬((i : ℤ) = s.layout.shortBlockDataLen ∧ (j : ℤ) < s.layout.numShortBlocks) := by
    simpa [Shape.layout] using hhole
  rw [placeCodeword, if_neg hnohole, if_neg (by rw [h.count_eq]; omega),
    index_eq rfl hget, ok_bind, index_eq rfl hrow, ok_bind, store_eq rfl hirow, ok_bind,
    store_eq rfl (by rw [h.length_eq]; exact hj), ok_bind]
  refine .ok ⟨?_, ?_, ?_, ?_⟩
  · rw [List.length_append, List.length_singleton, h.count_eq]
  · rw [List.length_set, h.length_eq]
  · intro j' hj'
    by_cases heq : j = j'
    · subst heq
      refine ⟨row.set i codewords[done.length], ?_, by rw [List.length_set, hrowlen]⟩
      rw [List.getElem?_set_self (by rw [h.length_eq]; exact hj)]
    · obtain ⟨row', hrow', hlen'⟩ := h.row_eq j' hj'
      exact ⟨row', by rw [List.getElem?_set_ne heq, hrow'], hlen'⟩
  · rw [List.map_append, List.map_singleton, List.length_append, List.length_singleton,
      List.take_succ_eq_append_getElem hlen, ← h.cells_eq, cell_set hrow hirow, if_pos rfl]
    congr 1
    apply List.map_congr_left
    intro p hp
    rw [cell_set hrow hirow, if_neg]
    rintro rfl
    exact hnew hp

/-- The nested loops run over the places, the holes passed over. -/
lemma placeLoop_eq (t : ℕ × List Str) :
    repeatFor (fun i t => repeatFor (placeCodeword codewords s.layout i) t s.numBlocks) t
      (s.shortDataLen + s.eccLen + 1) =
    forEach (fun p => placeCodeword codewords s.layout p.2 p.1) s.slots t := by
  rw [Shape.slots, forEach_flatMap, repeatFor_eq_forEach]
  apply forEach_congr
  intro i _ t
  rw [forEach_map, forEach_filter, repeatFor_eq_forEach]
  apply forEach_congr
  intro j _ t
  by_cases hhole : i = s.shortDataLen ∧ j < s.numShort
  · rw [if_neg (by rw [decide_eq_true_eq, not_not]; exact hhole), placeCodeword, if_pos]
    simpa [Shape.layout] using hhole
  · rw [if_pos (decide_eq_true hhole)]

/-- All codewords at their places. -/
lemma gives_placeLoop (hlen : codewords.length = s.slots.length) {blocks : List Str}
    (hblocks : blocks = List.replicate s.numBlocks
      (List.replicate (s.shortDataLen + s.eccLen + 1) 0)) :
    Gives (fun t : ℕ × List Str => t.2.length = s.numBlocks ∧
        (∀ j < s.numBlocks, ∃ row, t.2[j]? = some row ∧
          row.length = s.shortDataLen + s.eccLen + 1) ∧
        s.slots.map (cell t.2) = codewords)
      (forEach (fun p => placeCodeword codewords s.layout p.2 p.1) s.slots (0, blocks)) := by
  refine Ends.weaken (ends_forEach (Placed s codewords) s.slots ?_ ?_) ?_ fun _ he => he
  · subst hblocks
    refine ⟨rfl, List.length_replicate, fun j hj => ?_, rfl⟩
    exact ⟨_, List.getElem?_replicate_of_lt hj, List.length_replicate⟩
  · rintro done ⟨j, i⟩ rest hslots t ht
    have hnodup := s.nodup_slots
    rw [hslots] at hnodup
    apply gives_placeCodeword ht
    · intro hdone
      exact (List.nodup_append.mp hnodup).2.2 _ hdone _ (List.mem_cons_self ..) rfl
    · rw [hslots]
      simp
    · rw [hlen, hslots]
      simp
  · rintro t ⟨-, hlength, hrows, hcells⟩
    rw [← hlen, List.take_length] at hcells
    exact ⟨hlength, hrows, hcells⟩

/-- What is corrected of a block: a short one is closed over its hole. -/
def closed (s : Shape) (j : ℕ) (row : Str) : Str :=
  if j < s.numShort then row.take s.shortDataLen ++ row.drop (s.shortDataLen + 1) else row

lemma length_closed {j : ℕ} {row : Str} (h : row.length = s.shortDataLen + s.eccLen + 1) :
    (closed s j row).length = s.blockLen j := by
  unfold closed Shape.blockLen Shape.dataLen
  split_ifs
  · rw [List.length_append, List.length_take, List.length_drop]
    omega
  · omega

lemma getD_closed {j : ℕ} {row : Str} (h : row.length = s.shortDataLen + s.eccLen + 1) (i : ℕ) :
    (closed s j row).getD i 0 = row.getD (s.widen (j, i)).2 0 := by
  simp only [closed, Shape.widen, List.getD_eq_getElem?_getD]
  by_cases hj : j < s.numShort
  · rw [if_pos hj]
    by_cases hlt : i < s.shortDataLen
    · rw [List.getElem?_append_left (by rw [List.length_take]; omega),
        List.getElem?_take_of_lt hlt, if_neg (by omega)]
    · rw [List.getElem?_append_right (by rw [List.length_take]; omega), List.getElem?_drop,
        List.length_take, if_pos ⟨hj, by omega⟩]
      congr 2
      omega
  · rw [if_neg hj, if_neg fun hw => hj hw.1]

/-- The blocks without their holes are those of the codewords. -/
lemma closed_eq_block {blocks : List Str} (hc : s.slots.map (cell blocks) = codewords) {j : ℕ} {row : Str}
    (hj : j < s.numBlocks) (hrow : blocks[j]? = some row)
    (hlen : row.length = s.shortDataLen + s.eccLen + 1) :
    closed s j row = s.block codewords j := by
  have horder : codewords = s.order.map fun p => cell blocks (s.widen p) := by
    rw [← Shape.map_close_slots, List.map_map, ← hc]
    apply List.map_congr_left
    intro p hp
    rw [Function.comp_apply, Shape.widen_close hp]
  apply List.ext_getElem
  · rw [length_closed hlen, Shape.block, List.length_map, List.length_range]
  · intro i hi hi'
    rw [length_closed hlen] at hi
    have hmem : (j, i) ∈ s.order := (Shape.mem_order _).mpr ⟨hj, hi⟩
    have hgetD : (closed s j row)[i] = (closed s j row).getD i 0 := by
      rw [List.getD_eq_getElem?_getD, List.getElem?_eq_getElem, Option.getD_some]
    simp only [Shape.block, List.getElem_map, List.getElem_range]
    rw [hgetD, getD_closed hlen i, horder, getD_idxOf hmem, cell]
    congr 1
    change row = blocks.getD j []
    rw [List.getD_eq_getElem?_getD, hrow, Option.getD_some]

end Sorting

/-! ### Correcting -/

/-- Correction finds the word of the code that is near, if there is one. -/
lemma ends_correct_exact {codeword : Str} {parity : ℕ} (hpos : 0 < parity)
    (hlt : parity < codeword.length) (hlen : codeword.length ≤ 255) :
    Ends (Near parity codeword) (fun e => e = .uncorrectable ∧ ∀ w, ¬Near parity codeword w)
      (correct codeword parity) := by
  by_cases hnear : ∃ w, Near parity codeword w
  · obtain ⟨w, hw⟩ := hnear
    exact (gives_correct hpos hlt hlen hw).ends fun c hc => hc ▸ hw
  · refine Ends.weaken (ends_correct codeword parity) ?_ ?_
    · rw [Int.toNat_natCast]
      exact fun w hw => hw
    · rintro e rfl
      exact ⟨rfl, fun w hw => hnear ⟨w, hw⟩⟩

section Correcting
variable {s : Shape} {codewords : Str}

lemma repairBlock_eq {j : ℕ} {row : Str} (h : row.length = s.shortDataLen + s.eccLen + 1)
    (data : Str) : repairBlock s.layout j row data = do
      let codeword ← (correct (closed s j row) s.eccLen).mapFail (.block j)
      let part ← slice codeword 0 (s.dataLen j)
      return data ++ part := by
  unfold repairBlock closed Shape.dataLen
  by_cases hj : j < s.numShort
  · have hshort : (j : ℤ) < s.layout.numShortBlocks := Int.ofNat_lt.mpr hj
    have hhead : slice row 0 s.layout.shortBlockDataLen =
        (.ok (row.take s.shortDataLen) : Checked QrError Str) :=
      slice_eq (k := 0) (m := s.shortDataLen) rfl rfl (Nat.zero_le _) (by omega)
    have htail : slice row (s.layout.shortBlockDataLen + 1) row.length =
        (.ok (row.drop (s.shortDataLen + 1)) : Checked QrError Str) := by
      have hslice : slice row (s.layout.shortBlockDataLen + 1) row.length =
          (.ok ((row.take row.length).drop (s.shortDataLen + 1)) : Checked QrError Str) :=
        slice_eq (k := s.shortDataLen + 1) (m := row.length) rfl rfl (by omega) le_rfl
      rwa [List.take_length] at hslice
    have hroom : (makeEmpty s.layout.shortBlockLen : Checked QrError Str) = .ok [] :=
      if_pos (Int.natCast_nonneg (s.shortDataLen + s.eccLen))
    rw [if_pos hshort, hroom, ok_bind, hhead, ok_bind, htail, if_pos hj, if_pos hj]
    rfl
  · have hlong : ¬(j : ℤ) < s.layout.numShortBlocks := fun h => hj (Int.ofNat_lt.mp h)
    rw [if_neg hlong, if_neg hj, if_neg hj]
    rfl

lemma ends_repairBlock (hs : s.WellFormed) {j : ℕ} {row : Str}
    (h : row.length = s.shortDataLen + s.eccLen + 1) (data : Str) :
    Ends (fun d => ∃ w, Near s.eccLen (closed s j row) w ∧ d = data ++ w.take (s.dataLen j))
      (fun e => e = .block j .uncorrectable ∧ ∀ w, ¬Near s.eccLen (closed s j row) w)
      (repairBlock s.layout j row data) := by
  have hpos := hs.eccLen_pos
  have hdata := hs.shortDataLen_pos
  have hlen := hs.length_le
  have hle := s.dataLen_le j
  have hge := s.le_dataLen j
  have hclosed := length_closed (j := j) h
  unfold Shape.blockLen at hclosed
  rw [repairBlock_eq h]
  have hrepaired : Ends (Near s.eccLen (closed s j row))
      (fun e => e = .block j .uncorrectable ∧ ∀ w, ¬Near s.eccLen (closed s j row) w)
      ((correct (closed s j row) s.eccLen).mapFail (QrError.block j)) := by
    apply (ends_correct_exact hpos (by omega) (by omega)).mapFail
    rintro e ⟨rfl, hnone⟩
    exact ⟨rfl, hnone⟩
  refine hrepaired.bind ?_
  · intro w hw
    rw [slice_eq (k := 0) (m := s.dataLen j) Nat.cast_zero.symm rfl (Nat.zero_le _)
      (by rw [hw.length]; omega), ok_bind]
    exact .ok ⟨w, hw, rfl⟩

lemma Shape.dataOf_concat (words : List Str) (w : Str) :
    s.dataOf (words ++ [w]) = s.dataOf words ++ w.take (s.dataLen words.length) := by
  rw [dataOf, List.mapIdx_concat, List.flatten_append, List.flatten_singleton, dataOf]

lemma Shape.length_dataOf {words : List Str}
    (h : ∀ j w, words[j]? = some w → s.dataLen j ≤ w.length) : (s.dataOf words).length =
      words.length * s.shortDataLen + (words.length - s.numShort) := by
  induction words using List.reverseRecOn with
  | nil => rw [List.length_nil, Nat.zero_mul, Nat.zero_sub]; rfl
  | append_singleton words w ih =>
    have hlast : s.dataLen words.length ≤ w.length := by
      apply h
      rw [List.getElem?_append_right le_rfl, Nat.sub_self]
      rfl
    have hinit : ∀ j v, words[j]? = some v → s.dataLen j ≤ v.length := by
      intro j v hv
      apply h
      rw [List.getElem?_append_left (List.getElem?_eq_some_iff.mp hv).1, hv]
    rw [dataOf_concat, List.length_append, ih hinit, List.length_take, Nat.min_eq_left hlast,
      List.length_append, List.length_singleton, Nat.succ_mul, dataLen]
    split_ifs <;> omega

/-- The loop over the blocks. -/
lemma ends_repairLoop (hs : s.WellFormed) {blocks : List Str} (hlength : blocks.length = s.numBlocks)
    (hrows : ∀ j < s.numBlocks, ∃ row, blocks[j]? = some row ∧
      row.length = s.shortDataLen + s.eccLen + 1 ∧ closed s j row = s.block codewords j) :
    Ends (fun data => ∃ words, List.Forall₂ (Near s.eccLen) (s.blocks codewords) words ∧
        data = s.dataOf words)
      (fun e => ∃ j < s.numBlocks, e = .block j .uncorrectable ∧
        ∀ w, ¬Near s.eccLen (s.block codewords j) w)
      (forEach (fun p => repairBlock s.layout p.2 p.1) blocks.zipIdx []) := by
  refine Ends.weaken (ends_forEach (fun done data => ∃ words,
    List.Forall₂ (Near s.eccLen) ((List.range done.length).map (s.block codewords)) words ∧
      data = s.dataOf words) blocks.zipIdx ?_ ?_) ?_ fun e he => he
  · exact ⟨[], .nil, rfl⟩
  · rintro done ⟨row, j⟩ rest hsplit data ⟨words, hwords, rfl⟩
    have hat : blocks.zipIdx[done.length]? = some (row, j) := by
      rw [hsplit, List.getElem?_append_right le_rfl, Nat.sub_self]
      rfl
    rw [List.getElem?_zipIdx, Option.map_eq_some_iff] at hat
    obtain ⟨row', hrow', heq⟩ := hat
    rw [Prod.mk.injEq, Nat.zero_add] at heq
    obtain ⟨rfl, rfl⟩ := heq
    have hj : done.length < s.numBlocks := hlength ▸ (List.getElem?_eq_some_iff.mp hrow').1
    obtain ⟨row, hrow, hlen, hclosed⟩ := hrows _ hj
    rw [hrow', Option.some.injEq] at hrow
    subst hrow
    have hcount : words.length = done.length := by
      rw [← hwords.length_eq, List.length_map, List.length_range]
    refine Ends.weaken (ends_repairBlock hs hlen _) ?_ ?_
    · rintro data ⟨w, hw, rfl⟩
      refine ⟨words ++ [w], ?_, by rw [Shape.dataOf_concat, hcount]⟩
      rw [List.length_append, List.length_singleton, List.range_succ, List.map_append,
        List.map_singleton]
      apply List.rel_append hwords
      rw [← hclosed]
      exact .cons hw .nil
    · rintro e ⟨rfl, hnone⟩
      rw [hclosed] at hnone
      exact ⟨_, hj, rfl, hnone⟩
  · rintro data ⟨words, hwords, hdata⟩
    rw [List.length_zipIdx, hlength] at hwords
    exact ⟨words, hwords, hdata⟩

/-- The blocks are made at the long length. -/
lemma gives_makeBlocks : Gives (· = List.replicate s.numBlocks
      (List.replicate (s.shortDataLen + s.eccLen + 1) (0 : UInt8)))
    (do
      let blocks ← make s.layout.numBlocks []
      repeatFor (fun i blocks => do
        let block ← make (s.layout.shortBlockLen + 1) 0
        store blocks i block) blocks blocks.length : Checked QrError (List Str)) := by
  have hmake : (make s.layout.numBlocks [] : Checked QrError (List Str)) =
      .ok (List.replicate s.numBlocks []) := make_eq rfl
  rw [hmake, ok_bind, List.length_replicate]
  refine Ends.weaken (ends_repeatFor (fun i blocks => blocks =
    List.replicate i (List.replicate (s.shortDataLen + s.eccLen + 1) 0) ++
      List.replicate (s.numBlocks - i) []) s.numBlocks rfl ?_) ?_ fun _ he => he
  · rintro i hi blocks rfl
    have hblock : (make (s.layout.shortBlockLen + 1) 0 : Checked QrError Str) =
        .ok (List.replicate (s.shortDataLen + s.eccLen + 1) 0) := make_eq rfl
    obtain ⟨m, hm⟩ : ∃ m, s.numBlocks - i = m + 1 := ⟨s.numBlocks - (i + 1), by omega⟩
    have hrest : s.numBlocks - (i + 1) = m := by omega
    rw [hblock, ok_bind, store_eq (k := i) rfl (by simp; omega), hm,
      List.set_append_right _ _ (by simp), List.length_replicate, Nat.sub_self, hrest,
      List.replicate_succ', List.append_assoc]
    exact .ok rfl
  · rintro blocks rfl
    rw [Nat.sub_self, List.replicate_zero, List.append_nil]

/-- The data of the blocks, each corrected to the word of the code that is near it, as long as there
is one for every block. -/
lemma ends_deinterleaveAndCorrect (hs : s.WellFormed)
    (hlen : (codewords.length : ℤ) = s.layout.totalCodewords) :
    Ends (fun data => ∃ words, List.Forall₂ (Near s.eccLen) (s.blocks codewords) words ∧
        data = s.dataOf words)
      (fun e => ∃ j < s.numBlocks, e = .block j .uncorrectable ∧
        ∀ w, ¬Near s.eccLen (s.block codewords j) w)
      (deinterleaveAndCorrect codewords s.layout) := by
  have hslots : codewords.length = s.slots.length := by
    have horder := Shape.length_order hs
    rw [← Shape.map_close_slots, List.length_map] at horder
    omega
  have hroom : (makeEmpty s.layout.dataCodewords : Checked QrError Str) = .ok [] := by
    have hshort := hs.numShort_le
    apply if_pos
    rw [Shape.layout]
    exact Int.add_nonneg (by positivity) (by omega)
  rw [deinterleaveAndCorrect, if_neg (by omega), ← bind_assoc]
  refine Gives.bind gives_makeBlocks ?_
  rintro blocks rfl
  have hwidth : (s.layout.shortBlockLen + 1).toNat = s.shortDataLen + s.eccLen + 1 := rfl
  have hheight : s.layout.numBlocks.toNat = s.numBlocks := rfl
  rw [hwidth, hheight, placeLoop_eq]
  refine Gives.bind (gives_placeLoop hslots rfl) ?_
  rintro ⟨k, blocks⟩ ⟨hlength, hrows, hcells⟩
  dsimp only at hlength hrows hcells ⊢
  rw [hroom, ok_bind]
  apply ends_repairLoop hs hlength
  intro j hj
  obtain ⟨row, hrow, hrowlen⟩ := hrows j hj
  exact ⟨row, hrow, hrowlen, closed_eq_block hcells hj hrow hrowlen⟩

end Correcting

end Dhow.Qr
