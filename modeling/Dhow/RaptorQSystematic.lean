import Dhow.RaptorQ
import Mathlib.Data.List.Induction
import Mathlib.Tactic.Ring

/-!
# A systematic code

RaptorQ is systematic: a block of one source block travels as its own symbols, and the decoder
is done when it has each of them once. This is such a code as a `RaptorQ` that computes, with
the source symbols once more for repair symbols and the crate's panic on a packet whose fields
would index out of range; on every block that fits it, it is ideal.
-/

namespace Dhow.Systematic
open Bytes

structure Config where
  transferLength : ℕ
  symbolSize : ℕ

def Config.symbolCount (cfg : Config) : ℕ :=
  (cfg.transferLength + cfg.symbolSize - 1) / cfg.symbolSize

structure Packet where
  sourceBlockNumber : UInt8
  encodingSymbolId : ℕ
  data : Str

/-- The packet identifier is one byte and three, the most significant first. -/
def Packet.serialize (p : Packet) : Str :=
  [p.sourceBlockNumber, UInt8.ofNat (p.encodingSymbolId / 65536),
    UInt8.ofNat (p.encodingSymbolId / 256), UInt8.ofNat p.encodingSymbolId] ++ p.data

def Packet.deserialize (bytes : Str) : Packet where
  sourceBlockNumber := u8At bytes 0
  encodingSymbolId :=
    (u8At bytes 1).toNat * 65536 + (u8At bytes 2).toNat * 256 + (u8At bytes 3).toNat
  data := bytes.drop 4

/-- A block padded to whole symbols. -/
def pad (cfg : Config) (block : Str) : Str :=
  block ++ List.replicate (cfg.symbolCount * cfg.symbolSize - block.length) 0

/-- Packet `i`: past the source symbols they come around again. -/
def symbol (cfg : Config) (block : Str) (i : ℕ) : Packet :=
  ⟨0, i, slice (pad cfg block) (i % cfg.symbolCount * cfg.symbolSize) cfg.symbolSize⟩

/-- The symbols received, the first of each identifier. -/
structure Decoder where
  cfg : Config
  symbols : ℕ → Option Str

def Decoder.add (d : Decoder) (p : Packet) : Decoder :=
  { d with symbols := fun i =>
      if i = p.encodingSymbolId then (d.symbols i).or (some p.data) else d.symbols i }

def Decoder.result (d : Decoder) : Option Str :=
  if (List.range d.cfg.symbolCount).all fun i => (d.symbols i).isSome then
    some (((List.range d.cfg.symbolCount).flatMap fun i => (d.symbols i).getD []).take
      d.cfg.transferLength)
  else none

def Decoder.addNewPacket (d : Decoder) (p : Packet) : Call Decoder :=
  if p.sourceBlockNumber = 0 ∧ p.data.length = d.cfg.symbolSize then .returned (d.add p)
  else .panicked d

def packets (cfg : Config) (block : Str) (repair : ℕ) : List Packet :=
  (List.range (cfg.symbolCount + repair)).map (symbol cfg block)

def raptorq : RaptorQ where
  Config := Config
  Packet := Packet
  Decoder := Decoder
  withDefaults transferLength maxPacketSize :=
    ⟨transferLength, maxPacketSize.toNat - maxPacketSize.toNat % 8⟩
  sourceBlocks _ := 1
  symbolSize := Config.symbolSize
  encodedPackets := packets
  serialize := Packet.serialize
  deserialize := Packet.deserialize
  sourceBlockNumber p := p.sourceBlockNumber.toNat
  data := Packet.data
  newDecoder cfg := ⟨cfg, fun _ => none⟩
  addNewPacket := Decoder.addNewPacket
  getResult := Decoder.result

/-- The decoder after a sequence of packets. -/
def feed (cfg : Config) (ps : List Packet) : Decoder := raptorq.feed cfg ps

lemma feed_append_singleton (cfg : Config) (ps : List Packet) (p : Packet) :
    feed cfg (ps ++ [p]) = ((feed cfg ps).addNewPacket p).state :=
  raptorq.feed_append_singleton cfg ps p

lemma aligned : raptorq.Aligned := fun _ _ => rfl

lemma wireFormat : raptorq.WireFormat where
  sourceBlockNumber_deserialize _ _ := rfl
  data_deserialize _ _ := rfl

@[simp] lemma feed_cfg (cfg : Config) (ps : List Packet) : (feed cfg ps).cfg = cfg := by
  induction ps using List.reverseRecOn with
  | nil => rfl
  | append_singleton ps p ih =>
    rw [feed_append_singleton, Decoder.addNewPacket]
    split <;> exact ih

lemma shaped_iff (cfg : Config) (p : Packet) :
    raptorq.Shaped cfg p ↔ p.sourceBlockNumber = 0 ∧ p.data.length = cfg.symbolSize := by
  constructor
  · rintro ⟨h0, hl⟩
    have h0' : p.sourceBlockNumber.toNat < 1 := h0
    exact ⟨UInt8.toNat_inj.mp (by rw [UInt8.toNat_zero]; omega), hl⟩
  · rintro ⟨h0, hl⟩
    refine ⟨?_, hl⟩
    change p.sourceBlockNumber.toNat < 1
    rw [h0, UInt8.toNat_zero]
    exact one_pos

lemma panics_iff (cfg : Config) (ps : List Packet) (p : Packet) :
    (∃ d, (feed cfg ps).addNewPacket p = .panicked d) ↔ ¬raptorq.Shaped cfg p := by
  rw [shaped_iff, Decoder.addNewPacket, feed_cfg]
  split
  next h => simpa using h
  next h => simpa using h

lemma panicsOnMisshapen : raptorq.PanicsOnMisshapen := panics_iff

/-! ### It is ideal on a block that fits -/

/-- A non-empty block of the declared length, of at most `2 ^ 24` symbols in all. -/
structure Fits (cfg : Config) (block : Str) (repair : ℕ) : Prop where
  length_eq : block.length = cfg.transferLength
  length_pos : 0 < block.length
  symbolSize_pos : 0 < cfg.symbolSize
  symbolCount_le : cfg.symbolCount + repair ≤ 2 ^ 24

variable {cfg : Config} {block : Str} {repair : ℕ} (h : Fits cfg block repair)
include h

lemma Fits.length_le : block.length ≤ cfg.symbolCount * cfg.symbolSize := by
  have hd := Nat.lt_div_mul_add (a := cfg.transferLength + cfg.symbolSize - 1) h.symbolSize_pos
  have hp := h.symbolSize_pos
  rw [h.length_eq, Config.symbolCount]
  omega

lemma Fits.length_pad : (pad cfg block).length = cfg.symbolCount * cfg.symbolSize := by
  have hle := h.length_le
  simp only [pad, List.length_append, List.length_replicate]
  omega

lemma Fits.symbolCount_pos : 0 < cfg.symbolCount := by
  have hle := h.length_le
  have hp := h.length_pos
  by_contra h0
  have hz : cfg.symbolCount = 0 := by omega
  rw [hz, Nat.zero_mul] at hle
  omega

lemma Fits.length_symbol (i : ℕ) : (symbol cfg block i).data.length = cfg.symbolSize := by
  have hi : i % cfg.symbolCount < cfg.symbolCount := Nat.mod_lt _ h.symbolCount_pos
  refine length_slice_of_le ?_
  rw [h.length_pad]
  calc i % cfg.symbolCount * cfg.symbolSize + cfg.symbolSize
      = (i % cfg.symbolCount + 1) * cfg.symbolSize := by ring
    _ ≤ cfg.symbolCount * cfg.symbolSize := Nat.mul_le_mul_right _ hi

omit h in
lemma flatMap_symbol {n : ℕ} (hn : n ≤ cfg.symbolCount) :
    ((List.range n).flatMap fun i => (symbol cfg block i).data) =
      slice (pad cfg block) 0 (n * cfg.symbolSize) := by
  induction n with
  | zero => simp [slice]
  | succ n ih =>
    rw [List.range_succ, List.flatMap_append, ih (by omega), List.flatMap_singleton, Nat.succ_mul,
      ← slice_append_slice, Nat.zero_add, symbol, Nat.mod_eq_of_lt hn]

lemma Fits.take_flatMap :
    (((List.range cfg.symbolCount).flatMap fun i => (symbol cfg block i).data).take
      cfg.transferLength) = block := by
  rw [flatMap_symbol le_rfl, ← h.length_pad, slice_zero_length, ← h.length_eq, pad, List.take_left]

omit h in
lemma eq_symbol_of_mem {p : Packet} (hp : p ∈ packets cfg block repair) :
    p = symbol cfg block p.encodingSymbolId ∧ p.encodingSymbolId < cfg.symbolCount + repair := by
  obtain ⟨i, hi, rfl⟩ := List.mem_map.mp hp
  exact ⟨rfl, List.mem_range.mp hi⟩

lemma Fits.addNewPacket_eq (ps : List Packet) {p : Packet} (hp : p ∈ packets cfg block repair) :
    (feed cfg ps).addNewPacket p = .returned ((feed cfg ps).add p) := by
  have he := (eq_symbol_of_mem hp).1
  have hl : p.data.length = (feed cfg ps).cfg.symbolSize := by
    rw [he, feed_cfg]
    exact h.length_symbol _
  have h0 : p.sourceBlockNumber = 0 := by rw [he]; rfl
  exact if_pos ⟨h0, hl⟩

/-- The decoder holds exactly the symbols it was given. -/
lemma Fits.feed_symbols {ps : List Packet} (hg : ps ⊆ packets cfg block repair) (i : ℕ) :
    (feed cfg ps).symbols i =
      if i ∈ ps.map Packet.encodingSymbolId then some (symbol cfg block i).data else none := by
  induction ps using List.reverseRecOn with
  | nil => rfl
  | append_singleton ps p ih =>
    have hp : p ∈ packets cfg block repair := hg (by simp)
    rw [feed_append_singleton, h.addNewPacket_eq ps hp]
    simp only [Call.state, Decoder.add]
    rw [ih fun x hx => hg (List.mem_append_left _ hx)]
    by_cases hi : i = p.encodingSymbolId
    · rw [if_pos hi, if_pos (c := i ∈ (ps ++ [p]).map _) (by simp [hi])]
      by_cases hm : i ∈ ps.map Packet.encodingSymbolId
      · rw [if_pos hm]
        rfl
      · rw [if_neg hm, Option.none_or, (eq_symbol_of_mem hp).1, hi]
    · simp [hi]

lemma Fits.result_feed {ps : List Packet} (hg : ps ⊆ packets cfg block repair) :
    (feed cfg ps).result =
      if ∀ i < cfg.symbolCount, i ∈ ps.map Packet.encodingSymbolId then some block
      else none := by
  unfold Decoder.result
  rw [feed_cfg]
  by_cases hall : ∀ i < cfg.symbolCount, i ∈ ps.map Packet.encodingSymbolId
  · have hsome : ((List.range cfg.symbolCount).all fun i =>
        ((feed cfg ps).symbols i).isSome) = true := by
      rw [List.all_eq_true]
      intro i hi
      rw [h.feed_symbols hg, if_pos (hall i (List.mem_range.mp hi))]
      rfl
    have hdata : ((List.range cfg.symbolCount).flatMap fun i =>
        ((feed cfg ps).symbols i).getD []) =
        (List.range cfg.symbolCount).flatMap fun i => (symbol cfg block i).data := by
      refine List.flatMap_congr fun i hi => ?_
      rw [h.feed_symbols hg, if_pos (hall i (List.mem_range.mp hi))]
      rfl
    rw [if_pos hsome, if_pos hall, hdata, h.take_flatMap]
  · rw [if_neg hall, if_neg]
    rw [List.all_eq_true]
    intro hsome
    refine hall fun i hi => ?_
    have hs := hsome i (List.mem_range.mpr hi)
    rw [h.feed_symbols hg] at hs
    by_contra hm
    simp [hm] at hs

omit h in
lemma deserialize_serialize {p : Packet} (hi : p.encodingSymbolId < 2 ^ 24) :
    Packet.deserialize p.serialize = p := by
  obtain ⟨sbn, esi, data⟩ := p
  have hi' : esi < 2 ^ 24 := hi
  simp only [Packet.serialize, Packet.deserialize, Packet.mk.injEq]
  refine ⟨rfl, ?_, rfl⟩
  simp only [u8At, List.cons_append, List.getD_cons_succ, List.getD_cons_zero,
    UInt8.toNat_ofNat']
  omega

lemma Fits.length_serialize {p : Packet} (hp : p ∈ packets cfg block repair) :
    p.serialize.length = 4 + cfg.symbolSize := by
  have hl := h.length_symbol p.encodingSymbolId
  rw [← (eq_symbol_of_mem hp).1] at hl
  simp only [Packet.serialize, List.length_append, List.length_cons, List.length_nil, hl]

lemma Fits.isSome_append {ps : List Packet} (hg : ps ⊆ packets cfg block repair) {p : Packet}
    (hp : p ∈ packets cfg block repair) (hs : (feed cfg ps).result.isSome) :
    (feed cfg (ps ++ [p])).result.isSome := by
  have hg' : ps ++ [p] ⊆ packets cfg block repair :=
    List.append_subset.mpr ⟨hg, by simpa using hp⟩
  rw [h.result_feed hg] at hs
  rw [h.result_feed hg']
  split_ifs at hs with hall
  · rw [if_pos fun i hi => by rw [List.map_append]; exact List.mem_append_left _ (hall i hi)]
    rfl
  · simp at hs

lemma Fits.result_congr {ps qs : List Packet} (hps : ps ⊆ packets cfg block repair)
    (hqs : qs ⊆ packets cfg block repair) (hiff : ∀ p, p ∈ ps ↔ p ∈ qs) :
    (feed cfg ps).result = (feed cfg qs).result := by
  rw [h.result_feed hps, h.result_feed hqs]
  simp only [List.mem_map, hiff]

/-- What the pipeline relies on holds of the systematic packets. -/
theorem Fits.ideal : raptorq.Ideal cfg block repair where
  symbolSize_pos := h.symbolSize_pos
  deserialize_serialize p hp := deserialize_serialize
    ((eq_symbol_of_mem hp).2.trans_le h.symbolCount_le)
  length_serialize _ := h.length_serialize
  returns ps _ p hp := ⟨_, h.addNewPacket_eq ps hp⟩
  sound ps hg bytes hb := by
    change (feed cfg ps).result = some bytes at hb
    rw [h.result_feed hg] at hb
    split_ifs at hb
    exact (Option.some.inj hb).symm
  set_only ps hps qs hqs := h.result_congr hps hqs
  latched ps hg p hp := h.isSome_append hg hp
  source_ne_nil := by
    have hpos := h.symbolCount_pos
    change (List.range (cfg.symbolCount + 0)).map (symbol cfg block) ≠ []
    simp only [ne_eq, List.map_eq_nil_iff, List.range_eq_nil]
    omega
  source_subset :=
    List.map_subset _ (List.range_subset.mpr (Nat.add_le_add_left (Nat.zero_le repair) _))
  complete ps hg hsrc := by
    change (feed cfg ps).result.isSome
    rw [h.result_feed hg, if_pos]
    · rfl
    · intro i hi
      exact List.mem_map.mpr ⟨symbol cfg block i,
        hsrc (List.mem_map.mpr ⟨i, List.mem_range.mpr hi, rfl⟩), rfl⟩

end Dhow.Systematic
