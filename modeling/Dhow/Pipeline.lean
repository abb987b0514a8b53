import Dhow.Chunker
import Dhow.Frame
import Dhow.Lib.Except
import Dhow.RaptorQ
import Dhow.Session
import Mathlib.Data.List.Perm.Basic

/-!
# The sending pipeline

The sending half of `pipeline.rs`: the checks on session parameters, the chunk map they imply,
and the encoder, which wraps every RaptorQ packet of every block in an authenticated frame and
interleaves the blocks round-robin. A `Pipeline` carries that its parameters passed the checks
and that its chunk map is the one they imply.
-/

namespace Dhow
open Bytes

def payloadIdLen : ℕ := 4
def minFecSymbolSize : ℕ := 64
def maxFecSymbolSize : ℕ := maxPayloadLen - payloadIdLen

/-! ### Interleaving -/

/-- `rounds` rounds over the cursors, each taking the next element of every cursor that has
one. -/
def interleaveRounds {α : Type} : (rounds : ℕ) → List (List α) → List α
  | 0, _ => []
  | rounds + 1, cursors =>
    cursors.filterMap List.head? ++ interleaveRounds rounds (cursors.map List.tail)

/-- The length of the longest list. -/
def longest {α : Type} (perBlock : List (List α)) : ℕ :=
  (perBlock.map List.length).foldr max 0

def interleave {α : Type} (perBlock : List (List α)) : List α :=
  interleaveRounds (longest perBlock) perBlock

lemma length_le_longest {α : Type} {perBlock : List (List α)} {l : List α} (h : l ∈ perBlock) :
    l.length ≤ longest perBlock := by
  induction perBlock with
  | nil => simp at h
  | cons a rest ih =>
    have hc : longest (a :: rest) = max a.length (longest rest) := rfl
    rcases List.mem_cons.mp h with rfl | h
    · omega
    · have := ih h
      omega

lemma heads_append_tails_perm {α : Type} (cursors : List (List α)) :
    (cursors.filterMap List.head? ++ (cursors.map List.tail).flatten).Perm cursors.flatten := by
  induction cursors with
  | nil => rfl
  | cons l rest ih =>
    cases l with
    | nil => simpa [List.filterMap_cons] using ih
    | cons a l =>
      simp only [List.filterMap_cons, List.head?_cons, List.map_cons, List.tail_cons,
        List.flatten_cons, List.cons_append, List.perm_cons]
      have hswap := List.perm_append_comm_assoc (rest.filterMap List.head?) l
        (rest.map List.tail).flatten
      exact hswap.trans (List.Perm.append_left l ih)

lemma interleaveRounds_perm {α : Type} (rounds : ℕ) (cursors : List (List α))
    (h : ∀ l ∈ cursors, l.length ≤ rounds) :
    (interleaveRounds rounds cursors).Perm cursors.flatten := by
  induction rounds generalizing cursors with
  | zero =>
    have hnil : cursors.flatten = [] :=
      List.flatten_eq_nil_iff.mpr fun l hl => List.eq_nil_of_length_eq_zero (by
        have := h l hl
        omega)
    simp [interleaveRounds, hnil]
  | succ rounds ih =>
    have htail : ∀ l ∈ cursors.map List.tail, l.length ≤ rounds := by
      intro l hl
      obtain ⟨m, hm, rfl⟩ := List.mem_map.mp hl
      have := h m hm
      rw [List.length_tail]
      omega
    exact ((ih _ htail).append_left _).trans (heads_append_tails_perm cursors)

/-- Interleaving neither loses nor repeats an element. -/
theorem interleave_perm {α : Type} (perBlock : List (List α)) :
    (interleave perBlock).Perm perBlock.flatten :=
  interleaveRounds_perm _ _ fun _ => length_le_longest

/-! ### Sessions -/

def validateParams (params : SessionParams) : Except CodecError Unit :=
  match params.validate with
  | .error e => .error (.session e)
  | .ok () =>
    if minFecSymbolSize ≤ params.symbolSize.toNat ∧ params.symbolSize.toNat ≤ maxFecSymbolSize then
      .ok ()
    else .error (.session (.invalidParameters
      s!"symbol_size {params.symbolSize} out of range {minFecSymbolSize}..={maxFecSymbolSize}"))

def chunkMapFor (params : SessionParams) : Except CodecError ChunkMap :=
  match ChunkParams.new params.payloadSize.toNat params.blockCount.toNat
      params.symbolSize.toNat with
  | .error e => .error (.chunk e)
  | .ok chunkParams =>
    match ChunkMap.new chunkParams with
    | .error e => .error (.chunk e)
    | .ok map => .ok map

/-- A chunk map depends on three of the parameters alone. -/
lemma chunkMapFor_congr {params params' : SessionParams}
    (hsize : params.payloadSize = params'.payloadSize)
    (hcount : params.blockCount = params'.blockCount)
    (hsymbol : params.symbolSize = params'.symbolSize) :
    chunkMapFor params = chunkMapFor params' := by
  rw [chunkMapFor, hsize, hcount, hsymbol, chunkMapFor]

def configForBlock (rq : RaptorQ) (blockSize : ℕ) (symbolSize : UInt32) : rq.Config :=
  rq.withDefaults blockSize symbolSize.toUInt16

structure Pipeline where
  sessionId : Arr 16
  params : SessionParams
  sessionKey : Arr 32
  chunkMap : ChunkMap
  params_valid : validateParams params = .ok ()
  chunkMap_eq : chunkMapFor params = .ok chunkMap

structure PreparedFrame where
  frame : Frame
  deriving DecidableEq

namespace Pipeline

def new (sessionId : Arr 16) (params : SessionParams) (sessionKey : Arr 32) :
    Except CodecError Pipeline :=
  match hv : validateParams params with
  | .error e => .error e
  | .ok () =>
    match hm : chunkMapFor params with
    | .error e => .error e
    | .ok chunkMap => .ok ⟨sessionId, params, sessionKey, chunkMap, hv, hm⟩

/-- The frame of one packet of a block. -/
def frameFor (b3 : Blake3) (rq : RaptorQ) (p : Pipeline) (block : BlockInfo)
    (entry : rq.Packet × ℕ) : Except CodecError PreparedFrame :=
  let serialized := rq.serialize entry.1
  if h : maxPayloadLen < serialized.length then
    .error (.framePayloadTooLarge serialized.length maxPayloadLen)
  else
    let header := FrameHeader.new .repair p.sessionId (UInt32.ofNat block.index)
      (UInt32.ofNat entry.2) serialized (Nat.le_of_not_lt h)
    .ok ⟨Frame.build b3 header serialized p.sessionKey⟩

def repairCount (p : Pipeline) : ℕ :=
  p.params.totalSymbolsPerBlock.toNat - p.params.sourceSymbolsPerBlock.toNat

/-- The frames of one block, in packet order. -/
def blockFrames (b3 : Blake3) (rq : RaptorQ) (p : Pipeline) (payload : Str)
    (block : BlockInfo) : Except CodecError (List PreparedFrame) :=
  if block.size = 0 then .ok []
  else
    match p.chunkMap.extractBlock payload block.index with
    | .error e => .error (.chunk e)
    | .ok blockBytes =>
      let packets := rq.encodedPackets (configForBlock rq block.size p.params.symbolSize)
        blockBytes p.repairCount
      packets.zipIdx.mapM (p.frameFor b3 rq block)

def encode (b3 : Blake3) (rq : RaptorQ) (p : Pipeline) (payload : Str) :
    Except CodecError (List PreparedFrame) :=
  if payload.length ≠ p.params.payloadSize.toNat then
    .error (.session (.invalidParameters
      s!"payload is {payload.length} bytes but session declares {p.params.payloadSize}"))
  else
    match p.chunkMap.blocks.mapM (p.blockFrames b3 rq payload) with
    | .error e => .error e
    | .ok perBlock => .ok (interleave perBlock)

def encodeToBytes (b3 : Blake3) (rq : RaptorQ) (p : Pipeline) (payload : Str) :
    Except CodecError (List Str) :=
  match p.encode b3 rq payload with
  | .error e => .error e
  | .ok frames => .ok (frames.map fun f => f.frame.toVec)

/-! ### What a session fixes -/

lemma exists_new (sessionId : Arr 16) {params : SessionParams} (sessionKey : Arr 32)
    {chunkMap : ChunkMap} (hv : validateParams params = .ok ())
    (hm : chunkMapFor params = .ok chunkMap) :
    ∃ p, new sessionId params sessionKey = .ok p := by
  unfold new
  split
  next e h =>
    rw [hv] at h
    cases h
  · split
    next e h =>
      rw [hm] at h
      cases h
    · exact ⟨_, rfl⟩

lemma new_eq_ok {sessionId : Arr 16} {params : SessionParams} {sessionKey : Arr 32} {p : Pipeline}
    (h : new sessionId params sessionKey = .ok p) :
    p.sessionId = sessionId ∧ p.params = params ∧ p.sessionKey = sessionKey := by
  unfold new at h
  split at h
  · cases h
  · split at h
    · cases h
    · cases h
      exact ⟨rfl, rfl, rfl⟩

variable (p : Pipeline)

lemma symbolSize_bounds :
    64 ≤ p.params.symbolSize.toNat ∧ p.params.symbolSize.toNat ≤ maxFecSymbolSize := by
  have h := p.params_valid
  unfold validateParams at h
  split at h
  · cases h
  · split_ifs at h with hb
    exact hb

lemma params_validated : p.params.Valid := by
  have h := p.params_valid
  unfold validateParams at h
  split at h
  · cases h
  next hv => exact (p.params.validate_eq_ok_iff).mp hv

lemma chunkMap_params :
    p.chunkMap.params.payloadSize = p.params.payloadSize.toNat ∧
      p.chunkMap.params.blockCount = p.params.blockCount.toNat := by
  have h := p.chunkMap_eq
  unfold chunkMapFor at h
  split at h
  · cases h
  next chunkParams hc =>
    split at h
    · cases h
    next map hm =>
      cases h
      obtain ⟨hs, hb, -⟩ := ChunkParams.new_eq_ok hc
      rw [ChunkMap.new_eq_ok hm]
      exact ⟨hs, hb⟩

lemma length_blocks_le : p.chunkMap.blocks.length ≤ maxBlockCount := by
  rw [p.chunkMap.length_blocks]
  exact p.chunkMap.params.blockCount_mem.2

/-! ### What the encoder emits -/

/-- The configuration of a block of this session. -/
def config (rq : RaptorQ) (block : BlockInfo) : rq.Config :=
  configForBlock rq block.size p.params.symbolSize

/-- The packets of a block of `payload`. -/
def packets (rq : RaptorQ) (payload : Str) (block : BlockInfo) : List rq.Packet :=
  rq.encodedPackets (p.config rq block) (ChunkMap.blockBytes payload block) p.repairCount

/-- What the pipeline relies on of RaptorQ for every block of a payload. -/
def RaptorQIdeal (rq : RaptorQ) (payload : Str) : Prop :=
  ∀ block ∈ p.chunkMap.blocks, block.size ≠ 0 →
    rq.Ideal (p.config rq block) (ChunkMap.blockBytes payload block) p.repairCount

/-- Bytes that are the frame of packet `j` of block `i` of `payload`. -/
structure IsSymbolFrame (b3 : Blake3) (rq : RaptorQ) (payload bytes : Str) (i j : ℕ)
    (block : BlockInfo) (packet : rq.Packet) : Prop where
  block_eq : p.chunkMap.blocks[i]? = some block
  size_ne_zero : block.size ≠ 0
  packet_eq : (p.packets rq payload block)[j]? = some packet
  frame_eq : ∃ h : (rq.serialize packet).length ≤ maxPayloadLen,
    bytes = (Frame.build b3 (.new .repair p.sessionId (UInt32.ofNat i) (UInt32.ofNat j)
      (rq.serialize packet) h) (rq.serialize packet) p.sessionKey).toVec

variable {p}

lemma frameFor_eq_ok_iff {b3 : Blake3} {rq : RaptorQ} {block : BlockInfo}
    {entry : rq.Packet × ℕ} {f : PreparedFrame} :
    p.frameFor b3 rq block entry = .ok f ↔
      ∃ h : (rq.serialize entry.1).length ≤ maxPayloadLen,
        f = ⟨Frame.build b3 (.new .repair p.sessionId (UInt32.ofNat block.index)
          (UInt32.ofNat entry.2) (rq.serialize entry.1) h) (rq.serialize entry.1)
          p.sessionKey⟩ := by
  by_cases h : maxPayloadLen < (rq.serialize entry.1).length
  · simp [frameFor, h]
  · simp [frameFor, h, Nat.le_of_not_lt h, eq_comm]

lemma mem_of_blockFrames {b3 : Blake3} {rq : RaptorQ} {payload : Str}
    (hp : payload.length = p.chunkMap.params.payloadSize) {i : ℕ} {block : BlockInfo}
    (hi : p.chunkMap.blocks[i]? = some block) {frames : List PreparedFrame}
    (h : p.blockFrames b3 rq payload block = .ok frames) {bytes : Str} :
    (∃ f ∈ frames, f.frame.toVec = bytes) ↔
      ∃ j packet, p.IsSymbolFrame b3 rq payload bytes i j block packet := by
  have hidx : block.index = i := by rw [p.chunkMap.eq_blockAt hi]; rfl
  by_cases hs : block.size = 0
  · rw [blockFrames, if_pos hs] at h
    cases h
    constructor
    · rintro ⟨f, hf, -⟩
      simp at hf
    · rintro ⟨j, packet, hb⟩
      exact absurd hs hb.size_ne_zero
  · rw [blockFrames, if_neg hs, hidx, p.chunkMap.extractBlock_eq hp hi] at h
    constructor
    · rintro ⟨f, hf, rfl⟩
      obtain ⟨⟨packet, j⟩, hentry, hok⟩ := (Except.mem_of_mapM h).mp hf
      obtain ⟨hle, rfl⟩ := frameFor_eq_ok_iff.mp hok
      exact ⟨j, packet, hi, hs, List.mem_zipIdx_iff_getElem?.mp hentry, hle, by rw [hidx]⟩
    · rintro ⟨j, packet, -, -, hpacket, hle, rfl⟩
      refine ⟨_, (Except.mem_of_mapM h).mpr ⟨(packet, j), ?_, ?_⟩, rfl⟩
      · exact List.mem_zipIdx_iff_getElem?.mpr hpacket
      · exact frameFor_eq_ok_iff.mpr ⟨hle, by rw [hidx]; rfl⟩

lemma payload_length_of_encode {b3 : Blake3} {rq : RaptorQ} {payload : Str} {frames : List Str}
    (h : p.encodeToBytes b3 rq payload = .ok frames) :
    payload.length = p.chunkMap.params.payloadSize := by
  unfold encodeToBytes encode at h
  rw [p.chunkMap_params.1]
  by_contra hne
  simp [hne] at h

/-- The emitted byte strings are the frames of the packets of the blocks. -/
theorem mem_encodeToBytes {b3 : Blake3} {rq : RaptorQ} {payload : Str} {frames : List Str}
    (h : p.encodeToBytes b3 rq payload = .ok frames) {bytes : Str} :
    bytes ∈ frames ↔
      ∃ i j block packet, p.IsSymbolFrame b3 rq payload bytes i j block packet := by
  have hp := payload_length_of_encode h
  have hlen : payload.length = p.params.payloadSize.toNat := hp.trans p.chunkMap_params.1
  unfold encodeToBytes encode at h
  rw [if_neg (not_not.mpr hlen)] at h
  cases hm : p.chunkMap.blocks.mapM (p.blockFrames b3 rq payload) with
  | error e => simp [hm] at h
  | ok perBlock =>
    simp only [hm, Except.ok.injEq] at h
    subst h
    simp only [List.mem_map, (interleave_perm perBlock).mem_iff, List.mem_flatten]
    constructor
    · rintro ⟨f, ⟨fs, hfs, hf⟩, rfl⟩
      obtain ⟨block, hb, hok⟩ := (Except.mem_of_mapM hm).mp hfs
      obtain ⟨i, hi⟩ := List.mem_iff_getElem?.mp hb
      obtain ⟨j, packet, hfr⟩ := (mem_of_blockFrames hp hi hok).mp ⟨f, hf, rfl⟩
      exact ⟨i, j, block, packet, hfr⟩
    · rintro ⟨i, j, block, packet, hfr⟩
      obtain ⟨fs, hfs, hok⟩ := Except.getElem?_of_mapM hm hfr.block_eq
      obtain ⟨f, hf, he⟩ := (mem_of_blockFrames hp hfr.block_eq hok).mpr ⟨j, packet, hfr⟩
      exact ⟨f, ⟨fs, List.mem_of_getElem? hfs, hf⟩, he⟩

/-- Every packet of every block is emitted. -/
lemma exists_frame_of_packet {b3 : Blake3} {rq : RaptorQ} {payload : Str} {frames : List Str}
    (h : p.encodeToBytes b3 rq payload = .ok frames) {i : ℕ} {block : BlockInfo}
    (hi : p.chunkMap.blocks[i]? = some block) (hs : block.size ≠ 0) {packet : rq.Packet}
    (hp : packet ∈ p.packets rq payload block) :
    ∃ j, ∃ bytes ∈ frames, p.IsSymbolFrame b3 rq payload bytes i j block packet := by
  have hpay := payload_length_of_encode h
  have hlen : payload.length = p.params.payloadSize.toNat := hpay.trans p.chunkMap_params.1
  have hidx : block.index = i := by rw [p.chunkMap.eq_blockAt hi]; rfl
  obtain ⟨j, hj⟩ := List.mem_iff_getElem?.mp hp
  have hle : (rq.serialize packet).length ≤ maxPayloadLen := by
    have he := h
    unfold encodeToBytes encode at he
    rw [if_neg (not_not.mpr hlen)] at he
    cases hm : p.chunkMap.blocks.mapM (p.blockFrames b3 rq payload) with
    | error e => simp [hm] at he
    | ok perBlock =>
      obtain ⟨fs, -, hok⟩ := Except.getElem?_of_mapM hm hi
      rw [blockFrames, if_neg hs, hidx, p.chunkMap.extractBlock_eq hpay hi] at hok
      have hget : (p.packets rq payload block).zipIdx[j]? = some (packet, j) := by
        rw [List.getElem?_zipIdx, hj]
        simp
      change (p.packets rq payload block).zipIdx.mapM (p.frameFor b3 rq block) = .ok fs at hok
      obtain ⟨f, -, hf⟩ := Except.getElem?_of_mapM hok hget
      exact (frameFor_eq_ok_iff.mp hf).1
  have hframe : p.IsSymbolFrame b3 rq payload _ i j block packet := ⟨hi, hs, hj, hle, rfl⟩
  exact ⟨j, _, (mem_encodeToBytes h).mpr ⟨i, j, block, packet, hframe⟩, hframe⟩

end Pipeline
end Dhow
