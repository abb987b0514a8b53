import Dhow.Lib.Latch
import Dhow.Pipeline
import Dhow.Resume

/-!
# The receiving pipeline

The receiving half of `pipeline.rs`. A `PipelineDecoder` is a session with a block state, a
bitmap and a counter for every block, and the hasher over the accepted frames; the lengths are
part of the type, so no index into them is out of range. `accept` is the checks of `screen`, the
record of the frame, and the call into the block's RaptorQ decoder; each has its own law, and
`run` is a sequence of calls.
-/

namespace Dhow
open Bytes

/-- A block still collecting symbols, or its bytes. -/
abbrev BlockState (rq : RaptorQ) := Latch rq.Decoder Str

inductive FrameOutcome
  | accepted
  | blockComplete (blockIndex : UInt32)
  | redundant
  deriving DecidableEq

/-- How a call of `accept` ended. -/
inductive AcceptResult
  | ok (outcome : FrameOutcome)
  | err (e : CodecError)
  | panic
  deriving DecidableEq

/-- Bytes of a bitmap with a bit for every symbol of a block. -/
def SessionParams.bitmapLen (params : SessionParams) : ℕ :=
  (params.totalSymbolsPerBlock.toNat + 7) / 8

/-- The checks a frame passes before anything is recorded. They depend on the session alone: a
decoder has one block state for each block of its chunk map. -/
def Pipeline.screen (b3 : Blake3) (p : Pipeline) (bytes : Str) : Except CodecError Frame :=
  match Frame.fromBytes b3 bytes p.sessionKey with
  | .error e => .error (.frame e)
  | .ok frame =>
    let header := frame.header
    if header.sessionId ≠ p.sessionId then
      .error (.frame (.sessionMismatch p.sessionId header.sessionId))
    else if header.frameType ≠ .repair then
      .error (.frame (.unknownFrameType header.frameType.toByte))
    else if p.chunkMap.blocks.length ≤ header.blockIndex.toNat then
      .error (.frame (.sessionMismatch p.sessionId header.sessionId))
    else if frame.payload.length ≤ payloadIdLen then
      .error (.fec (.invalidSourceBlock
        s!"symbol payload is {frame.payload.length} bytes, need more than {payloadIdLen}"))
    else .ok frame

structure PipelineDecoder (rq : RaptorQ) extends Pipeline where
  blocks : List (BlockState rq)
  held : List Str
  heldCounts : List UInt32
  journal : Blake3Hasher
  length_blocks : blocks.length = chunkMap.blocks.length
  length_held : held.length = chunkMap.blocks.length
  length_heldCounts : heldCounts.length = chunkMap.blocks.length
  length_bitmap : ∀ bitmap ∈ held, bitmap.length = params.bitmapLen

namespace PipelineDecoder
variable {rq : RaptorQ}

/-- The state of a block before any frame: an empty block is complete on arrival. -/
def initialBlock (rq : RaptorQ) (p : Pipeline) (block : BlockInfo) : BlockState rq :=
  if block.size = 0 then .done [] else .pending (rq.newDecoder (p.config rq block))

def start (rq : RaptorQ) (p : Pipeline) : PipelineDecoder rq where
  toPipeline := p
  blocks := p.chunkMap.blocks.map (initialBlock rq p)
  held := List.replicate p.chunkMap.blocks.length (List.replicate p.params.bitmapLen 0)
  heldCounts := List.replicate p.chunkMap.blocks.length 0
  journal := .new
  length_blocks := by simp
  length_held := by simp
  length_heldCounts := by simp
  length_bitmap := fun bitmap hb => by simp [List.eq_of_mem_replicate hb]

/-- The checks of the constructor are those of the sender's. -/
def new (rq : RaptorQ) (sessionId : Arr 16) (params : SessionParams) (sessionKey : Arr 32) :
    Except CodecError (PipelineDecoder rq) :=
  match Pipeline.new sessionId params sessionKey with
  | .error e => .error e
  | .ok p => .ok (start rq p)

/-- The bitmap of a block. -/
def bitmap (d : PipelineDecoder rq) (blockIndex : ℕ) : Str := d.held.getD blockIndex []

/-- The number of symbols held of a block. -/
def symbolsHeld (d : PipelineDecoder rq) (blockIndex : ℕ) : UInt32 :=
  d.heldCounts.getD blockIndex 0

/-- Sets bit `i` of a block's bitmap and counts it. -/
def setBit (d : PipelineDecoder rq) (blockIndex i : ℕ) : PipelineDecoder rq :=
  { d with
    held := d.held.modify blockIndex (Bitmap.set · i)
    heldCounts := d.heldCounts.modify blockIndex (· + 1)
    length_held := by rw [List.length_modify, d.length_held]
    length_heldCounts := by rw [List.length_modify, d.length_heldCounts]
    length_bitmap := fun bitmap hb => by
      obtain ⟨k, hk⟩ := List.mem_iff_getElem?.mp hb
      rw [List.getElem?_modify] at hk
      obtain ⟨bm, hbm, rfl⟩ := Option.map_eq_some_iff.mp hk
      have hlen := d.length_bitmap bm (List.mem_of_getElem? hbm)
      split
      · rw [Bitmap.length_set, hlen]
      · exact hlen }

def markHeld (d : PipelineDecoder rq) (blockIndex : ℕ) (symbolIndex : UInt32) :
    PipelineDecoder rq × Bool :=
  if d.params.totalSymbolsPerBlock ≤ symbolIndex then (d, false)
  else
    let i := symbolIndex.toNat
    if u8At (d.bitmap blockIndex) (i / 8) &&& Bitmap.mask i ≠ 0 then (d, false)
    else (d.setBit blockIndex i, true)

/-- The record of an accepted frame: its bitmap and the rolling digest. -/
def record (d : PipelineDecoder rq) (frame : Frame) (bytes : Str) : PipelineDecoder rq :=
  let d := (d.markHeld frame.header.blockIndex.toNat frame.header.symbolIndex).1
  { d with journal := d.journal.update bytes }

def setBlock (d : PipelineDecoder rq) (blockIndex : ℕ) (s : BlockState rq) :
    PipelineDecoder rq :=
  { d with
    blocks := d.blocks.set blockIndex s
    length_blocks := by rw [List.length_set, d.length_blocks] }

/-- The packet of an accepted frame goes to its block's decoder. -/
def addSymbol (d : PipelineDecoder rq) (frame : Frame) : AcceptResult × PipelineDecoder rq :=
  let blockIndex := frame.header.blockIndex.toNat
  match d.blocks[blockIndex]? with
  | some (.pending decoder) =>
    match rq.addNewPacket decoder (rq.deserialize frame.payload) with
    | .panicked decoder => (.panic, d.setBlock blockIndex (.pending decoder))
    | .returned decoder =>
      match rq.getResult decoder with
      | some data =>
        (.ok (.blockComplete frame.header.blockIndex), d.setBlock blockIndex (.done data))
      | none => (.ok .accepted, d.setBlock blockIndex (.pending decoder))
  | _ => (.ok .redundant, d)

def accept (b3 : Blake3) (d : PipelineDecoder rq) (bytes : Str) :
    AcceptResult × PipelineDecoder rq :=
  match d.screen b3 bytes with
  | .error e => (.err e, d)
  | .ok frame => (d.record frame bytes).addSymbol frame

def blockCount (d : PipelineDecoder rq) : UInt32 := UInt32.ofNat d.blocks.length

def journalDigest (b3 : Blake3) (d : PipelineDecoder rq) : Arr 32 := d.journal.finalize b3

def isComplete (d : PipelineDecoder rq) : Bool := d.blocks.all Latch.isDone

def blocksComplete (d : PipelineDecoder rq) : UInt32 :=
  UInt32.ofNat (d.blocks.countP Latch.isDone)

/-- The bytes of a decoded block. -/
def doneBytes : BlockState rq × ℕ → Except CodecError Str
  | (.done data, _) => .ok data
  | (.pending _, index) =>
    .error (.session (.invalidParameters s!"block {index} is not yet decoded"))

def finish (b3 : Blake3) (d : PipelineDecoder rq) : Except CodecError Str :=
  match d.blocks.zipIdx.mapM doneBytes with
  | .error e => .error e
  | .ok blocks =>
    match d.chunkMap.reassemble blocks with
    | .error e => .error (.chunk e)
    | .ok payload =>
      if blake3Digest b3 payload ≠ d.params.payloadDigest then .error (.session .digestMismatch)
      else .ok payload

/-- The resume entry of one block. -/
def resumeEntry (d : PipelineDecoder rq) (index : ℕ) : BlockEntry :=
  ⟨UInt32.ofNat index, d.params.totalSymbolsPerBlock, d.symbolsHeld index, d.bitmap index⟩

def resumeState (b3 : Blake3) (d : PipelineDecoder rq) (journalBytes : UInt64) : ResumeFile b3 :=
  .new b3 d.sessionId journalBytes (d.journalDigest b3)
    ((List.range d.blocks.length).map d.resumeEntry)

def verifyEntry (d : PipelineDecoder rq) (entry : BlockEntry) : Except CodecError Unit :=
  let index := entry.blockIndex.toNat
  if entry.symbolCount ≠ d.params.totalSymbolsPerBlock then
    .error (.resume (.journalMismatch (s!"block {index} declares {entry.symbolCount} symbols, " ++
      s!"session has {d.params.totalSymbolsPerBlock}")))
  else if entry.symbolBitmap ≠ d.bitmap index then
    .error (.resume (.journalMismatch s!"block {index} holds different symbols than recorded"))
  else .ok ()

def verifyResume {b3 : Blake3} (d : PipelineDecoder rq) (state : ResumeFile b3) :
    Except CodecError Unit :=
  if state.header.sessionId ≠ d.sessionId then .error (.resume .sessionMismatch)
  else if state.header.blockCount ≠ d.blockCount then
    .error (.resume (.journalMismatch (s!"resume state covers {state.header.blockCount} blocks, " ++
      s!"session has {d.blockCount}")))
  else if state.header.journalDigest ≠ d.journalDigest b3 then
    .error (.resume (.journalMismatch "replayed frames do not reproduce the recorded digest"))
  else forM state.entries d.verifyEntry

/-! ### Sequences of calls -/

/-- The decoder after a sequence of calls, whatever they returned. -/
def run (b3 : Blake3) (d : PipelineDecoder rq) (frames : List Str) : PipelineDecoder rq :=
  frames.foldl (fun d bytes => (d.accept b3 bytes).2) d

/-- What the calls returned, in order. -/
def results (b3 : Blake3) (d : PipelineDecoder rq) : List Str → List AcceptResult
  | [] => []
  | bytes :: frames =>
    (d.accept b3 bytes).1 :: results b3 (d.accept b3 bytes).2 frames

end PipelineDecoder

/-! ### The checks -/

namespace Pipeline
variable (b3 : Blake3) (p : Pipeline)

/-- A frame that passes the checks is authentic for the session, names one of its blocks and has
a symbol behind its packet identifier. -/
structure Admits (frame : Frame) : Prop where
  sessionId_eq : frame.header.sessionId = p.sessionId
  frameType_eq : frame.header.frameType = .repair
  blockIndex_lt : frame.header.blockIndex.toNat < p.chunkMap.blocks.length
  payload_gt : payloadIdLen < frame.payload.length

lemma screen_eq_ok_iff {bytes : Str} {frame : Frame} :
    p.screen b3 bytes = .ok frame ↔
      Frame.fromBytes b3 bytes p.sessionKey = .ok frame ∧ p.Admits frame := by
  unfold screen
  cases hf : Frame.fromBytes b3 bytes p.sessionKey with
  | error e => simp
  | ok g =>
    dsimp only
    constructor
    · intro h
      split_ifs at h with hs ht hb hp
      cases h
      exact ⟨rfl, not_not.mp hs, not_not.mp ht, Nat.lt_of_not_le hb, Nat.lt_of_not_le hp⟩
    · rintro ⟨h, ha⟩
      cases h
      rw [if_neg (not_not.mpr ha.sessionId_eq), if_neg (not_not.mpr ha.frameType_eq),
        if_neg (Nat.not_le.mpr ha.blockIndex_lt), if_neg (Nat.not_le.mpr ha.payload_gt)]

/-- The byte strings that pass the checks. -/
def taken (frames : List Str) : List Str := frames.filter fun bytes => (p.screen b3 bytes).isOk

/-- Their frames. -/
def takenFrames (frames : List Str) : List Frame :=
  frames.filterMap fun bytes => (p.screen b3 bytes).toOption

/-- The packets those frames carry for block `k`. -/
def packetsOf (rq : RaptorQ) (k : ℕ) (frames : List Str) : List rq.Packet :=
  ((p.takenFrames b3 frames).filter fun f => f.header.blockIndex.toNat = k).map
    fun f => rq.deserialize f.payload

/-- Symbol `j` of block `k` is inside the bitmap and named by one of those frames. -/
def names (k j : ℕ) (frames : List Str) : Bool :=
  decide (j < p.params.totalSymbolsPerBlock.toNat) &&
    (p.takenFrames b3 frames).any fun f =>
      f.header.blockIndex.toNat == k && f.header.symbolIndex.toNat == j

variable {b3 p}

lemma isOk_screen {bytes : Str} {f : Frame} (h : p.screen b3 bytes = .ok f) :
    (p.screen b3 bytes).isOk = true := by
  rw [h]
  rfl

@[simp] lemma taken_nil : p.taken b3 [] = [] := rfl

@[simp] lemma takenFrames_nil : p.takenFrames b3 [] = [] := rfl

lemma taken_cons_of_ok {bytes : Str} {frames : List Str} {f : Frame}
    (h : p.screen b3 bytes = .ok f) : p.taken b3 (bytes :: frames) = bytes :: p.taken b3 frames := by
  exact List.filter_cons_of_pos (isOk_screen h)

lemma taken_cons_of_error {bytes : Str} {frames : List Str} {e : CodecError}
    (h : p.screen b3 bytes = .error e) : p.taken b3 (bytes :: frames) = p.taken b3 frames := by
  exact List.filter_cons_of_neg (by rw [h]; exact Bool.false_ne_true)

lemma takenFrames_cons_of_ok {bytes : Str} {frames : List Str} {f : Frame}
    (h : p.screen b3 bytes = .ok f) :
    p.takenFrames b3 (bytes :: frames) = f :: p.takenFrames b3 frames := by
  rw [takenFrames, List.filterMap_cons_some (by rw [h]; rfl), takenFrames]

lemma takenFrames_cons_of_error {bytes : Str} {frames : List Str} {e : CodecError}
    (h : p.screen b3 bytes = .error e) :
    p.takenFrames b3 (bytes :: frames) = p.takenFrames b3 frames := by
  rw [takenFrames, List.filterMap_cons_none (by rw [h]; rfl), takenFrames]

lemma mem_takenFrames {frames : List Str} {f : Frame} :
    f ∈ p.takenFrames b3 frames ↔ ∃ bytes ∈ frames, p.screen b3 bytes = .ok f := by
  simp only [takenFrames, List.mem_filterMap]
  constructor
  · rintro ⟨bytes, hb, h⟩
    cases hs : p.screen b3 bytes with
    | error e => simp [hs, Except.toOption] at h
    | ok g =>
      simp only [hs, Except.toOption, Option.some.injEq] at h
      exact ⟨bytes, hb, by rw [hs, h]⟩
  · rintro ⟨bytes, hb, h⟩
    exact ⟨bytes, hb, by simp [h, Except.toOption]⟩

lemma mem_packetsOf {rq : RaptorQ} {k : ℕ} {frames : List Str} {packet : rq.Packet} :
    packet ∈ p.packetsOf b3 rq k frames ↔ ∃ bytes ∈ frames, ∃ f, p.screen b3 bytes = .ok f ∧
      f.header.blockIndex.toNat = k ∧ rq.deserialize f.payload = packet := by
  simp only [packetsOf, List.mem_map, List.mem_filter, mem_takenFrames, decide_eq_true_eq]
  constructor
  · rintro ⟨f, ⟨⟨bytes, hb, hs⟩, hk⟩, rfl⟩
    exact ⟨bytes, hb, f, hs, hk, rfl⟩
  · rintro ⟨bytes, hb, f, hs, hk, rfl⟩
    exact ⟨f, ⟨⟨bytes, hb, hs⟩, hk⟩, rfl⟩

lemma names_eq_true_iff {k j : ℕ} {frames : List Str} :
    p.names b3 k j frames = true ↔ j < p.params.totalSymbolsPerBlock.toNat ∧
      ∃ bytes ∈ frames, ∃ f, p.screen b3 bytes = .ok f ∧ f.header.blockIndex.toNat = k ∧
        f.header.symbolIndex.toNat = j := by
  simp only [names, Bool.and_eq_true, decide_eq_true_eq, List.any_eq_true, mem_takenFrames,
    beq_iff_eq]
  refine and_congr_right fun _ => ⟨?_, ?_⟩
  · rintro ⟨f, ⟨bytes, hb, hs⟩, hkj⟩
    exact ⟨bytes, hb, f, hs, hkj⟩
  · rintro ⟨bytes, hb, f, hs, hkj⟩
    exact ⟨f, ⟨bytes, hb, hs⟩, hkj⟩

end Pipeline

/-! ### One call -/

namespace PipelineDecoder
variable {rq : RaptorQ} {b3 : Blake3} (d : PipelineDecoder rq)

/-- A symbol for a block: a pending block's decoder takes it, whether or not the call panics. -/
def takeSymbol (s : BlockState rq) (packet : rq.Packet) : BlockState rq :=
  match s with
  | .done data => .done data
  | .pending decoder =>
    match rq.addNewPacket decoder packet with
    | .panicked decoder => .pending decoder
    | .returned decoder =>
      match rq.getResult decoder with
      | some data => .done data
      | none => .pending decoder

@[simp] lemma setBit_toPipeline (k i : ℕ) : (d.setBit k i).toPipeline = d.toPipeline := rfl

@[simp] lemma setBit_blocks (k i : ℕ) : (d.setBit k i).blocks = d.blocks := rfl

@[simp] lemma setBit_journal (k i : ℕ) : (d.setBit k i).journal = d.journal := rfl

/-- A symbol is marked when it is inside the bitmap and its bit is clear. -/
lemma markHeld_cases (k : ℕ) (s : UInt32) :
    ((d.params.totalSymbolsPerBlock ≤ s ∨ Bitmap.bit (d.bitmap k) s.toNat = true) ∧
      (d.markHeld k s).1 = d) ∨
    (s < d.params.totalSymbolsPerBlock ∧ Bitmap.bit (d.bitmap k) s.toNat = false ∧
      (d.markHeld k s).1 = d.setBit k s.toNat) := by
  by_cases ht : d.params.totalSymbolsPerBlock ≤ s
  · exact .inl ⟨.inl ht, by simp only [markHeld, if_pos ht]⟩
  · have hbit := Bitmap.and_mask_ne_zero_iff (u8At (d.bitmap k) (s.toNat / 8)) s.toNat
    by_cases hb : Bitmap.bit (d.bitmap k) s.toNat = true
    · exact .inl ⟨.inr hb, by simp only [markHeld, if_neg ht, if_pos (hbit.mpr hb)]⟩
    · refine .inr ⟨UInt32.not_le.mp ht, by simpa using hb, ?_⟩
      simp only [markHeld, if_neg ht, if_neg (fun h => hb (hbit.mp h))]

lemma markHeld_eq (k : ℕ) (s : UInt32) :
    (d.markHeld k s).1.toPipeline = d.toPipeline ∧ (d.markHeld k s).1.blocks = d.blocks ∧
      (d.markHeld k s).1.journal = d.journal := by
  rcases d.markHeld_cases k s with ⟨-, h⟩ | ⟨-, -, h⟩ <;> simp [h]

lemma record_toPipeline (frame : Frame) (bytes : Str) :
    (d.record frame bytes).toPipeline = d.toPipeline := (d.markHeld_eq _ _).1

lemma record_blocks (frame : Frame) (bytes : Str) :
    (d.record frame bytes).blocks = d.blocks := (d.markHeld_eq _ _).2.1

lemma record_journal (frame : Frame) (bytes : Str) :
    (d.record frame bytes).journal = d.journal.update bytes := by
  simp only [record, (d.markHeld_eq _ _).2.2]

@[simp] lemma setBlock_toPipeline (i : ℕ) (s : BlockState rq) :
    (d.setBlock i s).toPipeline = d.toPipeline := rfl

@[simp] lemma setBlock_blocks (i : ℕ) (s : BlockState rq) :
    (d.setBlock i s).blocks = d.blocks.set i s := rfl

@[simp] lemma setBlock_held (i : ℕ) (s : BlockState rq) : (d.setBlock i s).held = d.held := rfl

@[simp] lemma setBlock_heldCounts (i : ℕ) (s : BlockState rq) :
    (d.setBlock i s).heldCounts = d.heldCounts := rfl

@[simp] lemma setBlock_journal (i : ℕ) (s : BlockState rq) :
    (d.setBlock i s).journal = d.journal := rfl

/-- What a call can do with an accepted frame. -/
lemma addSymbol_cases (frame : Frame) :
    ((∀ decoder, d.blocks[frame.header.blockIndex.toNat]? ≠ some (.pending decoder)) ∧
      d.addSymbol frame = (.ok .redundant, d)) ∨
    ∃ decoder, d.blocks[frame.header.blockIndex.toNat]? = some (.pending decoder) ∧
      ((∃ decoder', rq.addNewPacket decoder (rq.deserialize frame.payload) = .panicked decoder' ∧
        d.addSymbol frame =
          (.panic, d.setBlock frame.header.blockIndex.toNat (.pending decoder'))) ∨
      (∃ decoder' data,
        rq.addNewPacket decoder (rq.deserialize frame.payload) = .returned decoder' ∧
        rq.getResult decoder' = some data ∧
        d.addSymbol frame = (.ok (.blockComplete frame.header.blockIndex),
          d.setBlock frame.header.blockIndex.toNat (.done data))) ∨
      (∃ decoder', rq.addNewPacket decoder (rq.deserialize frame.payload) = .returned decoder' ∧
        rq.getResult decoder' = none ∧
        d.addSymbol frame =
          (.ok .accepted, d.setBlock frame.header.blockIndex.toNat (.pending decoder')))) := by
  cases hb : d.blocks[frame.header.blockIndex.toNat]? with
  | none => exact .inl ⟨by simp, by simp only [addSymbol, hb]⟩
  | some s =>
    cases s with
    | done data => exact .inl ⟨by simp, by simp only [addSymbol, hb]⟩
    | pending decoder =>
      refine .inr ⟨decoder, rfl, ?_⟩
      cases hc : rq.addNewPacket decoder (rq.deserialize frame.payload) with
      | panicked decoder' => exact .inl ⟨decoder', rfl, by simp only [addSymbol, hb, hc]⟩
      | returned decoder' =>
        cases hr : rq.getResult decoder' with
        | some data =>
          exact .inr (.inl ⟨decoder', data, rfl, hr, by simp only [addSymbol, hb, hc, hr]⟩)
        | none => exact .inr (.inr ⟨decoder', rfl, hr, by simp only [addSymbol, hb, hc, hr]⟩)

/-- A call changes nothing of the session, the bitmaps, the counters or the digest. -/
lemma addSymbol_eq (frame : Frame) :
    (d.addSymbol frame).2.toPipeline = d.toPipeline ∧ (d.addSymbol frame).2.held = d.held ∧
      (d.addSymbol frame).2.heldCounts = d.heldCounts ∧
      (d.addSymbol frame).2.journal = d.journal := by
  rcases d.addSymbol_cases frame with ⟨-, h⟩ | ⟨_, -, ⟨_, -, h⟩ | ⟨_, _, -, -, h⟩ | ⟨_, -, -, h⟩⟩ <;>
    simp [h]

/-- A call changes the frame's block and no other. -/
lemma addSymbol_blocks (frame : Frame) (k : ℕ) :
    (d.addSymbol frame).2.blocks[k]? = d.blocks[k]?.map fun s =>
      if frame.header.blockIndex.toNat = k then takeSymbol s (rq.deserialize frame.payload)
      else s := by
  by_cases hk : frame.header.blockIndex.toNat = k
  · subst hk
    rcases d.addSymbol_cases frame with
      ⟨hp, h⟩ | ⟨_, hb, ⟨_, hc, h⟩ | ⟨_, _, hc, hr, h⟩ | ⟨_, hc, hr, h⟩⟩
    · rw [h]
      cases hb : d.blocks[frame.header.blockIndex.toNat]? with
      | none => rfl
      | some s =>
        cases s with
        | pending decoder => exact absurd hb (hp decoder)
        | done data => simp [takeSymbol]
    all_goals
      have hlt := (List.getElem?_eq_some_iff.mp hb).1
      simp only [h, setBlock_blocks, List.getElem?_set_self hlt, hb, Option.map_some, if_true,
        takeSymbol, hc]
    all_goals simp only [hr]
  · have hid : (fun s => if frame.header.blockIndex.toNat = k then
        takeSymbol s (rq.deserialize frame.payload) else s) = id := by
      funext s
      rw [if_neg hk, id]
    rw [hid, Option.map_id, id]
    rcases d.addSymbol_cases frame with ⟨-, h⟩ | ⟨_, -, ⟨_, -, h⟩ | ⟨_, _, -, -, h⟩ | ⟨_, -, -, h⟩⟩ <;>
      simp [h, hk]

/-! ### The bitmaps -/

lemma length_bitmap_of_lt {k : ℕ} (hk : k < d.chunkMap.blocks.length) :
    (d.bitmap k).length = d.params.bitmapLen := by
  have hk' : k < d.held.length := by rw [d.length_held]; exact hk
  rw [bitmap, List.getD_eq_getElem?_getD, List.getElem?_eq_getElem hk', Option.getD_some]
  exact d.length_bitmap _ (List.getElem_mem hk')

/-- A symbol of the session has a bit in every bitmap. -/
lemma lt_of_lt_total {k : ℕ} (hk : k < d.chunkMap.blocks.length) {s : UInt32}
    (hs : s < d.params.totalSymbolsPerBlock) : s.toNat < 8 * (d.bitmap k).length := by
  have hs' : s.toNat < d.params.totalSymbolsPerBlock.toNat := hs
  rw [d.length_bitmap_of_lt hk, SessionParams.bitmapLen]
  omega

lemma bitmap_setBit (k i j : ℕ) :
    (d.setBit k i).bitmap j = if k = j then Bitmap.set (d.bitmap j) i else d.bitmap j := by
  simp only [bitmap, setBit, List.getD_eq_getElem?_getD, List.getElem?_modify]
  cases d.held[j]? with
  | none => simp [Bitmap.set]
  | some bm => by_cases hk : k = j <;> simp [hk]

lemma symbolsHeld_setBit {k : ℕ} (hk : k < d.chunkMap.blocks.length) (i j : ℕ) :
    (d.setBit k i).symbolsHeld j =
      if k = j then d.symbolsHeld j + 1 else d.symbolsHeld j := by
  have hk' : k < d.heldCounts.length := by rw [d.length_heldCounts]; exact hk
  simp only [symbolsHeld, setBit, List.getD_eq_getElem?_getD, List.getElem?_modify]
  by_cases hj : k = j
  · subst hj
    simp [List.getElem?_eq_getElem hk']
  · simp [hj]

/-- Marking a symbol sets its bit when it is inside the bitmap, and nothing else. -/
lemma bit_markHeld {k : ℕ} (hk : k < d.chunkMap.blocks.length) (s : UInt32) (m j : ℕ) :
    Bitmap.bit ((d.markHeld k s).1.bitmap m) j = (Bitmap.bit (d.bitmap m) j ||
      (decide (j < d.params.totalSymbolsPerBlock.toNat) && (k == m && s.toNat == j))) := by
  rcases d.markHeld_cases k s with ⟨hc, h⟩ | ⟨hs, -, h⟩
  · rw [h]
    rcases hc with ht | hb
    · have ht' : d.params.totalSymbolsPerBlock.toNat ≤ s.toNat := ht
      by_cases hj : s.toNat = j
      · simp [show ¬j < d.params.totalSymbolsPerBlock.toNat by omega]
      · simp [hj]
    · by_cases hm : k = m ∧ s.toNat = j
      · obtain ⟨rfl, rfl⟩ := hm
        simp [hb]
      · rw [not_and_or] at hm
        rcases hm with hm | hm <;> simp [hm]
  · have hs' : s.toNat < d.params.totalSymbolsPerBlock.toNat := hs
    rw [h, bitmap_setBit]
    by_cases hm : k = m
    · subst hm
      rw [if_pos rfl, Bitmap.bit_set (d.lt_of_lt_total hk hs)]
      by_cases hj : s.toNat = j
      · subst hj
        simp [hs']
      · simp [hj]
    · simp [hm]

/-! ### One call of accept -/

lemma accept_of_error {bytes : Str} {e : CodecError} (h : d.screen b3 bytes = .error e) :
    d.accept b3 bytes = (.err e, d) := by
  simp only [accept, h]

lemma accept_of_ok {bytes : Str} {frame : Frame} (h : d.screen b3 bytes = .ok frame) :
    d.accept b3 bytes = (d.record frame bytes).addSymbol frame := by
  simp only [accept, h]

/-- The session of a decoder never changes. -/
lemma accept_toPipeline (bytes : Str) : (d.accept b3 bytes).2.toPipeline = d.toPipeline := by
  cases h : d.screen b3 bytes with
  | error e => rw [d.accept_of_error h]
  | ok frame => rw [d.accept_of_ok h, (addSymbol_eq _ _).1, record_toPipeline]

lemma bitmap_accept_of_ok {bytes : Str} {frame : Frame} (h : d.screen b3 bytes = .ok frame)
    (k : ℕ) : (d.accept b3 bytes).2.bitmap k =
      (d.markHeld frame.header.blockIndex.toNat frame.header.symbolIndex).1.bitmap k := by
  rw [d.accept_of_ok h, bitmap, (addSymbol_eq _ _).2.1]
  rfl

lemma symbolsHeld_accept_of_ok {bytes : Str} {frame : Frame} (h : d.screen b3 bytes = .ok frame)
    (k : ℕ) : (d.accept b3 bytes).2.symbolsHeld k =
      (d.markHeld frame.header.blockIndex.toNat frame.header.symbolIndex).1.symbolsHeld k := by
  rw [d.accept_of_ok h, symbolsHeld, (addSymbol_eq _ _).2.2.1]
  rfl

lemma journal_accept_of_ok {bytes : Str} {frame : Frame} (h : d.screen b3 bytes = .ok frame) :
    (d.accept b3 bytes).2.journal = d.journal.update bytes := by
  rw [d.accept_of_ok h, (addSymbol_eq _ _).2.2.2, record_journal]

lemma blocks_accept_of_ok {bytes : Str} {frame : Frame} (h : d.screen b3 bytes = .ok frame)
    (k : ℕ) : (d.accept b3 bytes).2.blocks[k]? = d.blocks[k]?.map fun s =>
      if frame.header.blockIndex.toNat = k then takeSymbol s (rq.deserialize frame.payload)
      else s := by
  rw [d.accept_of_ok h, addSymbol_blocks, record_blocks]

/-! ### Runs

What a sequence of calls leaves is a function of the frames that passed the checks. -/

@[simp] lemma run_nil : d.run b3 [] = d := rfl

@[simp] lemma run_cons (bytes : Str) (frames : List Str) :
    d.run b3 (bytes :: frames) = (d.accept b3 bytes).2.run b3 frames := rfl

lemma run_append (as bs : List Str) : d.run b3 (as ++ bs) = (d.run b3 as).run b3 bs := by
  simp [run]

/-- The results of a run are those of its calls, each in the state the calls before it left. -/
lemma mem_results {frames : List Str} {r : AcceptResult} :
    r ∈ d.results b3 frames ↔ ∃ pre bytes post, frames = pre ++ bytes :: post ∧
      r = ((d.run b3 pre).accept b3 bytes).1 := by
  induction frames generalizing d with
  | nil => simp [results]
  | cons bytes frames ih =>
    rw [results, List.mem_cons, ih]
    constructor
    · rintro (rfl | ⟨pre, b, post, rfl, rfl⟩)
      · exact ⟨[], bytes, frames, rfl, rfl⟩
      · exact ⟨bytes :: pre, b, post, rfl, rfl⟩
    · rintro ⟨pre, b, post, he, rfl⟩
      cases pre with
      | nil =>
        cases he
        exact .inl rfl
      | cons b' pre =>
        cases he
        exact .inr ⟨pre, b, post, rfl, rfl⟩

lemma run_toPipeline (frames : List Str) : (d.run b3 frames).toPipeline = d.toPipeline := by
  induction frames generalizing d with
  | nil => rfl
  | cons bytes frames ih => rw [run_cons, ih, accept_toPipeline]

/-- The digest absorbs the accepted byte strings back to back. -/
theorem run_journal (frames : List Str) :
    (d.run b3 frames).journal.state = d.journal.state ++ (d.taken b3 frames).flatten := by
  induction frames generalizing d with
  | nil => simp
  | cons bytes frames ih =>
    rw [run_cons, ih, accept_toPipeline]
    cases h : d.screen b3 bytes with
    | error e => rw [d.accept_of_error h, Pipeline.taken_cons_of_error h]
    | ok frame =>
      rw [journal_accept_of_ok d h, Pipeline.taken_cons_of_ok h, List.flatten_cons,
        Blake3Hasher.update_state, List.append_assoc]

/-- A bit is set when it was or an accepted frame names its symbol. -/
theorem run_bit (frames : List Str) (k j : ℕ) :
    Bitmap.bit ((d.run b3 frames).bitmap k) j =
      (Bitmap.bit (d.bitmap k) j || d.names b3 k j frames) := by
  induction frames generalizing d with
  | nil => simp [Pipeline.names]
  | cons bytes frames ih =>
    rw [run_cons, ih, accept_toPipeline]
    cases h : d.screen b3 bytes with
    | error e => rw [d.accept_of_error h, Pipeline.names, Pipeline.names,
        Pipeline.takenFrames_cons_of_error h]
    | ok frame =>
      have hk := ((Pipeline.screen_eq_ok_iff b3 d.toPipeline).mp h).2.blockIndex_lt
      rw [bitmap_accept_of_ok d h, bit_markHeld d hk, Pipeline.names, Pipeline.names,
        Pipeline.takenFrames_cons_of_ok h, List.any_cons, Bool.and_or_distrib_left, Bool.or_assoc]

/-- A block's state is what its packets, in order, make of its initial state. -/
theorem run_blocks (frames : List Str) (k : ℕ) :
    (d.run b3 frames).blocks[k]? =
      d.blocks[k]?.map fun s => (d.packetsOf b3 rq k frames).foldl takeSymbol s := by
  induction frames generalizing d with
  | nil => simp [Pipeline.packetsOf]
  | cons bytes frames ih =>
    rw [run_cons, ih, accept_toPipeline]
    cases h : d.screen b3 bytes with
    | error e => rw [d.accept_of_error h, Pipeline.packetsOf, Pipeline.packetsOf,
        Pipeline.takenFrames_cons_of_error h]
    | ok frame =>
      rw [blocks_accept_of_ok d h, Option.map_map, Pipeline.packetsOf, Pipeline.packetsOf,
        Pipeline.takenFrames_cons_of_ok h]
      congr 1
      funext s
      by_cases hk : frame.header.blockIndex.toNat = k <;> simp [hk]

/-! ### Runs in which every call returns `Ok` -/

def AllOk (b3 : Blake3) (d : PipelineDecoder rq) (s : List Str) : Prop :=
  ∀ r ∈ d.results b3 s, ∃ outcome, r = .ok outcome

lemma results_append (as bs : List Str) :
    d.results b3 (as ++ bs) = d.results b3 as ++ (d.run b3 as).results b3 bs := by
  induction as generalizing d with
  | nil => rfl
  | cons bytes as ih => rw [List.cons_append, results, ih, results, List.cons_append, run_cons]

lemma allOk_append_iff {as bs : List Str} :
    d.AllOk b3 (as ++ bs) ↔ d.AllOk b3 as ∧ (d.run b3 as).AllOk b3 bs := by
  unfold AllOk
  rw [results_append]
  exact List.forall_mem_append

lemma allOk_cons_iff {bytes : Str} {s : List Str} :
    d.AllOk b3 (bytes :: s) ↔
      (∃ outcome, (d.accept b3 bytes).1 = .ok outcome) ∧ (d.accept b3 bytes).2.AllOk b3 s := by
  unfold AllOk
  rw [results]
  exact List.forall_mem_cons

end PipelineDecoder
end Dhow
