import Dhow.Capture
import Dhow.Castagnoli
import Dhow.Poisoning

/-!
# The pre-filter and the core

The capture side reads the header of a frame at its own offsets, with its own checksum. On a
string as long as its header says it refuses nothing that the core accepts, and names the same
position.
-/

namespace Dhow
open Bytes

/-- A frame whose header describes its payload. -/
structure Frame.Coherent (f : Frame) : Prop where
  length_payload : f.payload.length = f.header.payloadLength.toNat
  digest_payload : crc32cDigest f.payload = f.header.crc32c

namespace Capture

lemma accept_toVec {f : Frame} (h : f.Coherent) :
    (Prefilter.mk f.header.sessionId).accept f.toVec = .ok () := by
  obtain ⟨r1, r2, -, -, r5, -, -, -, r9, r10⟩ := f.header.reads_toVec_append f.payload
  have hlen : f.toVec.length = headerSize + f.payload.length := by
    rw [Frame.toVec, List.length_append, FrameHeader.length_toVec]
    rfl
  have hmagic : arrAt 4 f.toVec offsetMagic = frameMagic := r1.trans f.header.magic_eq
  have hversion : u8At f.toVec offsetVersion = frameVersion := r2.trans f.header.version_eq
  have hsession : arrAt 16 f.toVec offsetSessionID = f.header.sessionId := r5
  have hdeclared : u16At f.toVec offsetPayloadLen = f.header.payloadLength := r9
  have hcrc : u32At f.toVec offsetCRC = f.header.crc32c := r10
  have hpayload : f.toVec.drop headerSize = f.payload :=
    List.drop_left' f.header.length_toVec
  rw [Prefilter.accept, if_neg (by omega), if_neg (not_not.mpr hmagic),
    if_neg (not_not.mpr hversion), if_neg (not_not.mpr hsession), hdeclared, hcrc, hpayload]
  dsimp only
  rw [if_neg (not_not.mpr (by rw [hlen, h.length_payload, Nat.add_sub_cancel_left])),
    if_neg (not_not.mpr h.digest_payload)]

lemma position_toVec (f : Frame) :
    position f.toVec = some (f.header.blockIndex, f.header.symbolIndex) := by
  obtain ⟨-, -, -, -, -, -, r7, r8, -, -⟩ := f.header.reads_toVec_append f.payload
  have hlen : headerSize ≤ f.toVec.length := by
    rw [Frame.toVec, List.length_append, FrameHeader.length_toVec]
    exact Nat.le_add_right _ _
  rw [position, if_neg (Nat.not_lt.mpr hlen), Option.some.injEq, Prod.mk.injEq]
  exact ⟨r7, r8⟩

/-- A string as long as its header says is the frame the core reads from it. -/
lemma eq_toVec_of_fromBytes {b3 : Blake3} {bytes : Str} {key : Arr 32} {f : Frame}
    (h : Frame.fromBytes b3 bytes key = .ok f)
    (hlen : bytes.length = frameHeaderSize + (u16At bytes 40).toNat) :
    f.Coherent ∧ bytes = f.toVec := by
  obtain ⟨-, hpay, hcrc, rest, rfl⟩ := (Frame.fromBytes_eq_ok_iff b3 bytes key f).mp h
  obtain ⟨-, -, -, -, -, -, -, -, r9, -⟩ := f.header.reads_toVec_append (f.payload ++ rest)
  rw [← List.append_assoc] at r9
  change u16At (f.toVec ++ rest) 40 = _ at r9
  rw [r9, ← hpay, List.length_append, Frame.toVec, List.length_append, FrameHeader.length_toVec]
    at hlen
  have hrest : rest = [] := List.eq_nil_of_length_eq_zero (by omega)
  rw [hrest, List.append_nil]
  exact ⟨⟨hpay, hcrc⟩, rfl⟩

/-- The bytes of a symbol's frame are a coherent frame of the session at its position. -/
lemma exists_of_isSymbolFrame {b3 : Blake3} {rq : RaptorQ} {p : Pipeline} {payload bytes : Str}
    {i j : ℕ} {block : BlockInfo} {packet : rq.Packet}
    (h : p.IsSymbolFrame b3 rq payload bytes i j block packet) :
    ∃ f, Frame.fromBytes b3 bytes p.sessionKey = .ok f ∧ bytes = f.toVec ∧ f.Coherent ∧
      f.header.sessionId = p.sessionId ∧ f.header.blockIndex = UInt32.ofNat i ∧
      f.header.symbolIndex = UInt32.ofNat j := by
  obtain ⟨hle, rfl⟩ := h.frame_eq
  have hparse := Frame.fromBytes_build b3 p.sessionKey .repair p.sessionId (UInt32.ofNat i)
    (UInt32.ofNat j) (rq.serialize packet) hle []
  simp only [List.append_nil] at hparse
  obtain ⟨-, hlen, hcrc, -⟩ := (Frame.fromBytes_eq_ok_iff _ _ _ _).mp hparse
  exact ⟨_, hparse, rfl, ⟨hlen, hcrc⟩, rfl, rfl, rfl⟩

/-- What the core accepts the pre-filter lets through, with the position the core reads, and so
every frame that a sender emits. The checksum on both sides is the standard one. -/
theorem prefilter_agrees (b3 : Blake3) (rq : RaptorQ) :
    (∀ data, crc32cDigest data = Castagnoli.checksum data) ∧
      (∀ (d : PipelineDecoder rq) (bytes : Str) (outcome : FrameOutcome),
        bytes.length = frameHeaderSize + (u16At bytes 40).toNat →
        (d.accept b3 bytes).1 = .ok outcome →
          (Prefilter.mk d.sessionId).accept bytes = .ok () ∧
          ∃ f, d.screen b3 bytes = .ok f ∧
            position bytes = some (f.header.blockIndex, f.header.symbolIndex)) ∧
      ∀ (p : Pipeline) (payload : Str) (frames : List Str),
        p.encodeToBytes b3 rq payload = .ok frames → ∀ bytes ∈ frames,
          (Prefilter.mk p.sessionId).accept bytes = .ok () ∧
          (∃ i j block packet, p.IsSymbolFrame b3 rq payload bytes i j block packet ∧
            position bytes = some (UInt32.ofNat i, UInt32.ofNat j)) ∧
          (∃ f, Frame.fromBytes b3 bytes p.sessionKey = .ok f) ∧
          (p.RaptorQIdeal rq payload → ∀ s ⊆ frames,
            ∃ outcome, (((PipelineDecoder.start rq p).run b3 s).accept b3 bytes).1 =
              .ok outcome) := by
  refine ⟨crc32cDigest_eq_checksum, ?_, ?_⟩
  · intro d bytes outcome hlen haccept
    cases hscreen : d.screen b3 bytes with
    | error e =>
      rw [d.accept_of_error hscreen] at haccept
      cases haccept
    | ok f =>
      obtain ⟨hparse, hadmits⟩ := (Pipeline.screen_eq_ok_iff b3 d.toPipeline).mp hscreen
      obtain ⟨hf, rfl⟩ := eq_toVec_of_fromBytes hparse hlen
      rw [← hadmits.sessionId_eq]
      exact ⟨accept_toVec hf, f, rfl, position_toVec f⟩
  · intro p payload frames hf bytes hb
    obtain ⟨i, j, block, packet, hframe⟩ := (Pipeline.mem_encodeToBytes hf).mp hb
    obtain ⟨f, hparse, rfl, hcoherent, hsession, hblock, hsymbol⟩ := exists_of_isSymbolFrame hframe
    refine ⟨?_, ⟨i, j, block, packet, hframe, ?_⟩, ⟨f, hparse⟩, ?_⟩
    · rw [← hsession]
      exact accept_toVec hcoherent
    · rw [position_toVec, hblock, hsymbol]
    · intro hideal s hs
      exact PipelineDecoder.accept_genuine hf hideal hs hb

/-- The first frame of the reference session. -/
theorem prefilter_agrees_reference :
    (Prefilter.mk Reference.sessionId).accept Reference.firstFrame.toVec = .ok () ∧
      ∃ f, Reference.decoder.screen Reference.b3 Reference.firstFrame.toVec = .ok f ∧
        position Reference.firstFrame.toVec =
          some (f.header.blockIndex, f.header.symbolIndex) := by
  obtain ⟨-, haccepted, hemitted⟩ := prefilter_agrees Reference.b3 Reference.rq
  obtain ⟨-, -, -, hcore⟩ := hemitted Reference.pipeline Reference.payload Reference.frames
    Reference.encodeToBytes_eq _ Reference.firstFrame_mem
  obtain ⟨outcome, hok⟩ := hcore Reference.ideal [] (List.nil_subset _)
  exact haccepted Reference.decoder _ outcome rfl hok

end Capture
end Dhow
