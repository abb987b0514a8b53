import Dhow.Poisoning

/-!
# Rejection

What a call that does not accept its frame leaves behind. A refused frame leaves the decoder as
it was. The checks bound a symbol's payload from below only, so a frame that passes them can
still carry a packet outside its block's configuration; the decoder has recorded the frame when
RaptorQ panics on it.
-/

namespace Dhow
open Bytes

/-- The statuses of the foreign interface that accepting a frame can return. -/
inductive DhowStatus
  | ok
  | frameRejected
  | panic
  deriving DecidableEq

namespace PipelineDecoder
variable {rq : RaptorQ} {b3 : Blake3}

/-- `dhow_decoder_accept` on a live handle and a readable frame. The handle keeps the decoder a
caught panic left. -/
def dhowDecoderAccept (b3 : Blake3) (d : PipelineDecoder rq) (frame : Str) :
    DhowStatus × PipelineDecoder rq :=
  match d.accept b3 frame with
  | (.ok _, d) => (.ok, d)
  | (.err _, d) => (.frameRejected, d)
  | (.panic, d) => (.panic, d)

/-- The packet a call hands to RaptorQ, with the index of its block. -/
def handed (b3 : Blake3) (d : PipelineDecoder rq) (bytes : Str) : Option (ℕ × rq.Packet) :=
  match d.screen b3 bytes with
  | .error _ => none
  | .ok frame =>
    match d.blocks[frame.header.blockIndex.toNat]? with
    | some (.pending _) => some (frame.header.blockIndex.toNat, rq.deserialize frame.payload)
    | _ => none

/-- An authentic frame for a pending block whose first payload byte is no source block of the
block's configuration, or whose payload is not an identifier and one symbol. -/
structure Misfit (b3 : Blake3) (d : PipelineDecoder rq) (bytes : Str) (f : Frame)
    (block : BlockInfo) : Prop where
  parsed : Frame.fromBytes b3 bytes d.sessionKey = .ok f
  admitted : d.Admits f
  block_eq : d.chunkMap.blocks[f.header.blockIndex.toNat]? = some block
  pending : ∃ decoder, d.blocks[f.header.blockIndex.toNat]? = some (.pending decoder)
  misfit : rq.sourceBlocks (d.config rq block) ≤ (u8At f.payload 0).toNat ∨
    f.payload.length ≠ payloadIdLen + rq.symbolSize (d.config rq block)

/-- Some string of this form. -/
def IsMisfit (b3 : Blake3) (d : PipelineDecoder rq) (bytes : Str) : Prop :=
  ∃ f block, d.Misfit b3 bytes f block

variable (d : PipelineDecoder rq)

/-- A call that hands RaptorQ nothing leaves every block as it was, and does not panic. -/
lemma accept_of_handed_eq_none {bytes : Str} (h : d.handed b3 bytes = none) :
    (d.accept b3 bytes).1 ≠ .panic ∧ (d.accept b3 bytes).2.blocks = d.blocks := by
  cases hs : d.screen b3 bytes with
  | error e => simp [d.accept_of_error hs]
  | ok f =>
    rw [d.accept_of_ok hs]
    rcases (d.record f bytes).addSymbol_cases f with ⟨-, ha⟩ | ⟨decoder, hp, -⟩
    · rw [ha]
      exact ⟨by simp, record_blocks d f bytes⟩
    · rw [record_blocks] at hp
      simp [handed, hs, hp] at h

/-- A call that hands RaptorQ a packet adds it to its block's pending decoder. -/
lemma accept_of_handed_eq_some {bytes : Str} {k : ℕ} {packet : rq.Packet}
    (h : d.handed b3 bytes = some (k, packet)) :
    ∃ decoder, d.blocks[k]? = some (.pending decoder) ∧
      ((d.accept b3 bytes).1 = .panic ↔ ∃ d', rq.addNewPacket decoder packet = .panicked d') ∧
      (d.accept b3 bytes).2.blocks[k]? = some (takeSymbol (.pending decoder) packet) := by
  cases hs : d.screen b3 bytes with
  | error e => simp [handed, hs] at h
  | ok f =>
    have hblocks := blocks_accept_of_ok d hs
    rw [d.accept_of_ok hs] at hblocks ⊢
    rcases (d.record f bytes).addSymbol_cases f with ⟨hp, -⟩ | ⟨decoder, hp, hcase⟩
    · exfalso
      rw [record_blocks] at hp
      rw [handed, hs] at h
      simp only at h
      cases h
    · rw [record_blocks] at hp
      simp only [handed, hs, hp, Option.some.injEq, Prod.mk.injEq] at h
      obtain ⟨rfl, rfl⟩ := h
      refine ⟨decoder, hp, ?_, ?_⟩
      · rcases hcase with ⟨d', hc, ha⟩ | ⟨d', data, hc, -, ha⟩ | ⟨d', hc, -, ha⟩ <;> simp [ha, hc]
      · rw [hblocks, hp, Option.map_some, if_pos rfl]

/-- A decoder still pending was fed every packet its block was given. -/
lemma eq_feed_of_foldl_takeSymbol {cfg : rq.Config} {ps : List rq.Packet} {decoder : rq.Decoder}
    (h : ps.foldl takeSymbol (.pending (rq.newDecoder cfg) : BlockState rq) = .pending decoder) :
    decoder = rq.feed cfg ps := by
  induction ps using List.reverseRecOn generalizing decoder with
  | nil =>
    cases h
    rfl
  | append_singleton ps p ih =>
    rw [List.foldl_append, List.foldl_cons, List.foldl_nil] at h
    rw [RaptorQ.feed_append_singleton]
    cases hs : ps.foldl takeSymbol (.pending (rq.newDecoder cfg) : BlockState rq) with
    | done data => rw [hs] at h; cases h
    | pending d' =>
      rw [hs, ih hs] at h
      simp only [takeSymbol] at h
      split at h
      next d'' hc => cases h; rw [hc]; rfl
      next d'' hc =>
        split at h
        · cases h
        · cases h; rw [hc]; rfl

lemma eq_feed_of_run_start {p : Pipeline} {s : List Str} {k : ℕ} {block : BlockInfo}
    {decoder : rq.Decoder} (hk : p.chunkMap.blocks[k]? = some block)
    (h : ((start rq p).run b3 s).blocks[k]? = some (.pending decoder)) :
    ∃ ps, decoder = rq.feed (p.config rq block) ps := by
  rw [run_start_blocks s hk, Option.some.injEq, initialBlock] at h
  by_cases hz : block.size = 0
  · rw [if_pos hz, foldl_takeSymbol_done] at h
    cases h
  · rw [if_neg hz] at h
    exact ⟨_, eq_feed_of_foldl_takeSymbol h⟩

/-! ### Exactly the misfits get through -/

section Reached
variable {p : Pipeline} {s : List Str} {bytes : Str}

lemma handed_of_misfit {f : Frame} {block : BlockInfo} (h : d.Misfit b3 bytes f block) :
    d.handed b3 bytes = some (f.header.blockIndex.toNat, rq.deserialize f.payload) := by
  obtain ⟨decoder, hp⟩ := h.pending
  have hs := (Pipeline.screen_eq_ok_iff b3 d.toPipeline).mpr ⟨h.parsed, h.admitted⟩
  simp only [handed, hs, hp]

lemma shaped_deserialize_iff (hwire : rq.WireFormat) {cfg : rq.Config} {payload : Str}
    (hlen : payloadIdLen < payload.length) :
    rq.Shaped cfg (rq.deserialize payload) ↔
      (u8At payload 0).toNat < rq.sourceBlocks cfg ∧
        payload.length = payloadIdLen + rq.symbolSize cfg := by
  have h4 : 4 < payload.length := hlen
  have hiff : payload.length - 4 = rq.symbolSize cfg ↔
      payload.length = payloadIdLen + rq.symbolSize cfg := by
    unfold payloadIdLen
    omega
  constructor
  · rintro ⟨h0, hl⟩
    rw [hwire.sourceBlockNumber_deserialize payload h4] at h0
    rw [hwire.data_deserialize payload h4, List.length_drop] at hl
    exact ⟨h0, hiff.mp hl⟩
  · rintro ⟨h0, hl⟩
    constructor
    · rwa [hwire.sourceBlockNumber_deserialize payload h4]
    · rw [hwire.data_deserialize payload h4, List.length_drop]
      exact hiff.mpr hl

/-- A packet handed over is out of shape exactly when the string is a misfit. -/
lemma exists_handed_not_shaped_iff (hwire : rq.WireFormat) :
    (∃ k packet block, d.handed b3 bytes = some (k, packet) ∧
      d.chunkMap.blocks[k]? = some block ∧ ¬rq.Shaped (d.config rq block) packet) ↔
      d.IsMisfit b3 bytes := by
  constructor
  · rintro ⟨k, packet, block, hh, hb, hns⟩
    cases hs : d.screen b3 bytes with
    | error e => simp [handed, hs] at hh
    | ok f =>
      obtain ⟨hparse, hadmit⟩ := (Pipeline.screen_eq_ok_iff b3 d.toPipeline).mp hs
      obtain ⟨decoder, hp, -⟩ := d.accept_of_handed_eq_some hh
      have hk : f.header.blockIndex.toNat = k ∧ rq.deserialize f.payload = packet := by
        simp only [handed, hs] at hh
        split at hh
        · simpa using hh
        · cases hh
      obtain ⟨rfl, rfl⟩ := hk
      refine ⟨f, block, hparse, hadmit, hb, ⟨decoder, hp⟩, ?_⟩
      rwa [shaped_deserialize_iff hwire hadmit.payload_gt, not_and_or, Nat.not_lt] at hns
  · rintro ⟨f, block, h⟩
    refine ⟨_, _, block, handed_of_misfit d h, h.block_eq, ?_⟩
    rw [shaped_deserialize_iff hwire h.admitted.payload_gt, not_and_or, Nat.not_lt]
    exact h.misfit

/-- A misfit makes the call panic, if packets out of shape make RaptorQ panic. -/
lemma accept_eq_panic_of_misfit (hwire : rq.WireFormat)
    (hpanic : ∀ cfg packets packet, ¬rq.Shaped cfg packet →
      ∃ d', rq.addNewPacket (rq.feed cfg packets) packet = .panicked d')
    (h : ((start rq p).run b3 s).IsMisfit b3 bytes) :
    (((start rq p).run b3 s).accept b3 bytes).1 = .panic := by
  obtain ⟨k, packet, block, hh, hb, hns⟩ := (exists_handed_not_shaped_iff _ hwire).mpr h
  obtain ⟨decoder, hp, hiff, -⟩ := accept_of_handed_eq_some _ hh
  rw [run_toPipeline] at hb hns
  obtain ⟨ps, rfl⟩ := eq_feed_of_run_start hb hp
  exact hiff.mpr (hpanic _ ps packet hns)

/-- A call panics exactly on a misfit. -/
lemma accept_eq_panic_iff (hwire : rq.WireFormat) (hpanic : rq.PanicsOnMisshapen) :
    (((start rq p).run b3 s).accept b3 bytes).1 = .panic ↔
      ((start rq p).run b3 s).IsMisfit b3 bytes := by
  refine ⟨fun h => ?_, accept_eq_panic_of_misfit hwire fun cfg ps packet =>
    (hpanic cfg ps packet).mpr⟩
  set d := (start rq p).run b3 s with hd
  have hpipe : d.toPipeline = p := run_toPipeline _ _
  rw [← exists_handed_not_shaped_iff d hwire]
  cases hh : d.handed b3 bytes with
  | none => exact absurd h (d.accept_of_handed_eq_none hh).1
  | some kp =>
    obtain ⟨k, packet⟩ := kp
    obtain ⟨decoder, hp, hiff, -⟩ := d.accept_of_handed_eq_some hh
    have hlt := (List.getElem?_eq_some_iff.mp hp).1
    rw [d.length_blocks] at hlt
    have hb := d.chunkMap.blocks_getElem? hlt
    obtain ⟨ps, rfl⟩ := eq_feed_of_run_start (hpipe ▸ hb) hp
    refine ⟨k, packet, _, rfl, hb, ?_⟩
    rw [hpipe] at *
    exact (hpanic _ ps packet).mp (hiff.mp h)

end Reached

end PipelineDecoder

namespace Reference

/-- The first genuine payload with a source block number the block does not have. -/
def misfitPayload : Str := [1, 0, 0, 0] ++ ([0x44, 0x68] ++ List.replicate 62 0)

/-- The first genuine frame with that payload and its checksum. -/
def misfitFrame : Frame :=
  Frame.build b3 (.new .repair sessionId 0 0 misfitPayload (by decide)) misfitPayload sessionKey

def misfit : Str := misfitFrame.toVec

/-- What an attacker puts on the screen differs from the first genuine frame in the block number
and the checksum only. -/
example : misfitFrame.header.macInput = firstFrame.header.macInput := by decide +kernel

end Reference

namespace PipelineDecoder
variable {rq : RaptorQ} {b3 : Blake3} (d : PipelineDecoder rq)

/-! ### Atomicity -/

/-- The strings of a sequence of calls that returned `Ok`: what a receiver journals. -/
def okFrames (b3 : Blake3) (d : PipelineDecoder rq) : List Str → List Str
  | [] => []
  | bytes :: frames =>
    let (status, d') := d.dhowDecoderAccept b3 bytes
    if status = .ok then bytes :: okFrames b3 d' frames else okFrames b3 d' frames

lemma dhowDecoderAccept_snd (b3 : Blake3) (bytes : Str) :
    (d.dhowDecoderAccept b3 bytes).2 = (d.accept b3 bytes).2 := by
  unfold dhowDecoderAccept
  split <;> simp_all

lemma dhowDecoderAccept_fst (b3 : Blake3) (bytes : Str) :
    (d.dhowDecoderAccept b3 bytes).1 = match (d.accept b3 bytes).1 with
      | .ok _ => .ok
      | .err _ => .frameRejected
      | .panic => .panic := by
  unfold dhowDecoderAccept
  split <;> simp_all

/-- Only a refused frame returns an error, and it leaves the decoder as it was. -/
lemma eq_of_accept_eq_err {bytes : Str} {e : CodecError} (h : (d.accept b3 bytes).1 = .err e) :
    (d.accept b3 bytes).2 = d := by
  cases hs : d.screen b3 bytes with
  | error e => rw [d.accept_of_error hs]
  | ok f =>
    rw [d.accept_of_ok hs] at h
    rcases (d.record f bytes).addSymbol_cases f with
      ⟨-, ha⟩ | ⟨_, -, ⟨_, -, ha⟩ | ⟨_, _, -, -, ha⟩ | ⟨_, -, -, ha⟩⟩ <;>
    · rw [ha] at h
      cases h

/-- A call that does not return `Ok` leaves the decoder's record alone unless it panics, whatever
RaptorQ does. -/
lemma atomic_iff_not_panic {bytes : Str}
    (hcf : b3.hash (d.journal.state ++ bytes) = b3.hash d.journal.state →
      d.journal.state ++ bytes = d.journal.state) :
    ((d.dhowDecoderAccept b3 bytes).1 ≠ .ok →
      (d.dhowDecoderAccept b3 bytes).2.blocks = d.blocks ∧
      (d.dhowDecoderAccept b3 bytes).2.held = d.held ∧
      (d.dhowDecoderAccept b3 bytes).2.heldCounts = d.heldCounts ∧
      (d.dhowDecoderAccept b3 bytes).2.journalDigest b3 = d.journalDigest b3) ↔
      (d.accept b3 bytes).1 ≠ .panic := by
  have hfst := d.dhowDecoderAccept_fst b3 bytes
  cases hr : (d.accept b3 bytes).1 with
  | ok o =>
    rw [hr] at hfst
    exact ⟨fun _ => by simp, fun _ hne => absurd hfst hne⟩
  | err e =>
    rw [dhowDecoderAccept_snd, d.eq_of_accept_eq_err hr]
    exact ⟨fun _ => by simp, fun _ _ => ⟨rfl, rfl, rfl, rfl⟩⟩
  | panic =>
    -- the digest moved: the panicking call had recorded the frame
    rw [hr] at hfst
    refine ⟨fun hatomic => ?_, fun h => absurd rfl h⟩
    have hdig := (hatomic (by rw [hfst]; simp)).2.2.2
    cases hs : d.screen b3 bytes with
    | error e =>
      rw [d.accept_of_error hs] at hr
      cases hr
    | ok f =>
      have hparse := ((Pipeline.screen_eq_ok_iff b3 d.toPipeline).mp hs).1
      rw [dhowDecoderAccept_snd, journalDigest, journal_accept_of_ok d hs] at hdig
      have hnil : bytes = [] := by simpa using hcf hdig
      rw [hnil] at hparse
      simp [Frame.fromBytes, FrameHeader.fromBytes, frameHeaderSize] at hparse

/-- Where no call panics, the accepted strings reproduce the decoder. -/
lemma run_okFrames {frames : List Str} (h : .panic ∉ d.results b3 frames) :
    d.run b3 (d.okFrames b3 frames) = d.run b3 frames := by
  induction frames generalizing d with
  | nil => rfl
  | cons bytes frames ih =>
    rw [results, List.mem_cons, not_or] at h
    have ih := ih _ h.2
    have hfst := d.dhowDecoderAccept_fst b3 bytes
    simp only [okFrames, dhowDecoderAccept_snd]
    cases hr : (d.accept b3 bytes).1 with
    | ok o =>
      rw [hr] at hfst
      rw [if_pos hfst, run_cons, run_cons, ih]
    | err e =>
      rw [hr] at hfst
      rw [if_neg (by rw [hfst]; simp), run_cons]
      rw [d.eq_of_accept_eq_err hr] at ih ⊢
      exact ih
    | panic => exact absurd hr.symm h.1

/-- In every state a decoder can reach, a call that does not return `Ok` leaves the block states,
the bitmaps, the counters and the digest alone, unless its string is a misfit; and a run free of
misfits is reproduced by the strings it accepted. -/
theorem rejection_atomic_iff (b3 : Blake3) {sessionId : Arr 16} {params : SessionParams} {sessionKey : Arr 32}
    {d₀ : PipelineDecoder rq} (h₀ : new rq sessionId params sessionKey = .ok d₀)
    (hwire : rq.WireFormat) (hpanic : rq.PanicsOnMisshapen) (frames : List Str) :
    let d := d₀.run b3 frames
    (∀ bytes, (b3.hash (d.journal.state ++ bytes) = b3.hash d.journal.state →
        d.journal.state ++ bytes = d.journal.state) →
      (((d.dhowDecoderAccept b3 bytes).1 ≠ .ok →
        (d.dhowDecoderAccept b3 bytes).2.blocks = d.blocks ∧
        (d.dhowDecoderAccept b3 bytes).2.held = d.held ∧
        (d.dhowDecoderAccept b3 bytes).2.heldCounts = d.heldCounts ∧
        (d.dhowDecoderAccept b3 bytes).2.journalDigest b3 = d.journalDigest b3) ↔
        ¬d.IsMisfit b3 bytes)) ∧
    ((∀ pre bytes post, frames = pre ++ bytes :: post → ¬(d₀.run b3 pre).IsMisfit b3 bytes) →
      ∀ journalBytes, (d₀.run b3 (d₀.okFrames b3 frames)).resumeState b3 journalBytes =
        d.resumeState b3 journalBytes) := by
  have hstart := (new_eq_ok h₀).1
  have hpanics : ∀ pre bytes, ((d₀.run b3 pre).accept b3 bytes).1 = .panic ↔
      (d₀.run b3 pre).IsMisfit b3 bytes := by
    rw [hstart]
    exact fun pre bytes => accept_eq_panic_iff hwire hpanic
  intro d
  refine ⟨fun bytes hcf => ?_, fun hclean n => ?_⟩
  · rw [d.atomic_iff_not_panic hcf]
    exact not_congr (hpanics frames bytes)
  · have hno : .panic ∉ d₀.results b3 frames := by
      intro hmem
      obtain ⟨pre, bytes, post, he, hr⟩ := (mem_results _).mp hmem
      exact hclean pre bytes post he ((hpanics pre bytes).mp hr.symm)
    rw [d₀.run_okFrames hno]

theorem rejection_atomic_iff_reference :
    (¬((Reference.decoder.dhowDecoderAccept Reference.b3 Reference.misfit).1 ≠ .ok →
        (Reference.decoder.dhowDecoderAccept Reference.b3 Reference.misfit).2.heldCounts =
          Reference.decoder.heldCounts) ∧
      Reference.decoder.IsMisfit Reference.b3 Reference.misfit) ∧
    ∀ n, (Reference.decoder.run Reference.b3 (Reference.decoder.okFrames Reference.b3
        [Reference.firstFrame.toVec, Reference.misfit])).resumeState Reference.b3 n =
      (Reference.decoder.run Reference.b3
        [Reference.firstFrame.toVec, Reference.misfit]).resumeState Reference.b3 n := by
  have hne : Reference.b3.hash (Reference.decoder.journal.state ++ Reference.misfit) ≠
      Reference.b3.hash Reference.decoder.journal.state := by decide +kernel
  have hrejected := (rejection_atomic_iff Reference.b3 Reference.new_decoder_eq
    Systematic.wireFormat Systematic.panicsOnMisshapen []).1 Reference.misfit fun h =>
      absurd h hne
  simp only [run_nil] at hrejected
  have hchanged : ¬((Reference.decoder.dhowDecoderAccept Reference.b3 Reference.misfit).1 ≠ .ok →
      (Reference.decoder.dhowDecoderAccept Reference.b3 Reference.misfit).2.heldCounts =
        Reference.decoder.heldCounts) := by decide +kernel
  refine ⟨⟨hchanged, ?_⟩, ?_⟩
  · by_contra h
    exact hchanged fun hne => (hrejected.mpr h hne).2.2.1
  · refine (rejection_atomic_iff Reference.b3 Reference.new_decoder_eq Systematic.wireFormat
      Systematic.panicsOnMisshapen [Reference.firstFrame.toVec, Reference.misfit]).2 ?_
    intro pre bytes post he hm
    have hpanic := (accept_eq_panic_iff Systematic.wireFormat Systematic.panicsOnMisshapen).mpr hm
    have hmem : AcceptResult.panic ∈ Reference.decoder.results Reference.b3
        [Reference.firstFrame.toVec, Reference.misfit] :=
      (mem_results _).mpr ⟨pre, bytes, post, he, hpanic.symm⟩
    revert hmem
    decide +kernel

/-- The misfit is refused with a panic, and the counters and the digest have moved. -/
theorem misfit_not_atomic :
    new Reference.rq Reference.sessionId Reference.params Reference.sessionKey =
        .ok Reference.decoder ∧
      (Reference.decoder.dhowDecoderAccept Reference.b3 Reference.misfit).1 = .panic ∧
      (Reference.decoder.dhowDecoderAccept Reference.b3 Reference.misfit).2.held ≠
        Reference.decoder.held ∧
      (Reference.decoder.dhowDecoderAccept Reference.b3 Reference.misfit).2.heldCounts ≠
        Reference.decoder.heldCounts ∧
      (Reference.decoder.dhowDecoderAccept Reference.b3 Reference.misfit).2.journalDigest
          Reference.b3 ≠ Reference.decoder.journalDigest Reference.b3 :=
  ⟨rfl, by decide +kernel, by decide +kernel, by decide +kernel, by decide +kernel⟩

/-- Over a whole run, every packet handed to RaptorQ names a source block of its block's
configuration and carries one symbol, exactly when no string of the run is a misfit. -/
theorem handed_in_range_iff (b3 : Blake3) {sessionId : Arr 16} {params : SessionParams} {sessionKey : Arr 32}
    {d₀ : PipelineDecoder rq} (h₀ : new rq sessionId params sessionKey = .ok d₀)
    (hwire : rq.WireFormat) (halign : rq.Aligned) (frames : List Str) :
    (∀ pre bytes post, frames = pre ++ bytes :: post → ∀ k packet block,
      (d₀.run b3 pre).handed b3 bytes = some (k, packet) →
      d₀.chunkMap.blocks[k]? = some block →
      rq.sourceBlockNumber packet < rq.sourceBlocks (d₀.config rq block) ∧
        (rq.data packet).length = params.symbolSize.toNat - params.symbolSize.toNat % 8) ↔
    ∀ pre bytes post, frames = pre ++ bytes :: post → ¬(d₀.run b3 pre).IsMisfit b3 bytes := by
  have hparams : d₀.params = params := (Pipeline.new_eq_ok (new_eq_ok h₀).2).2.1
  have hsize : ∀ block, rq.symbolSize (d₀.config rq block) =
      params.symbolSize.toNat - params.symbolSize.toNat % 8 := by
    intro block
    have hlt : d₀.params.symbolSize.toNat < 2 ^ 16 := by
      have := d₀.symbolSize_bounds.2
      unfold maxFecSymbolSize maxPayloadLen payloadIdLen at this
      omega
    rw [Pipeline.config, configForBlock, halign, UInt32.toNat_toUInt16, Nat.mod_eq_of_lt hlt, hparams]
  refine forall_congr' fun pre => forall_congr' fun bytes => forall_congr' fun post =>
    imp_congr_right fun _ => ?_
  rw [← exists_handed_not_shaped_iff _ hwire, run_toPipeline]
  simp only [not_exists, not_and, not_not]
  refine forall_congr' fun k => forall_congr' fun packet => forall_congr' fun block =>
    imp_congr_right fun _ => imp_congr_right fun _ => ?_
  rw [← hsize block]
  exact ⟨fun h => ⟨h.1, h.2⟩, fun h => ⟨h.1, h.2⟩⟩

theorem handed_in_range_iff_reference :
    ∃ packet : Systematic.Packet,
      Reference.decoder.handed Reference.b3 Reference.firstFrame.toVec = some (0, packet) ∧
        packet.sourceBlockNumber < 1 ∧ packet.data.length = 64 := by
  have hfst : (Reference.decoder.handed Reference.b3 Reference.firstFrame.toVec).map Prod.fst =
      some 0 := by decide +kernel
  obtain ⟨⟨k, packet⟩, hh, rfl⟩ := Option.map_eq_some_iff.mp hfst
  refine ⟨packet, hh, (handed_in_range_iff Reference.b3 Reference.new_decoder_eq
    Systematic.wireFormat Systematic.aligned [Reference.firstFrame.toVec]).mpr ?_ []
    Reference.firstFrame.toVec [] rfl 0 packet _ hh rfl⟩
  intro pre bytes post he hm
  have hpanic := (accept_eq_panic_iff Systematic.wireFormat Systematic.panicsOnMisshapen).mpr hm
  have hmem : AcceptResult.panic ∈ Reference.decoder.results Reference.b3
      [Reference.firstFrame.toVec] :=
    (mem_results _).mpr ⟨pre, bytes, post, he, hpanic.symm⟩
  revert hmem
  decide +kernel

/-- The misfit hands the first block a packet of a source block it does not have. -/
theorem misfit_handed :
    new Reference.rq Reference.sessionId Reference.params Reference.sessionKey =
        .ok Reference.decoder ∧
      ∃ packet block, Reference.decoder.handed Reference.b3 Reference.misfit = some (0, packet) ∧
        Reference.decoder.chunkMap.blocks[0]? = some block ∧
        Reference.rq.sourceBlocks (Reference.decoder.config Reference.rq block) ≤
          Reference.rq.sourceBlockNumber packet := by
  have hsbn : (Reference.decoder.handed Reference.b3 Reference.misfit).map
      (fun h => (h.1, Reference.rq.sourceBlockNumber h.2)) = some (0, 1) := by decide +kernel
  obtain ⟨⟨k, packet⟩, hh, hk⟩ := Option.map_eq_some_iff.mp hsbn
  obtain ⟨rfl, hp⟩ := Prod.mk.inj hk
  exact ⟨rfl, packet, ⟨0, 0, 2, 1⟩, hh, rfl, le_of_eq hp.symm⟩

end PipelineDecoder
end Dhow
