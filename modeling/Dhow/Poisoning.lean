import Dhow.Delivery

/-!
# Poisoning

A receiver offered genuine frames among the strings of an attacker who has seen them all and
lacks the session key. A valid MAC binds a string to the header of a genuine frame, but not to
its payload: the result is never anything but the payload or an error, and a string that puts
another payload under a copied header, with the checksum recomputed, keeps a pending block from
its bytes. Without such a string all genuine frames deliver the payload.
-/

namespace Dhow
open Bytes

namespace Pipeline
variable (b3 : Blake3) (rq : RaptorQ) (p : Pipeline)

/-- The MAC of a string, where it is valid, was computed for a genuine frame: its MAC'd fields
are those of the frame. -/
def MacIdeal (frames : List Str) (bytes : Str) : Prop :=
  ∀ header, FrameHeader.fromBytes bytes = .ok header →
    header.truncatedMac = header.computeMac b3 p.sessionKey →
    ∃ genuine ∈ frames, ∃ h, FrameHeader.fromBytes genuine = .ok h ∧ h.macInput = header.macInput

/-- The string carries the MAC'd fields of a genuine frame of block `i` and, behind a matching
checksum, a payload that is no packet of that block. -/
def Splices (payload : Str) (frames : List Str) (bytes : Str) (i : ℕ) : Prop :=
  ∃ f, Frame.fromBytes b3 bytes p.sessionKey = .ok f ∧
    ∃ genuine ∈ frames, ∃ j block packet,
      p.IsSymbolFrame b3 rq payload genuine i j block packet ∧
      (∃ h, FrameHeader.fromBytes genuine = .ok h ∧ h.macInput = f.header.macInput) ∧
      f.payload ∉ (p.packets rq payload block).map rq.serialize

variable {b3 rq p}

lemma header_of_screen {bytes : Str} {f : Frame} (h : p.screen b3 bytes = .ok f) :
    FrameHeader.fromBytes bytes = .ok f.header ∧
      f.header.truncatedMac = f.header.computeMac b3 p.sessionKey := by
  obtain ⟨hmac, -, -, rest, rfl⟩ := (Frame.fromBytes_eq_ok_iff b3 bytes p.sessionKey f).mp
    ((screen_eq_ok_iff b3 p).mp h).1
  rw [Frame.toVec, List.append_assoc]
  exact ⟨FrameHeader.fromBytes_toVec_append _ _, hmac⟩

/-- An accepted string that splices nothing carries a packet of the block it names. -/
lemma deserialize_mem_packets {payload : Str} {frames : List Str}
    (hf : p.encodeToBytes b3 rq payload = .ok frames) (hi : p.RaptorQIdeal rq payload)
    {bytes : Str} (hm : p.MacIdeal b3 frames bytes) {f : Frame} (h : p.screen b3 bytes = .ok f)
    (hs : ¬p.Splices b3 rq payload frames bytes f.header.blockIndex.toNat) {block : BlockInfo}
    (hb : p.chunkMap.blocks[f.header.blockIndex.toNat]? = some block) :
    rq.deserialize f.payload ∈ p.packets rq payload block := by
  obtain ⟨hh, hmac⟩ := header_of_screen h
  obtain ⟨genuine, hg, gh, hgh, hinput⟩ := hm f.header hh hmac
  obtain ⟨i, j, block', packet, hframe⟩ := (mem_encodeToBytes hf).mp hg
  obtain ⟨f', hok', hidx', -, -⟩ := hframe.screen hi
  have hhead : f'.header = gh := by
    have := (header_of_screen hok').1
    rw [hgh, Except.ok.injEq] at this
    exact this.symm
  have hi' : i = f.header.blockIndex.toNat := by
    rw [← hidx', hhead, (FrameHeader.macInput_inj hinput).2.2.1]
  subst hi'
  have hbb : block' = block := by
    have := hframe.block_eq
    rw [hb, Option.some.injEq] at this
    exact this.symm
  subst hbb
  by_contra hne
  refine hs ⟨f, ((screen_eq_ok_iff b3 p).mp h).1, genuine, hg, j, block', packet, hframe,
    ⟨gh, hgh, hinput⟩, fun hmem => hne ?_⟩
  obtain ⟨q, hq, he⟩ := List.mem_map.mp hmem
  rw [← he, (hframe.ideal hi).deserialize_serialize q hq]
  exact hq

/-- Genuine frames splice nothing. -/
lemma not_splices_of_mem {payload : Str} {frames : List Str}
    (hf : p.encodeToBytes b3 rq payload = .ok frames) (hi : p.RaptorQIdeal rq payload)
    {bytes : Str} (hb : bytes ∈ frames) (i : ℕ) : ¬p.Splices b3 rq payload frames bytes i := by
  rintro ⟨f, hok, genuine, hg, j, block, packet, hframe, ⟨gh, hgh, hinput⟩, hne⟩
  obtain ⟨i', j', block', packet', hframe'⟩ := (mem_encodeToBytes hf).mp hb
  obtain ⟨f', hok', hidx', hpay', -⟩ := hframe'.screen hi
  obtain ⟨g', hgok, hgidx, -, -⟩ := hframe.screen hi
  have hff : f' = f := by
    have := ((screen_eq_ok_iff b3 p).mp hok').1
    rw [hok, Except.ok.injEq] at this
    exact this.symm
  subst hff
  have hhead : g'.header = gh := by
    have := (header_of_screen hgok).1
    rw [hgh, Except.ok.injEq] at this
    exact this.symm
  have hii : i' = i := by
    rw [← hidx', ← hgidx, hhead, (FrameHeader.macInput_inj hinput).2.2.1]
  subst hii
  have hbb : block' = block := by
    have := hframe'.block_eq
    rw [hframe.block_eq, Option.some.injEq] at this
    exact this.symm
  subst hbb
  rw [hpay'] at hne
  exact hne (List.mem_map.mpr ⟨packet', hframe'.packet_mem, rfl⟩)

lemma macIdeal_of_mem {frames : List Str} {bytes : Str} (hb : bytes ∈ frames) :
    p.MacIdeal b3 frames bytes :=
  fun header hh _ => ⟨bytes, hb, header, hh, rfl⟩

end Pipeline

namespace PipelineDecoder
variable {b3 : Blake3} {rq : RaptorQ}

/-- The string splices another payload into a block that is still pending. -/
def SplicesPending (b3 : Blake3) (d : PipelineDecoder rq) (payload : Str) (frames : List Str)
    (bytes : Str) : Prop :=
  ∃ (i : ℕ) (decoder : rq.Decoder), d.blocks[i]? = some (.pending decoder) ∧
    d.Splices b3 rq payload frames bytes i

section Run
variable {p : Pipeline} {payload : Str} {frames : List Str}
  (hf : p.encodeToBytes b3 rq payload = .ok frames) (hi : p.RaptorQIdeal rq payload)
include hf hi

/-- Without a splice every block is done with its bytes or has been given its packets only. -/
lemma done_or_packetsOf_subset {s : List Str} (hm : ∀ bytes ∈ s, p.MacIdeal b3 frames bytes)
    (hs : ∀ pre bytes post, s = pre ++ bytes :: post →
      ¬((start rq p).run b3 pre).SplicesPending b3 payload frames bytes)
    {k : ℕ} {block : BlockInfo} (hk : p.chunkMap.blocks[k]? = some block) :
    ((start rq p).run b3 s).blocks[k]? = some (.done (ChunkMap.blockBytes payload block)) ∨
      p.packetsOf b3 rq k s ⊆ p.packets rq payload block := by
  induction s using List.reverseRecOn with
  | nil =>
    refine .inr fun x hx => ?_
    simp [Pipeline.packetsOf] at hx
  | append_singleton s bytes ih =>
    have ih := ih (fun x hx => hm x (List.mem_append_left _ hx)) fun pre b post he =>
      hs pre b (post ++ [bytes]) (by rw [he]; simp)
    rw [run_append]
    rcases ih with hdone | hsub
    · exact .inl (blocks_run_of_done _ _ hdone)
    · have hrun : ((start rq p).run b3 s).blocks[k]? = _ := run_start_blocks s hk
      cases hstate : (p.packetsOf b3 rq k s).foldl takeSymbol (initialBlock rq p block) with
      | done data =>
        rw [hstate, eq_of_foldl_initialBlock_eq_done hi hk hsub hstate] at hrun
        exact .inl (blocks_run_of_done _ _ hrun)
      | pending decoder =>
        rw [hstate] at hrun
        refine .inr fun packet hp => ?_
        obtain ⟨b, hb, f, hok, hidx, rfl⟩ := Pipeline.mem_packetsOf.mp hp
        rcases List.mem_append.mp hb with hb | hb
        · exact hsub (Pipeline.mem_packetsOf.mpr ⟨b, hb, f, hok, hidx, rfl⟩)
        · obtain rfl := List.mem_singleton.mp hb
          subst hidx
          refine Pipeline.deserialize_mem_packets hf hi (hm b (by simp)) hok (fun hsp => ?_) hk
          refine hs s b [] rfl ⟨_, decoder, hrun, ?_⟩
          rw [run_toPipeline]
          exact hsp

end Run

end PipelineDecoder

namespace Reference

/-- The first genuine payload with its symbol replaced. -/
def poisonPayload : Str := [0, 0, 0, 0] ++ List.replicate 64 1

/-- The first genuine frame with the replaced payload and its checksum: the MAC is the genuine
frame's. -/
def poison : Str :=
  (Frame.build b3 (.new .repair sessionId 0 0 poisonPayload (by decide)) poisonPayload
    sessionKey).toVec

/-- The payload of the first genuine frame. -/
def firstPayload : Str := [0, 0, 0, 0] ++ ([0x44, 0x68] ++ List.replicate 62 0)

def firstFrame : Frame :=
  Frame.build b3 (.new .repair sessionId 0 0 firstPayload (by decide)) firstPayload sessionKey

lemma firstFrame_mem : firstFrame.toVec ∈ frames := by
  have he : frames = firstFrame.toVec :: frames.tail := rfl
  rw [he]
  exact List.mem_cons_self

lemma macIdeal_poison : pipeline.MacIdeal b3 frames poison := by
  intro header hh _
  rw [poison, Frame.toVec, FrameHeader.fromBytes_toVec_append, Except.ok.injEq] at hh
  subst hh
  exact ⟨_, firstFrame_mem, _, FrameHeader.fromBytes_toVec_append _ _, rfl⟩

/-- All the frames leave every block with its bytes, whatever comes after. -/
lemma blocks_run_frames (more : List Str) {k : ℕ} {block : BlockInfo}
    (hk : pipeline.chunkMap.blocks[k]? = some block) :
    (decoder.run b3 (frames ++ more)).blocks[k]? =
      some (.done (ChunkMap.blockBytes payload block)) := by
  rw [PipelineDecoder.run_append]
  exact PipelineDecoder.blocks_run_of_done _ more (PipelineDecoder.blocks_run_of_subset
    encodeToBytes_eq ideal (List.Subset.refl _) (List.Subset.refl _) hk)

lemma finish_run_frames (more : List Str) :
    (decoder.run b3 (frames ++ more)).finish b3 = .ok payload := by
  apply PipelineDecoder.HasBlocks.finish
  · intro k block hk
    rw [PipelineDecoder.run_toPipeline] at hk
    exact blocks_run_frames more hk
  · rw [PipelineDecoder.run_toPipeline]
    rfl
  · rw [PipelineDecoder.run_toPipeline]
    rfl

lemma not_splicesPending_run_frames (more : List Str) (bytes : Str) :
    ¬(decoder.run b3 (frames ++ more)).SplicesPending b3 payload frames bytes := by
  rintro ⟨k, decoder', hk, -⟩
  have hlt := (List.getElem?_eq_some_iff.mp hk).1
  rw [PipelineDecoder.length_blocks, PipelineDecoder.run_toPipeline] at hlt
  rw [blocks_run_frames more (pipeline.chunkMap.blocks_getElem? hlt)] at hk
  cases hk

end Reference

namespace PipelineDecoder
variable {b3 : Blake3} {rq : RaptorQ}

/-- Among genuine frames and strings with no MAC but copied ones, the result is the payload or
an error; and with all genuine frames offered it is the payload, unless a string spliced another
payload into a block still pending. -/
theorem delivery_among_forgeries {sessionId : Arr 16} {params : SessionParams}
    {sessionKey : Arr 32} {p : Pipeline} {d₀ : PipelineDecoder rq} {payload : Str}
    {frames s : List Str} (hp : Pipeline.new sessionId params sessionKey = .ok p)
    (hd : new rq sessionId params sessionKey = .ok d₀)
    (hdigest : params.payloadDigest = blake3Digest b3 payload)
    (hf : p.encodeToBytes b3 rq payload = .ok frames) (hi : p.RaptorQIdeal rq payload)
    (hm : ∀ bytes ∈ s, p.MacIdeal b3 frames bytes)
    (hcf : ∀ x, (d₀.run b3 s).finish b3 = .ok x →
      blake3Digest b3 x = blake3Digest b3 payload → x = payload) :
    ((d₀.run b3 s).finish b3 = .ok payload ∨ ∃ e, (d₀.run b3 s).finish b3 = .error e) ∧
    (frames ⊆ s →
      (∀ pre bytes post, s = pre ++ bytes :: post →
        ¬(d₀.run b3 pre).SplicesPending b3 payload frames bytes) →
      (d₀.run b3 s).finish b3 = .ok payload) := by
  obtain ⟨hstart, hpipe⟩ := new_eq_ok hd
  rw [hp, Except.ok.injEq] at hpipe
  rw [← hpipe] at hstart
  subst hstart
  have hparams : p.params.payloadDigest = blake3Digest b3 payload := by
    rw [(Pipeline.new_eq_ok hp).2.1, hdigest]
  constructor
  · cases hx : ((start rq p).run b3 s).finish b3 with
    | error e => exact .inr ⟨e, rfl⟩
    | ok x =>
      have hdig := (of_finish_eq_ok hx).2
      rw [run_toPipeline] at hdig
      rw [hcf x hx (hdig.trans hparams)]
      exact .inl rfl
  · intro hall hs
    refine HasBlocks.finish (fun k block hk => ?_)
      (by rw [run_toPipeline]; exact Pipeline.payload_length_of_encode hf)
      (by rw [run_toPipeline]; exact hparams)
    rw [run_toPipeline] at hk
    change p.chunkMap.blocks[k]? = some block at hk
    rcases done_or_packetsOf_subset hf hi hm hs hk with hdone | hsub
    · exact hdone
    · have hrun : ((start rq p).run b3 s).blocks[k]? = _ := run_start_blocks s hk
      rw [hrun, initialBlock]
      by_cases hz : block.size = 0
      · rw [if_pos hz, foldl_takeSymbol_done]
        simp [ChunkMap.blockBytes, slice, hz]
      · have hideal := hi block (List.mem_of_getElem? hk) hz
        rw [if_neg hz, foldl_takeSymbol_of_complete hideal hsub]
        exact fun x hx => subset_packetsOf hf hi hall hk hz (hideal.source_subset hx)

theorem delivery_among_forgeries_reference :
    (Reference.decoder.run Reference.b3 (Reference.frames ++ [Reference.poison])).finish
      Reference.b3 = .ok Reference.payload := by
  refine (delivery_among_forgeries Reference.new_eq Reference.new_decoder_eq rfl
    Reference.encodeToBytes_eq Reference.ideal ?_ ?_).2 (List.subset_append_left _ _) ?_
  · intro bytes hb
    rcases List.mem_append.mp hb with hb | hb
    · exact Pipeline.macIdeal_of_mem hb
    · rw [List.mem_singleton.mp hb]
      exact Reference.macIdeal_poison
  · intro x hx _
    rw [Reference.finish_run_frames, Except.ok.injEq] at hx
    exact hx.symm
  · intro pre bytes post he
    rcases List.append_eq_append_iff.mp he with ⟨a, rfl, -⟩ | ⟨c, hc, hpost⟩
    · exact Reference.not_splicesPending_run_frames a bytes
    · cases c with
      | nil =>
        have hpre : pre = Reference.frames ++ [] := by rw [hc, List.append_nil, List.append_nil]
        rw [hpre]
        exact Reference.not_splicesPending_run_frames [] bytes
      | cons b c =>
        cases hpost
        rintro ⟨i, decoder, -, hsp⟩
        rw [run_toPipeline] at hsp
        refine Pipeline.not_splices_of_mem Reference.encodeToBytes_eq Reference.ideal ?_ i hsp
        rw [hc]
        simp

end PipelineDecoder

namespace Reference

/-- A spliced string ahead of every genuine frame: all of them have been offered, no MAC was
forged, RaptorQ is ideal, and the payload is not returned. -/
theorem poisoned_delivery :
    Pipeline.new sessionId params sessionKey = .ok pipeline ∧
      params.payloadDigest = blake3Digest b3 payload ∧
      pipeline.encodeToBytes b3 rq payload = .ok frames ∧ pipeline.RaptorQIdeal rq payload ∧
      frames ⊆ poison :: frames ∧ (∀ bytes ∈ poison :: frames, pipeline.MacIdeal b3 frames bytes) ∧
      (decoder.run b3 (poison :: frames)).finish b3 = .error (.session .digestMismatch) := by
  refine ⟨new_eq, rfl, encodeToBytes_eq, ideal, List.subset_cons_self _ _, fun bytes hb => ?_,
    by decide +kernel⟩
  rcases List.mem_cons.mp hb with rfl | hb
  · exact macIdeal_poison
  · exact Pipeline.macIdeal_of_mem hb

end Reference
end Dhow
