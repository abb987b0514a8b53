import Dhow.Poisoning

/-!
# Binding

What the resume index says of the strings behind it. The journal digest absorbs the accepted
strings back to back, and a frame parses whatever follows it in its string; so the digest binds
the concatenation, the bitmaps bind the symbols named, and two sequences that agree in both are
not told apart.
-/

namespace Dhow
open Bytes

namespace Frame

/-- The string is a frame and nothing after it. -/
def Exact (bytes : Str) : Prop :=
  ∃ header, FrameHeader.fromBytes bytes = .ok header ∧
    bytes.length = frameHeaderSize + header.payloadLength.toNat

/-- An exact string ends where its header says. -/
lemma Exact.eq_of_append {a b as bs : Str} (ha : Exact a) (hb : Exact b)
    (h : a ++ as = b ++ bs) : a = b := by
  obtain ⟨g, hg, hla⟩ := ha
  obtain ⟨k, hk, hlb⟩ := hb
  have hga := FrameHeader.eq_toVec_append hg
  have hkb := FrameHeader.eq_toVec_append hk
  have hgk : g = k := by
    have h1 : FrameHeader.fromBytes (a ++ as) = .ok g := by
      rw [hga, List.append_assoc, FrameHeader.fromBytes_toVec_append]
    have h2 : FrameHeader.fromBytes (b ++ bs) = .ok k := by
      rw [hkb, List.append_assoc, FrameHeader.fromBytes_toVec_append]
    rw [h, h2, Except.ok.injEq] at h1
    exact h1.symm
  subst hgk
  exact (List.append_inj h (by rw [hla, hlb])).1

/-- Exact strings are their concatenation's only cutting. -/
theorem eq_of_flatten_eq {as bs : List Str} (ha : ∀ a ∈ as, Exact a) (hb : ∀ b ∈ bs, Exact b)
    (h : as.flatten = bs.flatten) : as = bs := by
  have hne : ∀ a : Str, Exact a → a ≠ [] := by
    rintro a ⟨header, -, hl⟩ rfl
    rw [List.length_nil, frameHeaderSize] at hl
    omega
  induction as generalizing bs with
  | nil =>
    cases bs with
    | nil => rfl
    | cons b bs =>
      rw [List.flatten_nil, List.flatten_cons] at h
      exact absurd (List.append_eq_nil_iff.mp h.symm).1 (hne b (hb b List.mem_cons_self))
  | cons a as ih =>
    cases bs with
    | nil =>
      rw [List.flatten_nil, List.flatten_cons] at h
      exact absurd (List.append_eq_nil_iff.mp h).1 (hne a (ha a List.mem_cons_self))
    | cons b bs =>
      rw [List.flatten_cons, List.flatten_cons] at h
      obtain rfl := (ha a List.mem_cons_self).eq_of_append (hb b List.mem_cons_self) h
      rw [ih (fun x hx => ha x (List.mem_cons_of_mem _ hx))
        (fun x hx => hb x (List.mem_cons_of_mem _ hx)) (List.append_cancel_left h)]

end Frame

/-- Two different cuttings of one byte stream whose frames name the same symbols of the
bitmaps. -/
structure Pipeline.Recut (b3 : Blake3) (p : Pipeline) (s₁ s₂ : List Str) : Prop where
  ne : s₁ ≠ s₂
  flatten_eq : s₁.flatten = s₂.flatten
  names_eq : ∀ k j, p.names b3 k j s₁ = p.names b3 k j s₂

namespace PipelineDecoder
variable {rq : RaptorQ} {b3 : Blake3}

variable {d : PipelineDecoder rq}

lemma AllOk.taken_eq {s : List Str} (h : d.AllOk b3 s) : d.taken b3 s = s := by
  apply List.filter_eq_self.mpr
  intro bytes hb
  obtain ⟨pre, post, rfl⟩ := List.append_of_mem hb
  obtain ⟨outcome, ho⟩ := h _ ((mem_results d).mpr ⟨pre, bytes, post, rfl, rfl⟩)
  cases hs : d.screen b3 bytes with
  | ok f => rfl
  | error e =>
    have hs' : (d.run b3 pre).screen b3 bytes = .error e := by rw [run_toPipeline, hs]
    rw [accept_of_error _ hs'] at ho
    cases ho

section Start
variable {p : Pipeline} {s₁ s₂ : List Str}

lemma journalDigest_run_start {s : List Str} (h : (start rq p).AllOk b3 s) :
    ((start rq p).run b3 s).journalDigest b3 = b3.hash s.flatten := by
  rw [journalDigest, Blake3Hasher.finalize, run_journal, h.taken_eq]
  rfl

lemma bit_run_start (rq : RaptorQ) (s : List Str) (k j : ℕ) :
    Bitmap.bit (((start rq p).run b3 s).bitmap k) j = p.names b3 k j s := by
  have h0 : Bitmap.bit ((start rq p).bitmap k) j = false := by
    simp only [bitmap, start, List.getD_eq_getElem?_getD, List.getElem?_replicate]
    split
    · simp
    · exact Bitmap.bit_eq_false_of_le (by simp)
  rw [run_bit, h0, Bool.false_or]
  rfl

/-- Two runs leave the same bitmaps exactly when they name the same symbols. -/
lemma bitmaps_eq_iff :
    (∀ k < ((start rq p).run b3 s₁).blocks.length,
      ((start rq p).run b3 s₁).bitmap k = ((start rq p).run b3 s₂).bitmap k) ↔
      ∀ k j, p.names b3 k j s₁ = p.names b3 k j s₂ := by
  have hlen : ((start rq p).run b3 s₁).blocks.length = p.chunkMap.blocks.length := by
    rw [length_blocks, run_toPipeline]
    rfl
  constructor
  · intro h k j
    by_cases hk : k < p.chunkMap.blocks.length
    · rw [← bit_run_start rq, ← bit_run_start rq, h k (hlen ▸ hk)]
    · have hout : ∀ s, p.names b3 k j s = false := by
        intro s
        rw [← Bool.not_eq_true, Pipeline.names_eq_true_iff]
        rintro ⟨-, bytes, -, f, hs, rfl, -⟩
        exact hk ((Pipeline.screen_eq_ok_iff b3 p).mp hs).2.blockIndex_lt
      rw [hout, hout]
  · intro h k hk
    rw [hlen] at hk
    apply Bitmap.ext
    · rw [length_bitmap_of_lt _ (by rw [run_toPipeline]; exact hk),
        length_bitmap_of_lt _ (by rw [run_toPipeline]; exact hk), run_toPipeline, run_toPipeline]
    · intro j
      rw [bit_run_start, bit_run_start, h]

/-- The index of one run verifies on another exactly when the two agree in their concatenation
and in the symbols they name. -/
theorem verifyResume_run_iff (h₁ : (start rq p).AllOk b3 s₁) (h₂ : (start rq p).AllOk b3 s₂)
    (hcf : b3.hash s₁.flatten = b3.hash s₂.flatten → s₁.flatten = s₂.flatten) (n : UInt64) :
    ((start rq p).run b3 s₂).verifyResume (((start rq p).run b3 s₁).resumeState b3 n) = .ok () ↔
      s₁.flatten = s₂.flatten ∧ ∀ k j, p.names b3 k j s₁ = p.names b3 k j s₂ := by
  rw [verifyResume_resumeState_iff (by rw [run_toPipeline, run_toPipeline]), bitmaps_eq_iff,
    journalDigest_run_start h₁, journalDigest_run_start h₂]
  exact and_congr_left fun _ => ⟨hcf, fun h => by rw [h]⟩

end Start

/-- The index written after `s₁`, parsed back, verifies on a decoder that accepted `s₂` exactly
when the sequences are equal, if and only if they are no two cuttings of one stream. Sequences
of exact frames never are. -/
theorem resume_binds_iff (b3 : Blake3) {sessionId : Arr 16} {params : SessionParams}
    {sessionKey : Arr 32} {d₀ : PipelineDecoder rq}
    (h₀ : new rq sessionId params sessionKey = .ok d₀) {s₁ s₂ : List Str}
    (h₁ : d₀.AllOk b3 s₁) (h₂ : d₀.AllOk b3 s₂)
    (hcf : b3.hash s₁.flatten = b3.hash s₂.flatten → s₁.flatten = s₂.flatten) (n : UInt64) :
    (((∃ state, ResumeFile.fromBytes b3 ((d₀.run b3 s₁).resumeState b3 n).toVec = .ok state ∧
        (d₀.run b3 s₂).verifyResume state = .ok ()) ↔ s₁ = s₂) ↔ ¬d₀.Recut b3 s₁ s₂) ∧
    ((∀ bytes ∈ s₁ ++ s₂, Frame.Exact bytes) → ¬d₀.Recut b3 s₁ s₂) := by
  obtain ⟨hstart, -⟩ := new_eq_ok h₀
  rw [hstart] at h₁ h₂ ⊢
  constructor
  · have hparse : ResumeFile.fromBytes b3
        (((start rq d₀.toPipeline).run b3 s₁).resumeState b3 n).toVec =
          .ok (((start rq d₀.toPipeline).run b3 s₁).resumeState b3 n) :=
      ((recorded_start d₀.toPipeline).run s₁).fromBytes_resumeState n
    simp only [hparse, Except.ok.injEq, exists_eq_left', verifyResume_run_iff h₁ h₂ hcf]
    constructor
    · intro h hr
      exact hr.ne (h.mp ⟨hr.flatten_eq, hr.names_eq⟩)
    · intro h
      constructor
      · rintro ⟨hf, hn⟩
        by_contra hne
        exact h ⟨hne, hf, hn⟩
      · rintro rfl
        exact ⟨rfl, fun _ _ => rfl⟩
  · intro hexact hr
    exact hr.ne (Frame.eq_of_flatten_eq (fun a ha => hexact a (List.mem_append_left _ ha))
      (fun b hb => hexact b (List.mem_append_right _ hb)) hr.flatten_eq)

end PipelineDecoder

namespace Reference

/-- The first genuine frame offered twice. -/
def twice : List Str := [firstFrame.toVec, firstFrame.toVec]

/-- The two copies in one string. -/
def joined : List Str := [firstFrame.toVec ++ firstFrame.toVec]

lemma exact_firstFrame : Frame.Exact firstFrame.toVec := by
  refine ⟨firstFrame.header, FrameHeader.fromBytes_toVec_append _ _, ?_⟩
  rw [Frame.toVec, List.length_append, FrameHeader.length_toVec]
  rfl

lemma allOk_twice : decoder.AllOk b3 twice := by
  have h : decoder.results b3 twice = [.ok (.blockComplete 0), .ok .redundant] := by
    decide +kernel
  rw [PipelineDecoder.AllOk, h]
  simp

lemma allOk_once : decoder.AllOk b3 [firstFrame.toVec] := by
  have h : decoder.results b3 [firstFrame.toVec] = [.ok (.blockComplete 0)] := by
    decide +kernel
  rw [PipelineDecoder.AllOk, h]
  simp

lemma allOk_joined : decoder.AllOk b3 joined := by
  have h : decoder.results b3 joined = [.ok (.blockComplete 0)] := by decide +kernel
  rw [PipelineDecoder.AllOk, h]
  simp

end Reference

namespace PipelineDecoder

/-- The index of two copies of a frame does not verify on a decoder that accepted one. -/
theorem resume_binds_iff_reference :
    ¬∃ state, ResumeFile.fromBytes Reference.b3
        ((Reference.decoder.run Reference.b3 Reference.twice).resumeState Reference.b3 0).toVec =
          .ok state ∧
      (Reference.decoder.run Reference.b3 [Reference.firstFrame.toVec]).verifyResume state =
        .ok () := by
  have hne : Reference.b3.hash Reference.twice.flatten ≠
      Reference.b3.hash [Reference.firstFrame.toVec].flatten := by decide +kernel
  obtain ⟨hiff, hexact⟩ := resume_binds_iff Reference.b3 Reference.new_decoder_eq
    Reference.allOk_twice Reference.allOk_once (fun h => absurd h hne) 0
  have hexact := hexact fun bytes hb => by
    have hmem : bytes = Reference.firstFrame.toVec := by
      rcases List.mem_append.mp hb with hb | hb
      · rcases List.mem_cons.mp hb with hb | hb
        · exact hb
        · exact List.mem_singleton.mp hb
      · exact List.mem_singleton.mp hb
    exact hmem ▸ Reference.exact_firstFrame
  intro h
  exact absurd (congrArg List.length ((hiff.mpr hexact).mp h)) (by decide)

/-- Two copies of a frame and the one string of both: the index of either verifies on the
other. -/
theorem joined_not_bound :
    Reference.twice ≠ Reference.joined ∧
      Reference.decoder.AllOk Reference.b3 Reference.twice ∧
      Reference.decoder.AllOk Reference.b3 Reference.joined ∧
      ∃ state, ResumeFile.fromBytes Reference.b3
          ((Reference.decoder.run Reference.b3 Reference.twice).resumeState Reference.b3 0).toVec =
            .ok state ∧
        (Reference.decoder.run Reference.b3 Reference.joined).verifyResume state = .ok () := by
  refine ⟨fun h => absurd (congrArg List.length h) (by decide), Reference.allOk_twice,
    Reference.allOk_joined, (Reference.decoder.run Reference.b3 Reference.twice).resumeState _ 0,
    ((recorded_start Reference.pipeline).run _).fromBytes_resumeState _, by decide +kernel⟩

end PipelineDecoder
end Dhow
