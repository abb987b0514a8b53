import Dhow.CaptureAccounting
import Dhow.Delivery
import Dhow.Recordable
import Dhow.Rejection

/-!
# De-duplication

The reader skips a frame whose position it holds. As long as the decoder would accept genuine
frames only, the decoder behind it ends with what it would hold if it were given every frame: a
skipped frame is the one accepted at its position.
-/

namespace Dhow
open Bytes

/-! ### Keys -/

lemma Capture.toNat_heldKey (block symbol : UInt32) :
    (heldKey block symbol).toNat = block.toNat * 2 ^ 32 + symbol.toNat := by
  have hb := block.toNat_lt
  have hs := symbol.toNat_lt
  have hshift : (block.toUInt64 <<< 32).toNat = block.toNat <<< 32 := by
    rw [UInt64.toNat_shiftLeft, UInt32.toNat_toUInt64]
    change block.toNat <<< 32 % 2 ^ 64 = _
    rw [Nat.shiftLeft_eq, Nat.mod_eq_of_lt (by omega)]
  rw [heldKey, UInt64.toNat_or, hshift, UInt32.toNat_toUInt64, ← Nat.shiftLeft_add_eq_or_of_lt hs,
    Nat.shiftLeft_eq]

lemma Capture.heldKey_inj {block symbol block' symbol' : UInt32}
    (h : heldKey block symbol = heldKey block' symbol') : block = block' ∧ symbol = symbol' := by
  have hn := congrArg UInt64.toNat h
  rw [toNat_heldKey, toNat_heldKey] at hn
  have hs := symbol.toNat_lt
  have hs' := symbol'.toNat_lt
  exact ⟨UInt32.toNat_inj.mp (by omega), UInt32.toNat_inj.mp (by omega)⟩

namespace Pipeline
variable {b3 : Blake3} {rq : RaptorQ} {p : Pipeline} {payload : Str}

lemma mem_taken {bytes : Str} {l : List Str} :
    bytes ∈ p.taken b3 l ↔ bytes ∈ l ∧ ∃ f, p.screen b3 bytes = .ok f := by
  rw [taken, List.mem_filter]
  cases p.screen b3 bytes <;> simp [Except.isOk, Except.toBool]

/-- The packets of a block have different identifiers, which are four bytes of their wire form. -/
def DistinctPackets (rq : RaptorQ) (p : Pipeline) (payload : Str) : Prop :=
  ∀ block ∈ p.chunkMap.blocks, block.size ≠ 0 →
    ((p.packets rq payload block).map fun packet => u32At (rq.serialize packet) 0).Nodup

lemma DistinctPackets.length_le (h : p.DistinctPackets rq payload) {block : BlockInfo}
    (hb : block ∈ p.chunkMap.blocks) (hs : block.size ≠ 0) :
    (p.packets rq payload block).length ≤ 2 ^ 32 := by
  have hnodup := (h block hb hs).map (f := UInt32.toNat) fun a b => UInt32.toNat_inj.mp
  rw [List.map_map] at hnodup
  have hsub : (List.map (UInt32.toNat ∘ fun packet => u32At (rq.serialize packet) 0)
      (p.packets rq payload block)) ⊆ List.range (2 ^ 32) := by
    intro n hn
    obtain ⟨packet, -, rfl⟩ := List.mem_map.mp hn
    exact List.mem_range.mpr (UInt32.toNat_lt _)
  have hle := (List.subperm_of_subset hnodup hsub).length_le
  rwa [List.length_map, List.length_range] at hle

lemma IsSymbolFrame.keyOf_eq {bytes : Str} {i j : ℕ} {block : BlockInfo} {packet : rq.Packet}
    (h : p.IsSymbolFrame b3 rq payload bytes i j block packet) :
    Capture.keyOf bytes = Capture.heldKey (UInt32.ofNat i) (UInt32.ofNat j) := by
  obtain ⟨hle, rfl⟩ := h.frame_eq
  obtain ⟨-, -, -, -, -, -, hblock, hsymbol, -⟩ := FrameHeader.reads_toVec_append
    (Frame.build b3 (.new .repair p.sessionId (UInt32.ofNat i) (UInt32.ofNat j)
      (rq.serialize packet) hle) (rq.serialize packet) p.sessionKey).header (rq.serialize packet)
  exact congrArg₂ Capture.heldKey hblock hsymbol

/-- A key determines its genuine frame. -/
lemma eq_of_keyOf_eq {frames : List Str} (hf : p.encodeToBytes b3 rq payload = .ok frames)
    (hd : p.DistinctPackets rq payload) {bytes bytes' : Str} (hb : bytes ∈ frames)
    (hb' : bytes' ∈ frames) (h : Capture.keyOf bytes = Capture.keyOf bytes') : bytes = bytes' := by
  obtain ⟨i, j, block, packet, hframe⟩ := (mem_encodeToBytes hf).mp hb
  obtain ⟨i', j', block', packet', hframe'⟩ := (mem_encodeToBytes hf).mp hb'
  have hbound : ∀ {bytes i j block packet},
      p.IsSymbolFrame b3 rq payload bytes i j block packet → i < 2 ^ 32 ∧ j < 2 ^ 32 := by
    intro bytes i j block packet hframe
    have hi := hframe.index_lt
    have hmax := p.length_blocks_le
    unfold maxBlockCount at hmax
    have hj := (List.getElem?_eq_some_iff.mp hframe.packet_eq).1
    have hle := hd.length_le (List.mem_of_getElem? hframe.block_eq) hframe.size_ne_zero
    omega
  rw [hframe.keyOf_eq, hframe'.keyOf_eq] at h
  obtain ⟨hi, hj⟩ := Capture.heldKey_inj h
  have hi := congrArg UInt32.toNat hi
  have hj := congrArg UInt32.toNat hj
  rw [UInt32.toNat_ofNat_of_lt' (hbound hframe).1, UInt32.toNat_ofNat_of_lt' (hbound hframe').1]
    at hi
  rw [UInt32.toNat_ofNat_of_lt' (hbound hframe).2, UInt32.toNat_ofNat_of_lt' (hbound hframe').2]
    at hj
  subst hi
  subst hj
  exact hframe.bytes_eq hframe'

end Pipeline

/-! ### The decoder -/

namespace PipelineDecoder
variable {b3 : Blake3} {rq : RaptorQ} (d : PipelineDecoder rq)

/-- A refused string changes nothing. -/
lemma run_taken (frames : List Str) : d.run b3 (d.taken b3 frames) = d.run b3 frames := by
  induction frames generalizing d with
  | nil => rfl
  | cons bytes frames ih =>
    have hrest := ih (d.accept b3 bytes).2
    rw [d.accept_toPipeline] at hrest
    cases hs : d.screen b3 bytes with
    | error e =>
      rw [Pipeline.taken_cons_of_error hs, run_cons, ← hrest, d.accept_of_error hs]
    | ok f => rw [Pipeline.taken_cons_of_ok hs, run_cons, run_cons, hrest]

lemma screen_of_accept_eq_ok {bytes : Str} {outcome : FrameOutcome}
    (h : (d.accept b3 bytes).1 = .ok outcome) : ∃ f, d.screen b3 bytes = .ok f := by
  cases hs : d.screen b3 bytes with
  | error e =>
    rw [d.accept_of_error hs] at h
    cases h
  | ok f => exact ⟨f, rfl⟩

lemma okFrames_cons (bytes : Str) (frames : List Str) :
    d.okFrames b3 (bytes :: frames) =
      (if (d.dhowDecoderAccept b3 bytes).1 = .ok then [bytes] else []) ++
        (d.accept b3 bytes).2.okFrames b3 frames := by
  simp only [okFrames, dhowDecoderAccept_snd]
  split <;> rfl

lemma okFrames_concat (frames : List Str) (bytes : Str) :
    d.okFrames b3 (frames ++ [bytes]) = d.okFrames b3 frames ++
      if ((d.run b3 frames).dhowDecoderAccept b3 bytes).1 = .ok then [bytes] else [] := by
  induction frames generalizing d with
  | nil =>
    rw [List.nil_append, okFrames_cons, okFrames, List.append_nil]
    exact (List.nil_append _).symm
  | cons first frames ih =>
    rw [List.cons_append, okFrames_cons, okFrames_cons, run_cons, ih, List.append_assoc]

lemma mem_okFrames {frames : List Str} {bytes : Str} (h : bytes ∈ d.okFrames b3 frames) :
    bytes ∈ frames ∧ ∃ f, d.screen b3 bytes = .ok f := by
  induction frames using List.reverseRecOn with
  | nil => simp [okFrames] at h
  | append_singleton frames last ih =>
    rw [okFrames_concat, List.mem_append] at h
    rcases h with h | h
    · exact ⟨List.mem_append_left _ (ih h).1, (ih h).2⟩
    · split at h
      next hok =>
        rw [List.mem_singleton] at h
        subst h
        refine ⟨by simp, ?_⟩
        rw [dhowDecoderAccept_fst] at hok
        cases hr : ((d.run b3 frames).accept b3 bytes).1 with
        | ok outcome =>
          obtain ⟨f, hf⟩ := screen_of_accept_eq_ok _ hr
          rw [run_toPipeline] at hf
          exact ⟨f, hf⟩
        | err e =>
          rw [hr] at hok
          cases hok
        | panic =>
          rw [hr] at hok
          cases hok
      next => simp at h

/-- Sequences of genuine and refused strings with the same genuine ones leave decoders with the
same bitmaps, counters, decoded blocks and result. -/
lemma run_congr_of_taken {p : Pipeline} {payload : Str} {frames s t : List Str}
    (hf : p.encodeToBytes b3 rq payload = .ok frames) (hi : p.RaptorQIdeal rq payload)
    (hs : p.taken b3 s ⊆ frames) (ht : p.taken b3 t ⊆ frames)
    (hst : ∀ x, x ∈ p.taken b3 s ↔ x ∈ p.taken b3 t) :
    ((start rq p).run b3 s).held = ((start rq p).run b3 t).held ∧
    ((start rq p).run b3 s).heldCounts = ((start rq p).run b3 t).heldCounts ∧
    ((start rq p).run b3 s).blocks.map doneData = ((start rq p).run b3 t).blocks.map doneData ∧
    ((start rq p).run b3 s).finish b3 = ((start rq p).run b3 t).finish b3 := by
  rw [← (start rq p).run_taken s, ← (start rq p).run_taken t]
  change ((start rq p).run b3 (p.taken b3 s)).held = ((start rq p).run b3 (p.taken b3 t)).held ∧
    ((start rq p).run b3 (p.taken b3 s)).heldCounts =
      ((start rq p).run b3 (p.taken b3 t)).heldCounts ∧
    ((start rq p).run b3 (p.taken b3 s)).blocks.map doneData =
      ((start rq p).run b3 (p.taken b3 t)).blocks.map doneData ∧
    ((start rq p).run b3 (p.taken b3 s)).finish b3 = ((start rq p).run b3 (p.taken b3 t)).finish b3
  have hheld : ((start rq p).run b3 (p.taken b3 s)).held =
      ((start rq p).run b3 (p.taken b3 t)).held := by
    apply held_run_congr
    intro k j
    rw [Bool.eq_iff_iff]
    simp only [Pipeline.names_eq_true_iff, hst]
  have hdone := doneData_run_congr hf hi hs ht hst
  refine ⟨hheld, ?_, hdone, ?_⟩
  · exact ((recorded_start p).run _).heldCounts_eq ((recorded_start p).run _) hheld
  · exact finish_congr (by rw [run_toPipeline, run_toPipeline]) hdone

/-- A string that passes the checks is accepted once its block has its bytes. -/
lemma exists_accept_of_screen {p : Pipeline} {payload bytes : Str} {frames : List Str} {f : Frame}
    (hf : p.encodeToBytes b3 rq payload = .ok frames) (hi : p.RaptorQIdeal rq payload)
    (h : p.screen b3 bytes = .ok f) :
    ∃ s outcome, (((start rq p).run b3 s).accept b3 bytes).1 = .ok outcome := by
  have hlt := ((Pipeline.screen_eq_ok_iff b3 p).mp h).2.blockIndex_lt
  have hdone := blocks_run_of_subset hf hi (List.Subset.refl frames) (List.Subset.refl frames)
    (List.getElem?_eq_getElem hlt)
  have hscreen : ((start rq p).run b3 frames).screen b3 bytes = .ok f := by
    rw [run_toPipeline]
    exact h
  refine ⟨frames, .redundant, ?_⟩
  rw [accept_of_ok _ hscreen, addSymbol, record_blocks, hdone]

end PipelineDecoder

namespace Capture

/-- The handler that calls the decoder: an error of the decoder is a frame not accepted. -/
def decoderHandler {rq : RaptorQ} (b3 : Blake3) : Handler (PipelineDecoder rq) Empty :=
  fun d frame =>
    match d.accept b3 frame with
    | (.ok _, d) => (.ok true, d)
    | (_, d) => (.ok false, d)

variable {Image σ ε : Type} (read : Image → Option Str) (handle : Handler σ ε) (r : Reader)

/-- The consumer after a sequence of images. -/
def Reader.consumeAll (images : List Image) (s : Reading σ) : Reading σ :=
  images.foldl (fun s img => (r.consume read handle img s).1) s

/-- The frames that get as far as the handler. -/
def Reader.given : List Image → Reading σ → List Str
  | [], _ => []
  | img :: images, s =>
    ((r.passing read img).filter fun frame => keyOf frame ∉ s.held).toList ++
      given images (r.consume read handle img s).1

section
variable {read handle r}

lemma Reader.consumeAll_cons (img : Image) (images : List Image) (s : Reading σ) :
    r.consumeAll read handle (img :: images) s =
      r.consumeAll read handle images (r.consume read handle img s).1 := rfl

end

/-- A repeat is an image whose frame has a held key. -/
lemma Reader.exists_of_repeats {read : Image → Option Str} {handle : Handler σ ε} {r : Reader}
    {img : Image} {s : Reading σ}
    (h : (r.consume read handle img s).1.stats.repeats = s.stats.repeats + 1) :
    ∃ frame, r.passing read img = some frame ∧ keyOf frame ∈ s.held := by
  have hc := r.consumed_consume read handle img s
  generalize r.consume read handle img s = out at hc h
  cases hc with
  | filtered hp _ hr _ =>
    dsimp only at h
    omega
  | repeated hp hk => exact ⟨_, hp, hk⟩
  | failed hp hk hh =>
    dsimp only at h
    omega
  | refused hp hk hh =>
    dsimp only at h
    omega
  | accepted hp hk hh =>
    dsimp only at h
    omega

/-- The state of the consumer in front of a decoder after the frames `offered` passed the
pre-filter and the frames `given` reached the decoder. -/
structure Tracks {rq : RaptorQ} (b3 : Blake3) (d₀ : PipelineDecoder rq)
    (s : Reading (PipelineDecoder rq)) (offered given : List Str) : Prop where
  handler_eq : s.handler = d₀.run b3 given
  held_iff : ∀ key, key ∈ s.held ↔ ∃ frame ∈ d₀.okFrames b3 given, keyOf frame = key
  given_subset : given ⊆ offered
  covered : ∀ frame ∈ offered, frame ∈ given ∨ keyOf frame ∈ s.held

variable {read r} {rq : RaptorQ} {b3 : Blake3} {d₀ : PipelineDecoder rq}

lemma decoderHandler_eq (d : PipelineDecoder rq) (frame : Str) :
    decoderHandler b3 d frame =
      (.ok (decide ((d.dhowDecoderAccept b3 frame).1 = .ok)), (d.accept b3 frame).2) := by
  rw [d.dhowDecoderAccept_fst, decoderHandler]
  rcases d.accept b3 frame with ⟨result, d'⟩
  cases result <;> rfl

/-- A frame that reaches the decoder. -/
lemma Tracks.give {s : Reading (PipelineDecoder rq)} {offered given : List Str}
    (h : Tracks b3 d₀ s offered given) {frame : Str} {accepted : Bool} {d : PipelineDecoder rq}
    (hh : decoderHandler b3 s.handler frame = (.ok accepted, d)) (stats : Stats) :
    Tracks b3 d₀ ⟨if accepted then insert (keyOf frame) s.held else s.held, stats, d⟩
      (offered ++ [frame]) (given ++ [frame]) := by
  rw [decoderHandler_eq, Prod.mk.injEq, Except.ok.injEq, h.handler_eq] at hh
  obtain ⟨hok, hd⟩ := hh
  refine ⟨?_, ?_, ?_, ?_⟩
  · rw [PipelineDecoder.run_append, ← hd]
    rfl
  · intro key
    rw [d₀.okFrames_concat]
    cases accepted with
    | false =>
      rw [if_neg (of_decide_eq_false hok), List.append_nil]
      exact h.held_iff key
    | true =>
      rw [if_pos (of_decide_eq_true hok), if_pos rfl, Finset.mem_insert, h.held_iff]
      simp only [List.mem_append, List.mem_singleton, or_and_right, exists_or, exists_eq_left]
      rw [or_comm, eq_comm]
  · intro x hx
    rcases List.mem_append.mp hx with hx | hx
    · exact List.mem_append_left _ (h.given_subset hx)
    · exact List.mem_append_right _ hx
  · intro x hx
    rcases List.mem_append.mp hx with hx | hx
    · rcases h.covered x hx with hg | hk
      · exact .inl (List.mem_append_left _ hg)
      · right
        cases accepted with
        | false => exact hk
        | true => exact Finset.mem_insert_of_mem hk
    · exact .inl (List.mem_append_right _ hx)

lemma Tracks.consume {s : Reading (PipelineDecoder rq)} {offered given : List Str}
    (h : Tracks b3 d₀ s offered given) (img : Image) :
    Tracks b3 d₀ (r.consume read (decoderHandler b3) img s).1
      (offered ++ (r.passing read img).toList)
      (given ++ ((r.passing read img).filter fun frame => keyOf frame ∉ s.held).toList) := by
  have hc := r.consumed_consume read (decoderHandler b3) img s
  generalize r.consume read (decoderHandler b3) img s = out at hc
  cases hc with
  | filtered hp _ _ _ =>
    rw [hp]
    simpa using ⟨h.handler_eq, h.held_iff, h.given_subset, h.covered⟩
  | @repeated frame hp hk =>
    have hskip : (some frame).filter (fun frame => keyOf frame ∉ s.held) = none := by simp [hk]
    rw [hp, hskip, Option.toList_none, List.append_nil]
    refine ⟨h.handler_eq, h.held_iff, ?_, ?_⟩
    · exact fun x hx => List.mem_append_left _ (h.given_subset hx)
    · intro x hx
      rcases List.mem_append.mp hx with hx | hx
      · exact h.covered x hx
      · rw [Option.toList_some, List.mem_singleton] at hx
        exact .inr (hx ▸ hk)
  | @failed frame err _ hp hk hh => cases err
  | @refused frame d hp hk hh =>
    have hgive : (some frame).filter (fun frame => keyOf frame ∉ s.held) = some frame := by simp [hk]
    rw [hp, hgive]
    exact h.give hh _
  | @accepted frame d hp hk hh =>
    have hgive : (some frame).filter (fun frame => keyOf frame ∉ s.held) = some frame := by simp [hk]
    rw [hp, hgive]
    exact h.give hh _

lemma Tracks.consumeAll {s : Reading (PipelineDecoder rq)} {offered given : List Str}
    (h : Tracks b3 d₀ s offered given) (images : List Image) :
    Tracks b3 d₀ (r.consumeAll read (decoderHandler b3) images s)
      (offered ++ images.filterMap (r.passing read))
      (given ++ r.given read (decoderHandler b3) images s) := by
  induction images generalizing s offered given with
  | nil =>
    rw [Reader.given, List.filterMap_nil, List.append_nil, List.append_nil]
    exact h
  | cons img images ih =>
    have hfirst : Tracks b3 d₀ (r.consume read (decoderHandler b3) img s).1
        (offered ++ (r.passing read img).toList)
        (given ++ ((r.passing read img).filter fun frame => keyOf frame ∉ s.held).toList) :=
      h.consume img
    have hrest := ih hfirst
    rw [Reader.consumeAll_cons, Reader.given]
    rw [List.append_assoc, List.append_assoc] at hrest
    have hmap : (img :: images).filterMap (r.passing read) =
        (r.passing read img).toList ++ images.filterMap (r.passing read) := by
      rw [List.filterMap_cons]
      cases r.passing read img <;> rfl
    rw [hmap]
    exact hrest

lemma tracks_start (d₀ : PipelineDecoder rq) : Tracks b3 d₀ (.start d₀) [] [] where
  handler_eq := rfl
  held_iff := by
    intro key
    simp [Reading.start, PipelineDecoder.okFrames]
  given_subset := List.Subset.refl _
  covered := by
    intro frame hframe
    cases hframe

lemma Tracks.of_mem_okFrames {s : Reading (PipelineDecoder rq)} {offered given : List Str}
    (h : Tracks b3 d₀ s offered given) {frame : Str} (hframe : frame ∈ d₀.okFrames b3 given) :
    frame ∈ offered ∧ ∃ f, d₀.screen b3 frame = .ok f := by
  obtain ⟨hgiven, hscreen⟩ := d₀.mem_okFrames hframe
  exact ⟨h.given_subset hgiven, hscreen⟩

/-- A skipped frame is the one accepted at its position. -/
lemma Tracks.mem_taken_iff {s : Reading (PipelineDecoder rq)} {offered given frames : List Str}
    {payload : Str} (h : Tracks b3 d₀ s offered given)
    (hf : d₀.encodeToBytes b3 rq payload = .ok frames) (hn : d₀.DistinctPackets rq payload)
    (hown : ∀ frame ∈ offered, (∃ f, d₀.screen b3 frame = .ok f) → frame ∈ frames) (x : Str) :
    x ∈ d₀.taken b3 given ↔ x ∈ d₀.taken b3 offered := by
  rw [Pipeline.mem_taken, Pipeline.mem_taken]
  constructor
  · rintro ⟨hx, hscreen⟩
    exact ⟨h.given_subset hx, hscreen⟩
  · rintro ⟨hx, hscreen⟩
    rcases h.covered x hx with hgiven | hheld
    · exact ⟨hgiven, hscreen⟩
    · obtain ⟨other, hother, hkey⟩ := (h.held_iff _).mp hheld
      obtain ⟨hoffered, hscreen'⟩ := h.of_mem_okFrames hother
      have heq : other = x := by
        apply Pipeline.eq_of_keyOf_eq hf hn _ _ hkey
        · exact hown other hoffered hscreen'
        · exact hown x hx hscreen
      rw [← heq]
      exact ⟨(d₀.mem_okFrames hother).1, hscreen'⟩

/-- On any sequence of images whose frames, where the decoder would accept them, are the session's
own: the held set is the set of the positions of the frames accepted so far, a frame is a repeat
only at such a position, and the decoder holds what it would hold had it been given every frame
that passes the pre-filter. -/
theorem deduplication_transparent {sessionId : Arr 16} {params : SessionParams}
    {sessionKey : Arr 32} {p : Pipeline} {payload : Str} {frames : List Str}
    (hp : Pipeline.new sessionId params sessionKey = .ok p)
    (hd : PipelineDecoder.new rq sessionId params sessionKey = .ok d₀)
    (hf : p.encodeToBytes b3 rq payload = .ok frames) (hi : p.RaptorQIdeal rq payload)
    (hn : p.DistinctPackets rq payload) (read : Image → Option Str) (r : Reader)
    (images : List Image)
    (hgenuine : ∀ bytes ∈ images.filterMap read,
      (∃ s outcome, ((d₀.run b3 s).accept b3 bytes).1 = .ok outcome) → bytes ∈ frames) :
    let s := r.consumeAll read (decoderHandler b3) images (.start d₀)
    let given := r.given read (decoderHandler b3) images (.start d₀)
    let direct := d₀.run b3 (images.filterMap (r.passing read))
    s.handler = d₀.run b3 given ∧
    (∀ block symbol, heldKey block symbol ∈ s.held ↔
      ∃ frame ∈ d₀.okFrames b3 given, position frame = some (block, symbol)) ∧
    (∀ img, (r.consume read (decoderHandler b3) img s).1.stats.repeats = s.stats.repeats + 1 →
      ∃ frame, read img = some frame ∧
        ∃ other ∈ d₀.okFrames b3 given, position other = position frame) ∧
    s.handler.held = direct.held ∧ s.handler.heldCounts = direct.heldCounts ∧
    s.handler.blocks.map PipelineDecoder.doneData =
      direct.blocks.map PipelineDecoder.doneData ∧
    s.handler.finish b3 = direct.finish b3 := by
  obtain ⟨hstart, hpipe⟩ := PipelineDecoder.new_eq_ok hd
  rw [hp, Except.ok.injEq] at hpipe
  rw [← hpipe] at hstart
  subst hstart
  intro s given direct
  have htracks : Tracks b3 (.start rq p) s (images.filterMap (r.passing read)) given := by
    have hall : Tracks b3 (.start rq p)
        (r.consumeAll read (decoderHandler b3) images (.start (.start rq p)))
        ([] ++ images.filterMap (r.passing read))
        ([] ++ r.given read (decoderHandler b3) images (.start (.start rq p))) :=
      (tracks_start (.start rq p)).consumeAll images
    simpa using hall
  have hposition : ∀ frame ∈ images.filterMap (r.passing read),
      position frame = some (u32At frame offsetBlockIndex, u32At frame offsetSymbolIndex) := by
    intro frame hframe
    obtain ⟨img, -, hpass⟩ := List.mem_filterMap.mp hframe
    exact position_of_accept (Reader.passing_eq_some_iff.mp hpass).2
  have hown : ∀ frame ∈ images.filterMap (r.passing read), (∃ f, p.screen b3 frame = .ok f) →
      frame ∈ frames := by
    rintro frame hframe ⟨f, hscreen⟩
    obtain ⟨img, himg, hpass⟩ := List.mem_filterMap.mp hframe
    apply hgenuine frame
    · exact List.mem_filterMap.mpr ⟨img, himg, (Reader.passing_eq_some_iff.mp hpass).1⟩
    · exact PipelineDecoder.exists_accept_of_screen hf hi hscreen
  refine ⟨htracks.handler_eq, ?_, ?_, ?_⟩
  · intro block symbol
    rw [htracks.held_iff]
    constructor
    · rintro ⟨frame, hframe, hkey⟩
      obtain ⟨rfl, rfl⟩ := heldKey_inj hkey
      exact ⟨frame, hframe, hposition frame (htracks.of_mem_okFrames hframe).1⟩
    · rintro ⟨frame, hframe, hpos⟩
      rw [hposition frame (htracks.of_mem_okFrames hframe).1, Option.some.injEq, Prod.mk.injEq]
        at hpos
      exact ⟨frame, hframe, congrArg₂ heldKey hpos.1 hpos.2⟩
  · intro img hrepeats
    obtain ⟨frame, hpass, hk⟩ := Reader.exists_of_repeats hrepeats
    obtain ⟨other, hother, hkey⟩ := (htracks.held_iff _).mp hk
    obtain ⟨hread, haccept⟩ := Reader.passing_eq_some_iff.mp hpass
    obtain ⟨hb, hs⟩ := heldKey_inj hkey
    refine ⟨frame, hread, other, hother, ?_⟩
    rw [hposition other (htracks.of_mem_okFrames hother).1, position_of_accept haccept, hb, hs]
  · rw [htracks.handler_eq]
    apply PipelineDecoder.run_congr_of_taken hf hi
    · intro x hx
      obtain ⟨hx, hscreen⟩ := Pipeline.mem_taken.mp hx
      exact hown x (htracks.given_subset hx) hscreen
    · intro x hx
      obtain ⟨hx, hscreen⟩ := Pipeline.mem_taken.mp hx
      exact hown x hx hscreen
    · exact htracks.mem_taken_iff hf hn hown

theorem deduplication_transparent_reference :
    let r : Reader := ⟨⟨Reference.sessionId⟩, false⟩
    let images := [] :: (Reference.frames ++ Reference.frames)
    let s := r.consumeAll some (decoderHandler Reference.b3) images (.start Reference.decoder)
    s.handler.finish Reference.b3 = (Reference.decoder.run Reference.b3
      (images.filterMap (r.passing some))).finish Reference.b3 := by
  have hn : Reference.pipeline.DistinctPackets Reference.rq Reference.payload := by
    unfold Pipeline.DistinctPackets
    decide +kernel
  intro r images s
  have hgenuine : ∀ bytes ∈ images.filterMap some, (∃ t outcome,
      ((Reference.decoder.run Reference.b3 t).accept Reference.b3 bytes).1 = .ok outcome) →
      bytes ∈ Reference.frames := by
    rintro bytes hbytes ⟨t, outcome, hok⟩
    rw [List.filterMap_some, List.mem_cons, List.mem_append, or_self] at hbytes
    rcases hbytes with rfl | hbytes
    · obtain ⟨f, hf⟩ := PipelineDecoder.screen_of_accept_eq_ok _ hok
      rw [PipelineDecoder.run_toPipeline] at hf
      cases hf
    · exact hbytes
  obtain ⟨-, -, -, -, -, -, hfinish⟩ := deduplication_transparent Reference.new_eq
    Reference.new_decoder_eq Reference.encodeToBytes_eq Reference.ideal hn some r images hgenuine
  exact hfinish

end Capture

end Dhow
