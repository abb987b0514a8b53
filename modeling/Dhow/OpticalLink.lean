import Dhow.Deduplication
import Dhow.Display
import Dhow.Optical.Readback
import Dhow.Prefiltering

/-!
# The optical link

From the screen of the sender to the decoder of the receiver. The channel between them loses,
repeats, reorders and damages what is shown, and adds images of other things; the receiver has the
payload once each frame has been on the screen and in some image that can be read.
-/

namespace Dhow
open Bytes Checked

namespace Capture
variable {Image η : Type} {rq : RaptorQ} {b3 : Blake3} {read : Image → Option Str} {r : Reader}

/-! ### The consumer in front of a decoder -/

/-- The consumer after some images: the decoder has been through what passed the pre-filter, and
the frames counted are the keys held. -/
structure Followed (b3 : Blake3) (d₀ : PipelineDecoder rq) (read : Image → Option Str) (r : Reader)
    (images : List Image) (s : Reading (PipelineDecoder rq)) : Prop where
  tracks : ∃ given, Tracks b3 d₀ s (images.filterMap (r.passing read)) given
  frames_eq : s.stats.frames = s.held.card

section followed
variable {d₀ : PipelineDecoder rq} {images : List Image} {s : Reading (PipelineDecoder rq)}

lemma followed_start : Followed b3 d₀ read r [] (.start d₀) :=
  ⟨⟨[], tracks_start d₀⟩, rfl⟩

/-- The other counters make no difference. -/
lemma Followed.withStats (h : Followed b3 d₀ read r images s) (stats : Stats)
    (hstats : stats.frames = s.stats.frames) :
    Followed b3 d₀ read r images { s with stats := stats } := by
  obtain ⟨given, htracks⟩ := h.tracks
  exact ⟨⟨given, htracks.handler_eq, htracks.held_iff, htracks.given_subset, htracks.covered⟩,
    hstats.trans h.frames_eq⟩

lemma Followed.consume (h : Followed b3 d₀ read r images s) (img : Image) :
    Followed b3 d₀ read r (images ++ [img]) (r.consume read (decoderHandler b3) img s).1 := by
  obtain ⟨given, htracks⟩ := h.tracks
  have hlast : [img].filterMap (r.passing read) = (r.passing read img).toList := by
    cases hp : r.passing read img <;> simp [hp]
  constructor
  · rw [List.filterMap_append, hlast]
    exact ⟨_, htracks.consume img⟩
  · have hc := r.consumed_consume read (decoderHandler b3) img s
    generalize r.consume read (decoderHandler b3) img s = out at hc
    cases hc with
    | filtered _ _ _ hf => exact hf.trans h.frames_eq
    | accepted _ hk _ => rw [Finset.card_insert_of_notMem hk, ← h.frames_eq]
    | _ => exact h.frames_eq

/-- The decoder's handler has no errors. -/
lemma Reader.consume_snd (img : Image) :
    (r.consume read (decoderHandler b3) img s).2 = none := by
  rcases h : (r.consume read (decoderHandler b3) img s).2 with _ | ⟨_, _, err⟩
  · rfl
  · exact err.elim

lemma Followed.runDirect (h : Followed b3 d₀ read r images s) (ending : Ending η)
    (cancelled : Bool) (rest : List Image) :
    Followed b3 d₀ read r (images ++ rest)
      (r.runDirect read (decoderHandler b3) ending cancelled rest s).1 := by
  induction rest generalizing images s with
  | nil =>
    rw [List.append_nil]
    exact h
  | cons img rest ih =>
    rw [Reader.runDirect, List.append_cons]
    dsimp only
    generalize hcounted : ({ s with stats := { s.stats with images := s.stats.images + 1 } } :
      Reading (PipelineDecoder rq)) = counted
    have hnext : Followed b3 d₀ read r (images ++ [img])
        (r.consume read (decoderHandler b3) img counted).1 := by
      subst hcounted
      exact (h.withStats { s.stats with images := s.stats.images + 1 } rfl).consume img
    have hnone : (r.consume read (decoderHandler b3) img counted).2 = none := r.consume_snd img
    generalize r.consume read (decoderHandler b3) img counted = out at hnext hnone
    obtain ⟨t, e⟩ := out
    subst hnone
    exact ih hnext

lemma Followed.digestAll (h : Followed b3 d₀ read r images s) (rest : List Image) :
    Followed b3 d₀ read r (images ++ rest)
      (r.digestAll read (decoderHandler b3) rest s).1 := by
  induction rest generalizing images s with
  | nil =>
    rw [List.append_nil]
    exact h
  | cons img rest ih =>
    have hstep : r.digest read (decoderHandler b3) (s, none) img
        = ((r.consume read (decoderHandler b3) img s).1, none) :=
      Prod.ext rfl (r.consume_snd img)
    rw [Reader.digestAll, List.foldl_cons, hstep, ← Reader.digestAll, List.append_cons]
    exact ih (h.consume img)

/-- In every run of the buffered mode, when the consumer has no image in hand. -/
lemma Reader.Steps.followed {ending : Ending η} {source : List Image}
    {b : Buffered Image (PipelineDecoder rq) Empty η} {evs : List (Event Image)}
    (h : r.Steps read (decoderHandler b3) ending (.start source d₀) evs b)
    (hidle : b.consumer.hand = []) :
    Followed b3 d₀ read r (imagesReceived evs) b.reading := by
  obtain ⟨done, hdigested⟩ := h.digested
  have hall : Followed b3 d₀ read r ([] ++ done)
      (r.digestAll read (decoderHandler b3) done (.start d₀)).1 := followed_start.digestAll done
  rw [hdigested.received_eq, hidle, List.append_nil]
  rw [← hdigested.reading_eq] at hall
  exact hall

end followed

end Capture

namespace PipelineDecoder
variable {rq : RaptorQ} {b3 : Blake3} {p : Pipeline} {payload : Str} {frames : List Str}

/-- A genuine frame is accepted whatever came before it. -/
lemma mem_okFrames_of_genuine (hf : p.encodeToBytes b3 rq payload = .ok frames)
    (hi : p.RaptorQIdeal rq payload) {given : List Str}
    (hown : p.taken b3 given ⊆ frames) {frame : Str} (hframe : frame ∈ frames)
    (hgiven : frame ∈ given) : frame ∈ (start rq p).okFrames b3 given := by
  induction given using List.reverseRecOn with
  | nil => cases hgiven
  | append_singleton given last ih =>
    have hsub : p.taken b3 given ⊆ frames := fun x hx => by
      obtain ⟨hx, hscreen⟩ := Pipeline.mem_taken.mp hx
      exact hown (Pipeline.mem_taken.mpr ⟨List.mem_append_left _ hx, hscreen⟩)
    rw [okFrames_concat, List.mem_append]
    rcases List.mem_append.mp hgiven with h | h
    · exact .inl (ih hsub h)
    · obtain rfl := List.mem_singleton.mp h
      obtain ⟨outcome, hok⟩ := accept_genuine hf hi hsub hframe
      have hrun : (start rq p).run b3 (p.taken b3 given) = (start rq p).run b3 given :=
        (start rq p).run_taken given
      rw [hrun] at hok
      right
      rw [dhowDecoderAccept_fst, hok]
      exact List.mem_singleton_self _

end PipelineDecoder

namespace Capture
variable {Image : Type} {rq : RaptorQ} {b3 : Blake3} {read : Image → Option Str} {r : Reader}
  {p : Pipeline} {payload : Str} {frames : List Str}

/-- The consumer in front of the decoder of a session, after images that show each frame. -/
lemma Followed.delivers {images : List Image} {s : Reading (PipelineDecoder rq)}
    (h : Followed b3 (.start rq p) read r images s)
    (hdigest : p.params.payloadDigest = blake3Digest b3 payload)
    (hf : p.encodeToBytes b3 rq payload = .ok frames) (hi : p.RaptorQIdeal rq payload)
    (hn : p.DistinctPackets rq payload) (hsession : r.prefilter.sessionID = p.sessionId)
    (hgenuine : ∀ bytes ∈ images.filterMap read, (∃ t outcome,
      (((PipelineDecoder.start rq p).run b3 t).accept b3 bytes).1 = .ok outcome) → bytes ∈ frames)
    (hseen : ∀ frame ∈ frames, ∃ img ∈ images, read img = some frame) :
    s.handler.isComplete = true ∧ s.handler.finish b3 = .ok payload ∧
      s.stats.frames = frames.toFinset.card := by
  obtain ⟨given, htracks⟩ := h.tracks
  have hoffered : frames ⊆ images.filterMap (r.passing read) := by
    intro frame hframe
    obtain ⟨img, himg, hread⟩ := hseen frame hframe
    obtain ⟨i, j, block, packet, hsymbol⟩ := (Pipeline.mem_encodeToBytes hf).mp hframe
    obtain ⟨f, -, rfl, hcoherent, hid, -⟩ := exists_of_isSymbolFrame hsymbol
    have haccept : r.prefilter.accept f.toVec = .ok () := by
      have := accept_toVec hcoherent
      rwa [hid, ← hsession] at this
    exact List.mem_filterMap.mpr ⟨img, himg, Reader.passing_eq_some_iff.mpr ⟨hread, haccept⟩⟩
  have hown : ∀ frame ∈ images.filterMap (r.passing read), (∃ f, p.screen b3 frame = .ok f) →
      frame ∈ frames := by
    rintro frame hframe ⟨f, hscreen⟩
    obtain ⟨img, himg, hpass⟩ := List.mem_filterMap.mp hframe
    apply hgenuine frame
    · exact List.mem_filterMap.mpr ⟨img, himg, (Reader.passing_eq_some_iff.mp hpass).1⟩
    · exact PipelineDecoder.exists_accept_of_screen hf hi hscreen
  have hsub : p.taken b3 given ⊆ frames := by
    intro x hx
    obtain ⟨hx, hscreen⟩ := Pipeline.mem_taken.mp hx
    exact hown x (htracks.given_subset hx) hscreen
  have hall : frames ⊆ p.taken b3 given := by
    intro frame hframe
    obtain ⟨i, j, block, packet, hsymbol⟩ := (Pipeline.mem_encodeToBytes hf).mp hframe
    obtain ⟨f, hscreen, -⟩ := hsymbol.screen hi
    exact (htracks.mem_taken_iff hf hn hown frame).mpr
      (Pipeline.mem_taken.mpr ⟨hoffered hframe, f, hscreen⟩)
  have hblocks : ((PipelineDecoder.start rq p).run b3 (p.taken b3 given)).HasBlocks payload := by
    intro k block hk
    rw [PipelineDecoder.run_toPipeline] at hk
    exact PipelineDecoder.blocks_run_of_subset hf hi hsub hall hk
  have hhandler : s.handler = (PipelineDecoder.start rq p).run b3 (p.taken b3 given) := by
    rw [htracks.handler_eq]
    exact ((PipelineDecoder.start rq p).run_taken given).symm
  have hheld : s.held = frames.toFinset.image keyOf := by
    ext key
    rw [htracks.held_iff, Finset.mem_image]
    constructor
    · rintro ⟨frame, hframe, hkey⟩
      obtain ⟨hframe, hscreen⟩ := htracks.of_mem_okFrames hframe
      exact ⟨frame, List.mem_toFinset.mpr (hown frame hframe hscreen), hkey⟩
    · rintro ⟨frame, hframe, hkey⟩
      have hframe := List.mem_toFinset.mp hframe
      have hgiven := (Pipeline.mem_taken.mp (hall hframe)).1
      exact ⟨frame, PipelineDecoder.mem_okFrames_of_genuine hf hi hsub hframe hgiven, hkey⟩
  have hinj : Set.InjOn keyOf (frames.toFinset : Set Str) := by
    intro x hx y hy hkey
    exact Pipeline.eq_of_keyOf_eq hf hn (List.mem_toFinset.mp hx) (List.mem_toFinset.mp hy) hkey
  refine ⟨?_, ?_, ?_⟩
  · rw [hhandler]
    exact hblocks.isComplete
  · rw [hhandler]
    apply hblocks.finish
    · rw [PipelineDecoder.run_toPipeline]
      exact Pipeline.payload_length_of_encode hf
    · rw [PipelineDecoder.run_toPipeline]
      exact hdigest
  · rw [h.frames_eq, hheld, Finset.card_image_of_injOn hinj]

end Capture

/-! ### From the screen to the decoder -/

namespace OpticalLink
open Capture Optical

/-- What `optical.Read` takes from the grids that were sampled from an image. -/
def readSampled {Image : Type} (sampled : Image → List Qr.Grid) (img : Image) : Option Str :=
  match firstReadable none (sampled img) with
  | .ok r => some r.data
  | .error _ => none

/-- A frame was on the screen in a run of the display, and in some image its code is legible. -/
def Seen {δ Image : Type} (m : Display.Means δ) (cfg : Display.Config) (frames : List Str)
    (events : List Display.Select) (sampled : Image → List Qr.Grid) (images : List Image)
    (i : ℕ) : Prop :=
  ∃ k < (Display.run m cfg frames events []).1.1.framesShown, k % frames.length = i ∧
    ∃ code, m.encode (Display.frameAt frames k) = .ok code ∧
      ∃ img ∈ images, Legible code (sampled img)

/-- A legible image of a screen is read as the frame on it. -/
lemma readSampled_of_legible {δ Image : Type} {m : Display.Means δ} (hstandard : m.codes.Standard)
    {frame : Str} {code : QRCode} (hcode : m.encode frame = .ok code)
    {sampled : Image → List Qr.Grid} {img : Image} (h : Legible code (sampled img)) :
    readSampled sampled img = some frame := by
  obtain ⟨result, hresult, hdata⟩ := gives_iff.mp (firstReadable_shown hstandard hcode h)
  rw [readSampled, hresult]
  exact congrArg some hdata

lemma Seen.exists_image {δ Image : Type} {m : Display.Means δ} {cfg : Display.Config}
    {frames : List Str} {events : List Display.Select} {sampled : Image → List Qr.Grid}
    {images : List Image} (hstandard : m.codes.Standard) {i : ℕ}
    (h : Seen m cfg frames events sampled images i) {frame : Str}
    (hframe : frames[i]? = some frame) :
    ∃ img ∈ images, readSampled sampled img = some frame := by
  obtain ⟨k, -, hk, code, hcode, img, himg, hlegible⟩ := h
  have hat : Display.frameAt frames k = frame := by
    rw [Display.frameAt, hk, List.getD_eq_getElem?_getD, hframe]
    rfl
  exact ⟨img, himg, readSampled_of_legible hstandard (hat ▸ hcode) hlegible⟩

/-- A terminal that takes everything, and codes as small as they can be. -/
def referenceMeans : Display.Means Empty :=
  ⟨fun _ _ => none, Reference.qrcodegen, Reference.codes, 0, 0x4D⟩

lemma exists_encode {data : Str} (hne : data ≠ []) (hlen : data.length ≤ 114) :
    ∃ code, referenceMeans.encode data = .ok code := by
  apply Reference.codes.exists_encodeQR .medium hne rfl
  have hfits : Qr.Fits 10 .medium data := by
    have hcapacity : Qr.capacity 10 .medium = 216 := by decide
    have hcount : Qr.countBits 10 = 16 := rfl
    rw [Qr.Fits, Qr.length_segment, hcapacity, hcount]
    omega
  have hfirst : (Reference.firstFit .medium 1 40 data).isSome := by
    unfold Reference.firstFit
    rw [List.find?_isSome]
    exact ⟨10, by decide, decide_eq_true hfits⟩
  obtain ⟨version, hversion⟩ := Option.isSome_iff_exists.mp hfirst
  exact Option.isSome_iff_exists.mpr ⟨_, Option.map_eq_some_iff.mpr ⟨version, hversion, rfl⟩⟩

lemma ne_nil_of_mem_encodeToBytes {b3 : Blake3} {rq : RaptorQ} {p : Pipeline} {payload : Str}
    {frames : List Str} (hf : p.encodeToBytes b3 rq payload = .ok frames) {frame : Str}
    (h : frame ∈ frames) : frame ≠ [] := by
  obtain ⟨i, j, block, packet, hsymbol⟩ := (Pipeline.mem_encodeToBytes hf).mp h
  obtain ⟨f, -, rfl, -⟩ := exists_of_isSymbolFrame hsymbol
  intro hnil
  have hlen := congrArg List.length hnil
  rw [Frame.toVec, List.length_append, FrameHeader.length_toVec, List.length_nil] at hlen
  exact absurd hlen (by unfold frameHeaderSize; omega)

def referenceConfig : Display.Config := ⟨10, 0, 0, Reference.sessionId, true⟩

lemma standard_reference : referenceMeans.codes.Standard := Reference.codes_standard

lemma legible_self (code : QRCode) : Legible code [code.grid] :=
  ⟨[], code.grid, [], rfl, by simp, Reference.near_self code⟩

/-- Frames that there are codes for. -/
structure Small (frames : List Str) : Prop where
  ne_nil : frames ≠ []
  each : ∀ frame ∈ frames, frame ≠ [] ∧ frame.length ≤ 114

/-- The codes of some frames, each in an image of its own. -/
def imagesOf (frames : List Str) : List QRCode :=
  frames.filterMap fun frame => (referenceMeans.encode frame).toOption

lemma mem_imagesOf {frames : List Str} {code : QRCode} : code ∈ imagesOf frames ↔
    ∃ frame ∈ frames, referenceMeans.encode frame = .ok code := by
  unfold imagesOf
  rw [List.mem_filterMap]
  apply exists_congr
  intro frame
  cases referenceMeans.encode frame <;> simp [Except.toOption]

lemma genuine_imagesOf {frames : List Str} {bytes : Str}
    (h : bytes ∈ (imagesOf frames).filterMap (readSampled fun code : QRCode => [code.grid])) :
    bytes ∈ frames := by
  obtain ⟨code, hcode, hbytes⟩ := List.mem_filterMap.mp h
  obtain ⟨frame, hframe, hencode⟩ := mem_imagesOf.mp hcode
  have hread : readSampled (fun code : QRCode => [code.grid]) code = some frame :=
    readSampled_of_legible standard_reference hencode (legible_self code)
  rw [hread, Option.some.injEq] at hbytes
  rwa [← hbytes]

section Small
variable {frames : List Str} (h : Small frames)
include h

lemma Small.frameAt_mem (k : ℕ) : Display.frameAt frames k ∈ frames := by
  have hlt : k % frames.length < frames.length :=
    Nat.mod_lt _ (List.length_pos_iff.mpr h.ne_nil)
  rw [Display.frameAt, List.getD_eq_getElem?_getD, List.getElem?_eq_getElem hlt]
  exact List.getElem_mem hlt

/-- A run of the display shows a screen each time that the timer fires. -/
lemma Small.framesShown (n : ℕ) :
    (Display.run referenceMeans referenceConfig frames (List.replicate n .due)
      []).1.1.framesShown = n := by
  have hloops : 0 ≤ referenceConfig.loops := le_rfl
  have hevents : List.replicate n Display.Select.due
      = List.replicate (Display.lead referenceConfig) .due ++ List.replicate n .due := rfl
  have hopening : ([] : List Str).flatten = Display.opening referenceMeans referenceConfig := rfl
  obtain ⟨k, hstats, -, hshows⟩ := Display.passes_spec hloops h.ne_nil hevents hopening
  have hfault : ∀ data : Str, data ≠ [] → data.length ≤ 114 →
      ¬Display.Fault referenceMeans data := by
    rintro data hnil hlen (⟨taken, p, hsink⟩ | ⟨e, he⟩)
    · exact hsink rfl
    · obtain ⟨code, hcode⟩ := exists_encode hnil hlen
      rw [hcode] at he
      cases he
  have hcal : ¬Display.Fault referenceMeans (Display.calibrationPayload referenceConfig) := by
    apply hfault <;> decide
  have hframe : ¬Display.Fault referenceMeans (Display.frameAt frames k) := by
    obtain ⟨hnil, hlen⟩ := h.each _ (h.frameAt_mem k)
    exact hfault _ hnil hlen
  have hstart : List.replicate n Display.Select.due
      = List.replicate (Display.lead referenceConfig + n) .due := by
    have hlead : Display.lead referenceConfig = 0 := rfl
    rw [hlead, Nat.zero_add]
  have hk : k = n := hshows.eq_of_due hstart rfl hcal hframe
  rw [Display.run_eq rfl h.ne_nil]
  exact (congrArg Display.Stats.framesShown hstats).trans hk

lemma Small.seen {i : ℕ} (hi : i < frames.length) :
    Seen referenceMeans referenceConfig frames (List.replicate frames.length .due)
      (fun code : QRCode => [code.grid]) (imagesOf frames) i := by
  have hmem := h.frameAt_mem i
  obtain ⟨hnil, hlen⟩ := h.each _ hmem
  obtain ⟨code, hcode⟩ := exists_encode hnil hlen
  refine ⟨i, by rwa [h.framesShown], Nat.mod_eq_of_lt hi, code, hcode, code, ?_, legible_self code⟩
  exact mem_imagesOf.mpr ⟨_, hmem, hcode⟩

end Small

end OpticalLink

end Dhow
