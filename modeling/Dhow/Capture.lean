import Dhow.Frame
import Mathlib.Data.Finset.Insert

/-!
# The capture reader

The package `capture`: the pre-filter in front of the decoder, and the reader that takes images
from a source through it into a handler. Locating and decoding the symbol of an image is the
parameter `read`. The direct mode is a function of what the source yields; in the buffered mode
the producer and the consumer take their steps in any order.
-/

namespace Dhow.Capture
open Bytes

/-! ### The pre-filter -/

def headerSize : ℕ := 46
def offsetMagic : ℕ := 0
def offsetVersion : ℕ := 4
def offsetSessionID : ℕ := 8
def offsetBlockIndex : ℕ := 32
def offsetSymbolIndex : ℕ := 36
def offsetPayloadLen : ℕ := 40
def offsetCRC : ℕ := 42

def frameVersion : UInt8 := 1

/-- ASCII "DHOW". -/
def frameMagic : Arr 4 := .cons 0x44 (.cons 0x48 (.cons 0x4F (.cons 0x57 .nil)))

inductive PrefilterError
  | tooShort (length : ℕ)
  | notAFrame
  | wrongVersion (version : UInt8)
  | wrongSession
  | lengthMismatch (declared carried : ℕ)
  | frameDamaged
  deriving DecidableEq

namespace PrefilterError

def notAFrameText : String := "capture: not a dhow frame"

def text : PrefilterError → String
  | tooShort length => notAFrameText ++ s!": {length} bytes is shorter than a header"
  | notAFrame => notAFrameText
  | wrongVersion version => s!"capture: unsupported frame version: version {version}"
  | wrongSession => "capture: frame belongs to another session"
  | lengthMismatch declared carried =>
    "capture: frame length disagrees with its header: " ++
      s!"header declares {declared} payload bytes, frame carries {carried}"
  | frameDamaged => "capture: frame failed its CRC"

end PrefilterError

structure Prefilter where
  sessionID : Arr 16
  deriving DecidableEq

def Prefilter.accept (p : Prefilter) (frame : Str) : Except PrefilterError Unit :=
  if frame.length < headerSize then .error (.tooShort frame.length)
  else if arrAt 4 frame offsetMagic ≠ frameMagic then .error .notAFrame
  else if u8At frame offsetVersion ≠ frameVersion then
    .error (.wrongVersion (u8At frame offsetVersion))
  else if arrAt 16 frame offsetSessionID ≠ p.sessionID then .error .wrongSession
  else
    let declared := (u16At frame offsetPayloadLen).toNat
    if frame.length - headerSize ≠ declared then
      .error (.lengthMismatch declared (frame.length - headerSize))
    else if crc32cDigest (frame.drop headerSize) ≠ u32At frame offsetCRC then .error .frameDamaged
    else .ok ()

/-- The block and the symbol a frame carries. -/
def position (frame : Str) : Option (UInt32 × UInt32) :=
  if frame.length < headerSize then none
  else some (u32At frame offsetBlockIndex, u32At frame offsetSymbolIndex)

/-- The key of a position in the set of held frames. -/
def heldKey (block symbol : UInt32) : UInt64 := block.toUInt64 <<< 32 ||| symbol.toUInt64

/-! ### The reader -/

structure Stats where
  images : ℕ
  dropped : ℕ
  unreadable : ℕ
  foreign : ℕ
  damaged : ℕ
  repeats : ℕ
  frames : ℕ
  skipped : ℕ
  deriving DecidableEq

def Stats.zero : Stats := ⟨0, 0, 0, 0, 0, 0, 0, 0⟩

/-- Every image is in exactly one bucket. -/
def Stats.Accounted (s : Stats) : Prop :=
  s.images = s.dropped + s.unreadable + s.foreign + s.damaged + s.repeats + s.frames + s.skipped

instance (s : Stats) : Decidable s.Accounted := inferInstanceAs (Decidable (_ = _))

/-- A handler with a state of its own: whether the decoder accepted the frame, or an error. -/
abbrev Handler (σ ε : Type) := σ → Str → Except ε Bool × σ

structure Reader where
  prefilter : Prefilter
  buffer : Bool

/-- "capture: handling frame block/symbol: err". -/
structure HandleError (ε : Type) where
  block : UInt32
  symbol : UInt32
  err : ε
  deriving DecidableEq

inductive RunError (ε η : Type)
  | source (err : η)
  | handling (err : HandleError ε)
  deriving DecidableEq

/-- What the consumer keeps between images. -/
structure Reading (σ : Type) where
  held : Finset UInt64
  stats : Stats
  handler : σ

def Reading.start {σ : Type} (handler : σ) : Reading σ := ⟨∅, .zero, handler⟩

section Reader
variable {Image σ ε η : Type} (read : Image → Option Str) (handle : Handler σ ε) (r : Reader)

/-- One image through detection, the pre-filter, and the handler. -/
def Reader.consume (img : Image) (s : Reading σ) : Reading σ × Option (HandleError ε) :=
  match read img with
  | none => ({ s with stats := { s.stats with unreadable := s.stats.unreadable + 1 } }, none)
  | some frame =>
    match r.prefilter.accept frame with
    | .error .frameDamaged =>
      ({ s with stats := { s.stats with damaged := s.stats.damaged + 1 } }, none)
    | .error _ => ({ s with stats := { s.stats with foreign := s.stats.foreign + 1 } }, none)
    | .ok () =>
      match position frame with
      | none => ({ s with stats := { s.stats with foreign := s.stats.foreign + 1 } }, none)
      | some (block, symbol) =>
        if heldKey block symbol ∈ s.held then
          ({ s with stats := { s.stats with repeats := s.stats.repeats + 1 } }, none)
        else
          match handle s.handler frame with
          | (.error err, h) => ({ s with handler := h }, some ⟨block, symbol, err⟩)
          | (.ok false, h) =>
            ({ s with handler := h, stats := { s.stats with foreign := s.stats.foreign + 1 } }, none)
          | (.ok true, h) =>
            ({ held := insert (heldKey block symbol) s.held
               handler := h
               stats := { s.stats with frames := s.stats.frames + 1 } }, none)

/-- How a source ends after its images: it is exhausted, or `Next` returns an error. -/
inductive Ending (η : Type)
  | exhausted
  | failed (err : η)

/-- The error of the run when the source has ended. A cancelled context is none. -/
def Ending.error (cancelled : Bool) : Ending η → Option η
  | exhausted => none
  | failed err => if cancelled then none else some err

/-- `runDirect` on a source that yields the images and then ends, with what the context says of
cancellation at that moment. -/
def Reader.runDirect (ending : Ending η) (cancelled : Bool) : List Image → Reading σ →
    Reading σ × Option (RunError ε η)
  | [], s => (s, (ending.error cancelled).map .source)
  | img :: images, s =>
    let s := { s with stats := { s.stats with images := s.stats.images + 1 } }
    match r.consume read handle img s with
    | (s, some err) => (s, some (.handling err))
    | (s, none) => runDirect ending cancelled images s

/-! ### The buffered mode -/

/-- Where the producer is: in front of `Next`, or of one of the three selects with an image in
hand, or past the end of its loop. -/
inductive Producer (Image : Type)
  | next
  | send (img : Image)
  | drain (img : Image)
  | resend (img : Image)
  | stopped

structure Production (η : Type) where
  images : ℕ
  dropped : ℕ
  err : Option η

/-- Where the consumer is: in front of the receive, with an image taken, or returned. -/
inductive Consumer (Image ε η : Type)
  | ranging
  | taken (img : Image)
  | returned (stats : Stats) (err : Option (RunError ε η))

/-- The state of `runBuffered`. The channel has room for one image, and is closed when the
producer has stopped. -/
structure Buffered (Image σ ε η : Type) where
  source : List Image
  cancelled : Bool
  producer : Producer Image
  production : Production η
  channel : Option Image
  consumer : Consumer Image ε η
  reading : Reading σ
  handleErr : Option (HandleError ε)

def Buffered.start (source : List Image) (handler : σ) : Buffered Image σ ε η where
  source := source
  cancelled := false
  producer := .next
  production := ⟨0, 0, none⟩
  channel := none
  consumer := .ranging
  reading := .start handler
  handleErr := none

/-- What a step does with an image. -/
inductive Event (Image : Type)
  | produced (img : Image)
  | dropped (img : Image)
  | received (img : Image)
  | silent

/-- The error that `runBuffered` returns. -/
def Buffered.error (b : Buffered Image σ ε η) : Option (RunError ε η) :=
  match b.handleErr with
  | some err => some (.handling err)
  | none => b.production.err.map .source

inductive Reader.Step (ending : Ending η) :
    Buffered Image σ ε η → Event Image → Buffered Image σ ε η → Prop
  | yield {b img rest} (hp : b.producer = .next) (hs : b.source = img :: rest) :
    Step ending b (.produced img)
      { b with
        source := rest
        producer := .send img
        production := { b.production with images := b.production.images + 1 } }
  | ended {b} (hp : b.producer = .next) (hs : b.source = []) :
    Step ending b .silent
      { b with
        producer := .stopped
        production := { b.production with err := ending.error b.cancelled } }
  -- `Next` may return an error as soon as the context is cancelled
  | interrupted {b} (hp : b.producer = .next) (hc : b.cancelled = true) :
    Step ending b .silent { b with producer := .stopped }
  | sent {b img} (hp : b.producer = .send img) (hc : b.channel = none) :
    Step ending b .silent { b with producer := .next, channel := some img }
  | full {b img pending} (hp : b.producer = .send img) (hc : b.channel = some pending) :
    Step ending b .silent { b with producer := .drain img }
  | drained {b img pending} (hp : b.producer = .drain img) (hc : b.channel = some pending) :
    Step ending b (.dropped pending)
      { b with
        producer := .resend img
        channel := none
        production := { b.production with dropped := b.production.dropped + 1 } }
  | emptied {b img} (hp : b.producer = .drain img) (hc : b.channel = none) :
    Step ending b .silent { b with producer := .resend img }
  | resent {b img} (hp : b.producer = .resend img) (hc : b.channel = none) :
    Step ending b .silent { b with producer := .next, channel := some img }
  | discarded {b img pending} (hp : b.producer = .resend img) (hc : b.channel = some pending) :
    Step ending b (.dropped img)
      { b with
        producer := .next
        production := { b.production with dropped := b.production.dropped + 1 } }
  | received {b img} (hr : b.consumer = .ranging) (hc : b.channel = some img) :
    Step ending b (.received img) { b with consumer := .taken img, channel := none }
  | skipped {b img err} (ht : b.consumer = .taken img) (he : b.handleErr = some err) :
    Step ending b .silent
      { b with
        consumer := .ranging
        reading := { b.reading with
          stats := { b.reading.stats with skipped := b.reading.stats.skipped + 1 } } }
  -- an error of the handler cancels the context
  | consumed {b img} (ht : b.consumer = .taken img) (he : b.handleErr = none) :
    Step ending b .silent
      { b with
        consumer := .ranging
        reading := (r.consume read handle img b.reading).1
        handleErr := (r.consume read handle img b.reading).2
        cancelled := b.cancelled || (r.consume read handle img b.reading).2.isSome }
  | returned {b} (hr : b.consumer = .ranging) (hc : b.channel = none)
      (hp : b.producer = .stopped) :
    Step ending b .silent
      { b with
        consumer := .returned { b.reading.stats with
          images := b.production.images
          dropped := b.production.dropped } b.error }
  | cancel {b} (hc : b.cancelled = false) : Step ending b .silent { b with cancelled := true }

/-- The steps from one state to another, in any order the two sides take them. -/
inductive Reader.Steps (ending : Ending η) (b : Buffered Image σ ε η) :
    List (Event Image) → Buffered Image σ ε η → Prop
  | refl : Steps ending b [] b
  | tail {evs c ev d} (hs : Steps ending b evs c) (h : r.Step read handle ending c ev d) :
    Steps ending b (evs ++ [ev]) d

end Reader

namespace Event
variable {Image : Type}

def producedImage : Event Image → Option Image
  | produced img => some img
  | _ => none

def droppedImage : Event Image → Option Image
  | dropped img => some img
  | _ => none

def receivedImage : Event Image → Option Image
  | received img => some img
  | _ => none

end Event

/-- The images produced along a run, in order. -/
def imagesProduced {Image : Type} (evs : List (Event Image)) : List Image :=
  evs.filterMap Event.producedImage

def imagesDropped {Image : Type} (evs : List (Event Image)) : List Image :=
  evs.filterMap Event.droppedImage

def imagesReceived {Image : Type} (evs : List (Event Image)) : List Image :=
  evs.filterMap Event.receivedImage

end Dhow.Capture
