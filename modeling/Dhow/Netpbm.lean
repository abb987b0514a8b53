import Dhow.Lib.ByteReader
import Dhow.Lib.Image
import Mathlib.Data.Nat.Digits.Lemmas

/-!
# Netpbm streams

The files `netpbm.go` and `source.go` of the package `capture`, as far as they read images from a
stream: the header in tokens, the pixels as declared, and the end of the stream. The reader knows
the end of the stream from a read that gets nothing.
-/

namespace Dhow.Netpbm
open Bytes GoImage
open Checked (alloc index store quot repeatFor)

inductive ReadError
  | eof
  | unexpectedEOF
  | notNetpbm (magic : Str)
  | implausibleSize (width height : ℕ)
  | maximum (maxValue : ℕ)
  | truncated (cause : ReadError)
  | fieldTooLong
  | notANumber (token : Str)
  | implausibleNumber
  | missingField
  deriving DecidableEq

namespace ReadError

/-- `quote` is the verb for a string in quotes. -/
def text (quote : Str → String) : ReadError → String
  | eof => "EOF"
  | unexpectedEOF => "unexpected EOF"
  | notNetpbm magic => s!"capture: {quote magic} is not a P5 or P6 image"
  | implausibleSize width height => s!"capture: image declares an implausible size {width}x{height}"
  | maximum maxValue => s!"capture: image declares a maximum value of {maxValue}"
  | truncated cause => "capture: image data is truncated: " ++ cause.text quote
  | fieldTooLong => "capture: image header field is implausibly long"
  | notANumber token => s!"capture: {quote token} is not a number in an image header"
  | implausibleNumber => "capture: image header declares an implausible number"
  | missingField => "capture: image header is missing a field"

/-- Whether the error is the end of the stream or wraps it. -/
def isEOF : ReadError → Bool
  | eof => true
  | truncated cause => cause.isEOF
  | _ => false

end ReadError

abbrev Reader (α : Type) := ByteReader ReadError α

/-! ### The header -/

def maxNetpbmDimension : ℕ := 16384

def hash : UInt8 := 0x23

def IsNewline (c : UInt8) : Prop := c = 0x0A ∨ c = 0x0D

def IsBlank (c : UInt8) : Prop := c = 0x20 ∨ c = 0x09 ∨ IsNewline c

instance (c : UInt8) : Decidable (IsNewline c) := by
  unfold IsNewline
  infer_instance

instance (c : UInt8) : Decidable (IsBlank c) := by
  unfold IsBlank
  infer_instance

/-- The token so far, and whether the reading is in a comment. A comment does not end a token, the
end of the stream does, unless it comes in a comment. -/
def scanToken (token : Str) : Bool → Reader Str
  | true, c :: s => if IsNewline c then scanToken token false s else scanToken token true s
  | false, c :: s =>
    if c = hash then scanToken token true s
    else if IsBlank c then if token ≠ [] then (.ok token, s) else scanToken token false s
    else if (token ++ [c]).length > 32 then (Checked.fail .fieldTooLong, s)
    else scanToken (token ++ [c]) false s
  | true, [] => (Checked.fail .eof, [])
  | false, [] => if token ≠ [] then (.ok token, []) else (Checked.fail .eof, [])

def readToken : Reader Str := scanToken [] false

def parseDigits (token : Str) : ℕ → Str → Checked ReadError ℕ
  | n, [] => .ok n
  | n, c :: cs =>
    if c < 0x30 ∨ c > 0x39 then Checked.fail (.notANumber token)
    else
      let n := n * 10 + (c - 0x30).toNat
      if n > 1 <<< 30 then Checked.fail .implausibleNumber else parseDigits token n cs

def readInt : Reader ℕ := do
  let token ← readToken
  let n ← ByteReader.lift (parseDigits token 0 token)
  if token = [] then ByteReader.fail .missingField else pure n

/-! ### The pixels -/

/-- One or two big-endian bytes. -/
def sampleAt (data : Str) (n bytesPerSample : ℕ) : Checked ReadError ℕ :=
  if bytesPerSample = 1 then do
    let b ← index data n
    .ok b.toNat
  else do
    let hi ← index data (2 * n)
    let lo ← index data (2 * n + 1)
    .ok (hi.toNat <<< 8 ||| lo.toNat)

def pixelValue (data : Str) (i channels bytesPerSample : ℕ) : Checked ReadError Float :=
  if channels = 1 then do
    let v ← sampleAt data i bytesPerSample
    .ok (Float.ofNat v)
  else do
    let r ← sampleAt data (i * 3) bytesPerSample
    let g ← sampleAt data (i * 3 + 1) bytesPerSample
    let b ← sampleAt data (i * 3 + 2) bytesPerSample
    -- The compiler may also fuse these products and sums, with one rounding for two.
    .ok (0.299 * Float.ofNat r + 0.587 * Float.ofNat g + 0.114 * Float.ofNat b)

def scaleValue (value : Float) (maxValue : ℕ) : UInt8 :=
  let scale := 255.0 / Float.ofNat maxValue
  let v := value * scale
  let v := if v > 255 then 255 else v
  v.toUInt8

def toGray (data : Str) (width height channels bytesPerSample maxValue : ℕ) :
    Checked ReadError Gray := do
  let out ← newGray (rect 0 0 width height)
  let pix ← repeatFor (fun i pix => do
    let value ← pixelValue data i channels bytesPerSample
    store pix i (scaleValue value maxValue)) out.pix (width * height)
  .ok { out with pix }

/-- The channels of a P5 and a P6 image. -/
def channelsOf (magic : Str) : Option ℕ :=
  if magic = [0x50, 0x35] then some 1 else if magic = [0x50, 0x36] then some 3 else none

def readNetpbm : Reader Gray := do
  let magic ← readToken
  match channelsOf magic with
  | none => ByteReader.fail (.notNetpbm magic)
  | some channels => do
    let width ← readInt
    let height ← readInt
    let maxValue ← readInt
    if width ≤ 0 ∨ height ≤ 0 ∨ width > maxNetpbmDimension ∨ height > maxNetpbmDimension then
      ByteReader.fail (.implausibleSize width height)
    else if maxValue ≤ 0 ∨ maxValue > 65535 then ByteReader.fail (.maximum maxValue)
    else do
      let bytesPerSample := if maxValue > 255 then 2 else 1
      let data ← ByteReader.readFull (width * height * channels * bytesPerSample)
        (.truncated .eof) (.truncated .unexpectedEOF)
      ByteReader.lift (toGray data width height channels bytesPerSample maxValue)

/-! ### The stream -/

inductive ContextError
  | canceled
  | deadlineExceeded
  deriving DecidableEq

inductive NextError
  | context (e : ContextError)
  | exhausted
  | read (e : ReadError)
  deriving DecidableEq

def Stream.next (ctx : Option ContextError) : ByteReader NextError Image := fun s =>
  match ctx with
  | some e => (Checked.fail (.context e), s)
  | none =>
    match readNetpbm s with
    | (.ok img, rest) => (.ok (.gray img), rest)
    | (.error (.panic p), rest) => (.error (.panic p), rest)
    | (.error (.fail e), rest) =>
      if e.isEOF then (Checked.fail .exhausted, rest) else (Checked.fail (.read e), rest)

/-! ### Writing -/

def decimalDigits (n : ℕ) : Str :=
  if n = 0 then [0x30] else (Nat.digits 10 n).reverse.map fun d => UInt8.ofNat (0x30 + d)

def decimal (n : ℤ) : Str :=
  if n < 0 then 0x2D :: decimalDigits n.natAbs else decimalDigits n.natAbs

/-- The lines `P5`, width and height, and `255`. -/
def header (width height : ℤ) : Str :=
  [0x50, 0x35, 0x0A] ++ decimal width ++ [0x20] ++ decimal height ++ [0x0A, 0x32, 0x35, 0x35, 0x0A]

def writeRow {ε : Type} (img : Image) (y : ℤ) (row : Str) : Checked ε Str :=
  repeatFor (fun i row => do
    let c ← img.colorAt (img.bounds.minX + i) y
    store row i c.luma) row img.bounds.dx.toNat

/-- What goes to a writer that takes everything. -/
def writeNetpbm {ε : Type} (img : Image) : Checked ε Str := do
  let b := img.bounds
  let row ← alloc 1 b.dx 0
  let (_, out) ← repeatFor (fun j (row, out) => do
    let row ← writeRow img (b.minY + j) row
    .ok (row, out ++ row)) (row, header b.dx b.dy) b.dy.toNat
  .ok out

end Dhow.Netpbm
