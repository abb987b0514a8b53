import Dhow.Optical.Finder
import Dhow.Optical.Transform
import Dhow.Qr.Decode

/-!
# Detection

The file `detect.go` of the package `optical`: the symbol of an image is located, its modules are
sampled at the sizes it may have, and the first of the grids that decodes is the result.
-/

namespace Dhow.Optical
open Checked GoFloat GoImage

inductive DetectError
  | noSymbol
  | noTrio (candidates : ℕ)
  | notSampleable
  | notReadable (err : Option Qr.QrError)
  deriving DecidableEq

namespace DetectError

def noSymbolText : String := "optical: no QR symbol found in the image"

def text : DetectError → String
  | noSymbol => noSymbolText
  | noTrio candidates => noSymbolText ++ s!": {candidates} finder pattern candidates"
  | notSampleable => "optical: located patterns do not form a QR symbol"
  | notReadable err =>
    "optical: symbol located but not readable: " ++ (err.elim "%!w(<nil>)" Qr.QrError.text)

end DetectError

variable {ε F : Type} [GoFloat F]

/-! ### Grids -/

/-- Modules outside the grid are not written. -/
def gridSet (g : Qr.Grid) (x y : ℤ) (dark : Bool) : Checked ε Qr.Grid :=
  if x < 0 ∨ y < 0 ∨ x ≥ g.size ∨ y ≥ g.size then .ok g
  else do
    let modules ← store g.dark (y * g.size + x) dark
    .ok { g with dark := modules }

def newGrid (size : ℤ) : Checked ε Qr.Grid := do
  let dark ← make (size * size) false
  .ok ⟨size, dark⟩

/-! ### Sampling -/

/-- Alone, or with the eight pixels around it. -/
def sampleModule (b : Bitmap) (x y : ℤ) (vote : Bool) : Checked ε Bool :=
  if !vote then b.darkAt x y
  else do
    let dark ← (⟨-1, -1, 2, 2⟩ : Rectangle).scan (fun dx dy (dark : ℤ) => do
      let d ← b.darkAt (x + dx) (y + dy)
      .ok (if d then dark + 1 else dark)) 0
    .ok (dark ≥ 5)

/-- The number of modules across, as far as the legs between the patterns tell. -/
def roundedDimension (c : Corners F) (moduleSize : F) : ℤ :=
  let across := round (distance c.topLeft c.topRight / moduleSize) + 7.0
  let down := round (distance c.topLeft c.bottomLeft / moduleSize) + 7.0
  toInt (round ((across + down) / 2.0))

/-- The same, moved toward a size that symbols have. -/
def validSize (dimension : ℤ) : ℤ :=
  if dimension.tmod 4 = 1 then dimension
  else if dimension.tmod 4 = 0 then dimension + 1
  else if dimension.tmod 4 = 2 then dimension - 1
  else dimension + 1

def estimateDimension (c : Corners F) (moduleSize : F) : Option ℤ :=
  let dimension := validSize (roundedDimension c moduleSize)
  if dimension < 21 ∨ dimension > 177 then none else some dimension

/-- The first alignment pattern that one of the windows has. -/
def findAlignmentIn (b : Bitmap) (estX estY moduleSize : F) :
    List F → Checked ε (Option (Pattern F))
  | [] => .ok none
  | allowance :: rest => do
    match ← findAlignment b estX estY moduleSize (allowance * moduleSize) with
    | some p => .ok (some p)
    | none => findAlignmentIn b estX estY moduleSize rest

/-- The fourth corner in the image, and where it is in the symbol, both ways the same. -/
structure Corner (F : Type) where
  x : F
  y : F
  source : F

def edge (dimension : ℤ) : F := ofInt dimension - 3.5

/-- Where the edges of the parallelogram meet, or the alignment pattern that is near. -/
def fourthCorner (b : Bitmap) (c : Corners F) (moduleSize : F) (dimension : ℤ)
    (useAlignment : Bool) : Checked ε (Corner F) :=
  let cornerX := c.topRight.x - c.topLeft.x + c.bottomLeft.x
  let cornerY := c.topRight.y - c.topLeft.y + c.bottomLeft.y
  let assumed : Corner F := ⟨cornerX, cornerY, edge dimension⟩
  if useAlignment && decide ((dimension - 17).tdiv 4 ≥ 2) then do
    let between : F := ofInt (dimension - 7)
    let toward := 1 - 3.0 / between
    let estX := c.topLeft.x + toward * (cornerX - c.topLeft.x)
    let estY := c.topLeft.y + toward * (cornerY - c.topLeft.y)
    match ← findAlignmentIn b estX estY moduleSize [4.0, 8.0, 16.0] with
    | some p => .ok ⟨p.x, p.y, edge dimension - 3.0⟩
    | none => .ok assumed
  else .ok assumed

/-- The transform from the modules of a symbol to the pixels of the image. -/
def moduleTransform (c : Corners F) (dimension : ℤ) (fourth : Corner F) : Option (Transform F) :=
  quadToQuad ⟨3.5, 3.5, edge dimension, 3.5, fourth.source, fourth.source, 3.5, edge dimension⟩
    ⟨c.topLeft.x, c.topLeft.y, c.topRight.x, c.topRight.y, fourth.x, fourth.y, c.bottomLeft.x,
      c.bottomLeft.y⟩

/-- A module that has no pixel of the image stays light. -/
def sampleInto (b : Bitmap) (t : Transform F) (vote : Bool) (x y : ℤ) (g : Qr.Grid) :
    Checked ε Qr.Grid :=
  let p := t.apply (ofInt x + 0.5) (ofInt y + 0.5)
  if isNaN p.1 || isNaN p.2 || isInf p.1 || isInf p.2 then .ok g
  else
    let ix := toInt (round p.1)
    let iy := toInt (round p.2)
    if ix < 0 ∨ iy < 0 ∨ ix ≥ b.w ∨ iy ≥ b.h then .ok g
    else do
      let dark ← sampleModule b ix iy vote
      gridSet g x y dark

def sampleAt (b : Bitmap) (c : Corners F) (moduleSize : F) (dimension : ℤ) (useAlignment : Bool) :
    Checked ε (Option Qr.Grid) := do
  let fourth ← fourthCorner b c moduleSize dimension useAlignment
  match moduleTransform c dimension fourth with
  | none => .ok none
  | some t =>
    let vote := decide (moduleSize ≥ 5.0)
    let g ← newGrid dimension
    let g ← (⟨0, 0, dimension, dimension⟩ : Rectangle).scan (sampleInto b t vote) g
    .ok (some g)

/-- The sizes that are tried, and whether the fourth corner is looked for. -/
def attempts (dimension : ℤ) : List (ℤ × Bool) :=
  ([dimension, dimension - 4, dimension + 4].filter fun d => ¬(d < 21 ∨ d > 177)).flatMap
    fun d => [(d, true), (d, false)]

def sampleGrids (b : Bitmap) (c : Corners F) (moduleSize : F) (dimension : ℤ) :
    Checked ε (List Qr.Grid) :=
  forEach (fun (d, useAlignment) grids => do
    match ← sampleAt b c moduleSize d useAlignment with
    | none => .ok grids
    | some g => .ok (grids ++ [g])) (attempts dimension) []

/-- Along the axes of the symbol, or as the scan lines have it. -/
def measuredModuleSize (b : Bitmap) (c : Corners F) : Checked ε F := do
  let across ← moduleSizeBetween b c.topLeft c.topRight
  let down ← moduleSizeBetween b c.topLeft c.bottomLeft
  let moduleSize := (across + down) / 2.0
  if isNaN moduleSize ∨ moduleSize ≤ 0 then
    .ok ((c.topLeft.moduleSize + c.topRight.moduleSize + c.bottomLeft.moduleSize) / 3.0)
  else .ok moduleSize

def sampleCorners (b : Bitmap) (c : Corners F) : Checked DetectError (List Qr.Grid) := do
  let moduleSize ← measuredModuleSize b c
  if moduleSize ≤ 0 then fail .notSampleable
  else
    match estimateDimension c moduleSize with
    | none => fail .notSampleable
    | some dimension =>
      let grids ← sampleGrids b c moduleSize dimension
      if grids.isEmpty then fail .notSampleable else .ok grids

def sample (F : Type) [GoFloat F] : Option Bitmap → Checked DetectError (List Qr.Grid)
  | none => fail .noSymbol
  | some b =>
    if b.w ≤ 0 ∨ b.h ≤ 0 then fail .noSymbol
    else do
      let candidates ← findFinderPatterns (F := F) b
      match selectThree candidates with
      | none => fail (.noTrio candidates.length)
      | some trio => sampleCorners b (orderPatterns trio)

/-! ### Reading -/

/-- The first grid that decodes; the error is that of the last one. -/
def firstReadable (lastErr : Option Qr.QrError) : List Qr.Grid → Checked DetectError Qr.Result
  | [] => fail (.notReadable lastErr)
  | g :: grids =>
    match Qr.decode (some g) with
    | .ok r => .ok r
    | .error (.panic p) => .error (.panic p)
    | .error (.fail err) => firstReadable (some err) grids

def readBitmap (F : Type) [GoFloat F] (b : Option Bitmap) : Checked DetectError Qr.Result := do
  let grids ← sample F b
  firstReadable none grids

def read (F : Type) [GoFloat F] (img : Image) : Checked DetectError Qr.Result := do
  let b ← binarize img
  readBitmap F (some b)

end Dhow.Optical
