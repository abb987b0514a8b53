import Dhow.Lib.GoFloat
import Dhow.Optical.Bitmap

/-!
# Finder patterns

The file `finder.go` of the package `optical`: the runs of one colour along a line, the finder
patterns they give away, the choice of three of them, the width of a module between two, and the
alignment pattern near the fourth corner.
-/

namespace Dhow.Optical
open Checked GoFloat

variable {ε F : Type} [GoFloat F]

/-- A located pattern: its centre, the width of a module there, and how many scan lines agree. -/
structure Pattern (F : Type) where
  x : F
  y : F
  moduleSize : F
  count : ℤ

def distance (a b : Pattern F) : F := hypot (a.x - b.x) (a.y - b.y)

/-! ### Runs -/

structure Run where
  start : ℤ
  length : ℤ
  dark : Bool
  deriving DecidableEq

def runsAlong (n : ℤ) (dark : ℤ → Checked ε Bool) : Checked ε (List Run) :=
  if n ≤ 0 then .ok []
  else do
    let d ← dark 0
    let (runs, current) ← repeatFor (fun k (runs, current) => do
      let i : ℤ := k + 1
      let d ← dark i
      if d = current.dark then .ok (runs, { current with length := current.length + 1 })
      else .ok (runs ++ [current], ⟨i, 1, d⟩)) (([] : List Run), (⟨0, 1, d⟩ : Run)) (n - 1).toNat
    .ok (runs ++ [current])

def rowRuns (b : Bitmap) (y : ℤ) : Checked ε (List Run) := runsAlong b.w fun x => b.darkAt x y

def columnRuns (b : Bitmap) (x : ℤ) : Checked ε (List Run) := runsAlong b.h fun y => b.darkAt x y

/-- The lengths of five runs in a row. -/
structure Counts where
  c₀ : ℤ
  c₁ : ℤ
  c₂ : ℤ
  c₃ : ℤ
  c₄ : ℤ
  deriving DecidableEq

def Counts.total (c : Counts) : ℤ := c.c₀ + c.c₁ + c.c₂ + c.c₃ + c.c₄

/-- The five runs from the `k`-th on. -/
def countsAt (runs : List Run) (k : ℤ) : Checked ε Counts := do
  let r₀ ← index runs k
  let r₁ ← index runs (k + 1)
  let r₂ ← index runs (k + 2)
  let r₃ ← index runs (k + 3)
  let r₄ ← index runs (k + 4)
  .ok ⟨r₀.length, r₁.length, r₂.length, r₃.length, r₄.length⟩

/-- The module size that five runs of the proportions 1:1:3:1:1 imply. -/
def isFinderRatio (c : Counts) : Option F :=
  if c.c₀ = 0 ∨ c.c₁ = 0 ∨ c.c₂ = 0 ∨ c.c₃ = 0 ∨ c.c₄ = 0 then none
  else if c.total < 7 then none
  else
    let moduleSize : F := ofInt c.total / 7.0
    let variance := moduleSize / 2.0
    if abs (moduleSize - ofInt c.c₀) ≥ variance ∨ abs (moduleSize - ofInt c.c₁) ≥ variance ∨
        abs (3.0 * moduleSize - ofInt c.c₂) ≥ 3.0 * variance ∨
        abs (moduleSize - ofInt c.c₃) ≥ variance ∨ abs (moduleSize - ofInt c.c₄) ≥ variance then none
    else some moduleSize

def centreOfRun (r : Run) : F := ofInt r.start + ofInt r.length / 2.0

/-! ### Candidates -/

/-- The centre and the lengths of the five runs around a point, if they have the proportions and
fit what was measured the other way. -/
def crossCheck (runs : List Run) (centre : F) (maxCentre originalTotal : ℤ) :
    Checked ε (Option (F × Counts)) :=
  match runs.findIdx? fun r => ofInt r.start ≤ centre ∧ centre < ofInt (r.start + r.length) with
  | none => .ok none
  | some i => do
    let r ← index runs i
    if ¬r.dark ∨ i < 2 ∨ i + 2 ≥ runs.length then .ok none
    else
      let counts ← countsAt runs (i - 2)
      if counts.c₂ > 2 * maxCentre + 2 then .ok none
      else if (isFinderRatio counts : Option F).isNone then .ok none
      else if 5 * |counts.total - originalTotal| ≥ 2 * originalTotal then .ok none
      else .ok (some (centreOfRun r, counts))

/-- A candidate of a row is checked down its column and again along the row it leads to. -/
def confirmFinder (b : Bitmap) (cx cy : F) (horizontal : Counts) :
    Checked ε (Option (Pattern F)) := do
  let total := horizontal.total
  let column ← columnRuns b (toInt cx)
  match ← crossCheck column cy horizontal.c₂ total with
  | none => .ok none
  | some (centreY, vertical) =>
    let row ← rowRuns b (toInt centreY)
    match ← crossCheck row cx vertical.c₂ total with
    | none => .ok none
    | some (centreX, _) => .ok (some ⟨centreX, centreY, ofInt total / 7.0, 1⟩)

/-- One more sighting of a pattern. -/
def Pattern.fold (f p : Pattern F) : Pattern F :=
  let n : F := ofInt f.count
  { x := (f.x * n + p.x) / (n + 1)
    y := (f.y * n + p.y) / (n + 1)
    moduleSize := (f.moduleSize * n + p.moduleSize) / (n + 1)
    count := f.count + 1 }

def merge : List (Pattern F) → Pattern F → List (Pattern F)
  | [], p => [p]
  | f :: found, p =>
    let diff := abs (f.moduleSize - p.moduleSize)
    if abs (f.x - p.x) > f.moduleSize ∨ abs (f.y - p.y) > f.moduleSize then f :: merge found p
    else if diff > 1 ∧ diff > f.moduleSize then f :: merge found p
    else f.fold p :: found

/-- What the five runs from the `k`-th on add to the patterns found. -/
def scanWindow (b : Bitmap) (y : ℤ) (runs : List Run) (k : ℕ) (found : List (Pattern F)) :
    Checked ε (List (Pattern F)) := do
  let first ← index runs k
  if ¬first.dark then .ok found
  else
    let counts ← countsAt runs k
    if (isFinderRatio counts : Option F).isNone then .ok found
    else
      let middle ← index runs (k + 2)
      match ← confirmFinder b (centreOfRun middle) (ofInt y) counts with
      | none => .ok found
      | some p => .ok (merge found p)

def scanRow (b : Bitmap) (y : ℤ) (found : List (Pattern F)) : Checked ε (List (Pattern F)) := do
  let runs ← rowRuns b y
  repeatFor (scanWindow b y runs) found (runs.length - 4)

/-- How many rows lie between two that are scanned. -/
def stride (b : Bitmap) : ℤ := max ((b.h.tdiv (4 * 57)) * 3) 3

def findFinderPatterns (b : Bitmap) : Checked ε (List (Pattern F)) := do
  let (_, found) ← whileLoop (fun (y, _) => .ok (y < b.h)) (fun (y, found) => do
    let found ← scanRow b y found
    .ok (y + stride b, found)) (b.h.toNat + 1) (stride b - 1, [])
  .ok found

/-! ### The choice of three -/

structure Trio (F : Type) where
  p₀ : Pattern F
  p₁ : Pattern F
  p₂ : Pattern F

/-- The z component of the product of the vectors from `b`. -/
def cross (a b c : Pattern F) : F := (c.x - b.x) * (a.y - b.y) - (c.y - b.y) * (a.x - b.x)

/-- The corners of a symbol by their places. -/
structure Corners (F : Type) where
  topLeft : Pattern F
  topRight : Pattern F
  bottomLeft : Pattern F

def orderPatterns (trio : Trio F) : Corners F :=
  let d01 := distance trio.p₀ trio.p₁
  let d12 := distance trio.p₁ trio.p₂
  let d02 := distance trio.p₀ trio.p₂
  let (topLeft, a, b) :=
    if d12 ≥ d01 ∧ d12 ≥ d02 then (trio.p₀, trio.p₁, trio.p₂)
    else if d02 ≥ d12 ∧ d02 ≥ d01 then (trio.p₁, trio.p₀, trio.p₂)
    else (trio.p₂, trio.p₀, trio.p₁)
  if cross a topLeft b < 0 then ⟨topLeft, a, b⟩ else ⟨topLeft, b, a⟩

def sizeSpread (trio : Trio F) (mean : F) : F :=
  [trio.p₀.moduleSize, trio.p₁.moduleSize, trio.p₂.moduleSize].foldl
    (fun spread s => spread + abs (s - mean) / mean) 0.0

/-- How badly three patterns fit the corners of a symbol, unless they cannot be that. -/
def scoreTrio (trio : Trio F) : Option F :=
  let mean := (trio.p₀.moduleSize + trio.p₁.moduleSize + trio.p₂.moduleSize) / 3.0
  if mean ≤ 0 then none
  else
    let spread := sizeSpread trio mean
    if spread > 1.5 then none
    else
      let c := orderPatterns trio
      let legA := distance c.topLeft c.topRight
      let legB := distance c.topLeft c.bottomLeft
      if legA < 3.0 * mean ∨ legB < 3.0 * mean then none
      else
        let legRatio := abs (legA - legB) / GoFloat.max legA legB
        if legRatio > 0.5 then none
        else
          let diagonal := distance c.topRight c.bottomLeft
          let expected := GoFloat.max legA legB * sqrt2
          let squareness := abs (diagonal - expected) / expected
          if squareness > 0.4 then none else some (spread + legRatio + squareness)

/-- The pairs of elements, the earlier one first. -/
def pairs {α : Type} : List α → List (α × α)
  | [] => []
  | a :: as => as.map (fun b => (a, b)) ++ pairs as

/-- The elements three by three, in the order of the list. -/
def trios : List (Pattern F) → List (Trio F)
  | [] => []
  | a :: as => (pairs as).map (fun p => ⟨a, p.1, p.2⟩) ++ trios as

/-- The best of the trios so far, if any, and its score. -/
def better (best : F × Option (Trio F)) (trio : Trio F) : F × Option (Trio F) :=
  match scoreTrio trio with
  | some score => if score < best.1 then (score, some trio) else best
  | none => best

/-- The patterns seen most often, and no more than eight. -/
def strongest (candidates : List (Pattern F)) : List (Pattern F) :=
  (candidates.mergeSort fun a b => decide (b.count ≤ a.count)).take 8

def selectThree (candidates : List (Pattern F)) : Option (Trio F) :=
  if candidates.length < 3 then none
  else
    let (bestScore, best) := (trios (strongest candidates)).foldl better (inf, none)
    if isPosInf bestScore then none else best

/-! ### The width of a module -/

/-- A walk along a line, one step at a time in its longer direction. -/
structure Walk (F : Type) where
  x : ℤ
  y : ℤ
  err : ℤ
  /-- In the dark centre, in the light ring, or in the dark ring. -/
  state : ℕ
  /-- The walk came to the end of the shorter direction. -/
  stopped : Bool
  travelled : Option F

/-- The line of a walk; a steep one has its coordinates exchanged. -/
structure Line where
  steep : Bool
  fromX : ℤ
  fromY : ℤ
  toX : ℤ
  toY : ℤ

namespace Line

def between (fromX fromY toX toY : ℤ) : Line :=
  if |toY - fromY| > |toX - fromX| then ⟨true, fromY, fromX, toY, toX⟩
  else ⟨false, fromX, fromY, toX, toY⟩

def dx (l : Line) : ℤ := |l.toX - l.fromX|
def dy (l : Line) : ℤ := |l.toY - l.fromY|
def xStep (l : Line) : ℤ := if l.fromX ≥ l.toX then -1 else 1
def yStep (l : Line) : ℤ := if l.fromY ≥ l.toY then -1 else 1
def limit (l : Line) : ℤ := l.toX + l.xStep

def darkAt (l : Line) (b : Bitmap) (x y : ℤ) : Checked ε Bool :=
  if l.steep then b.darkAt y x else b.darkAt x y

/-- The step to the next point of the line. -/
def advance (l : Line) (s : Walk F) : Walk F :=
  let err := s.err + l.dy
  if err > 0 then
    if s.y = l.toY then { s with err, stopped := true }
    else { s with x := s.x + l.xStep, y := s.y + l.yStep, err := err - l.dx }
  else { s with x := s.x + l.xStep, err }

def pass (l : Line) (b : Bitmap) (s : Walk F) : Checked ε (Walk F) := do
  let dark ← l.darkAt b s.x s.y
  if decide (s.state = 1) = dark then
    if s.state = 2 then
      .ok { s with travelled := some (hypot (ofInt (s.x - l.fromX)) (ofInt (s.y - l.fromY))) }
    else .ok (l.advance { s with state := s.state + 1 })
  else .ok (l.advance s)

def walk (l : Line) (b : Bitmap) : Checked ε (Walk F) :=
  whileLoop (fun s => .ok (s.x ≠ l.limit ∧ ¬s.stopped ∧ s.travelled.isNone)) (l.pass b)
    ((l.limit - l.fromX).natAbs + 1) ⟨l.fromX, l.fromY, (-l.dx).tdiv 2, 0, false, none⟩

end Line

/-- How far it is from a point towards another to the end of the second dark region. -/
def blackWhiteBlackRun (b : Bitmap) (fromXf fromYf toXf toYf : F) : Checked ε F := do
  let l := Line.between (toInt fromXf) (toInt fromYf) (toInt toXf) (toInt toYf)
  let s ← l.walk b
  match s.travelled with
  | some d => .ok d
  | none =>
    if s.state = 2 then .ok (hypot (ofInt (l.limit - l.fromX)) (ofInt (l.toY - l.fromY)))
    else .ok nan

/-- A coordinate beyond the image, and the scale that takes the other to the edge. -/
def clip (start other size : F) : F × F :=
  if other < 0 then (0, start / (start - other))
  else if other ≥ size then (size - 1, (size - 1 - start) / (other - start))
  else (other, 1.0)

def blackWhiteBlackBothWays (b : Bitmap) (fromX fromY toX toY : F) : Checked ε F := do
  let forward ← blackWhiteBlackRun b fromX fromY toX toY
  let (otherX, scale) := clip fromX (fromX - (toX - fromX)) (ofInt b.w)
  let (otherY, scale) := clip fromY (fromY - (toY - fromY) * scale) (ofInt b.h)
  let otherX := fromX + (otherX - fromX) * scale
  let backward ← blackWhiteBlackRun b fromX fromY otherX otherY
  if isNaN forward || isNaN backward then .ok nan else .ok (forward + backward - 1)

def moduleSizeBetween (b : Bitmap) (a c : Pattern F) : Checked ε F := do
  let one ← blackWhiteBlackBothWays b a.x a.y c.x c.y
  let other ← blackWhiteBlackBothWays b c.x c.y a.x a.y
  if isNaN one && isNaN other then .ok nan
  else if isNaN one then .ok (other / 7.0)
  else if isNaN other then .ok (one / 7.0)
  else .ok ((one + other) / 14.0)

/-! ### The alignment pattern -/

/-- Whether a run is one module long. -/
def oneModule (moduleSize : F) (r : Run) : Prop :=
  abs (ofInt r.length - moduleSize) < moduleSize / 2.0

instance (moduleSize : F) (r : Run) : Decidable (oneModule moduleSize r) :=
  inferInstanceAs (Decidable (_ < _))

/-- The centre of the dark run of a column that has a row in it, between light runs of its size. -/
def verifyAlignmentRuns (y : ℤ) (moduleSize : F) : List Run → Option F
  | r₀ :: mid :: r₂ :: rest =>
    if r₀.dark ∨ ¬mid.dark ∨ r₂.dark then verifyAlignmentRuns y moduleSize (mid :: r₂ :: rest)
    else if mid.start > y ∨ mid.start + mid.length ≤ y then
      verifyAlignmentRuns y moduleSize (mid :: r₂ :: rest)
    else if abs (ofInt r₀.length - moduleSize) ≥ moduleSize / 2.0 ∨
        abs (ofInt mid.length - moduleSize) ≥ moduleSize / 2.0 ∨
        abs (ofInt r₂.length - moduleSize) ≥ moduleSize / 2.0 then none
    else some (centreOfRun mid)
  | _ => none

def verifyAlignmentColumn (b : Bitmap) (x y : ℤ) (moduleSize : F) : Checked ε (Option F) := do
  let runs ← columnRuns b x
  .ok (verifyAlignmentRuns y moduleSize runs)

/-- The points of an alignment pattern that are looked at, and whether they are to be dark. -/
def alignmentPoints : List (ℤ × ℤ × Bool) :=
  [(0, 0, true),
    (-1, -1, false), (0, -1, false), (1, -1, false), (-1, 0, false), (1, 0, false),
    (-1, 1, false), (0, 1, false), (1, 1, false),
    (-2, -2, true), (0, -2, true), (2, -2, true), (-2, 0, true), (2, 0, true),
    (-2, 2, true), (0, 2, true), (2, 2, true)]

def looksLikeAlignment (b : Bitmap) (cx cy moduleSize : F) : Checked ε Bool := do
  let (agree, total) ← forEach (fun (dx, dy, wantDark) (agree, total) => do
    let dark ← b.darkAt (toInt (cx + ofInt dx * moduleSize)) (toInt (cy + ofInt dy * moduleSize))
    .ok (if dark = wantDark then agree + 1 else agree, total + 1)) alignmentPoints
    ((0 : ℤ), (0 : ℤ))
  .ok (total - agree ≤ 3)

/-- A window of the image, and the point it is searched around. -/
structure Search (F : Type) where
  cx : F
  cy : F
  moduleSize : F
  left : ℤ
  right : ℤ
  top : ℤ
  bottom : ℤ

/-- The nearest alignment pattern so far, if any, and how far it is. -/
abbrev Nearest (F : Type) := F × Option (Pattern F)

/-- The pattern that three runs of a row give away, if the column and the points around it agree. -/
def alignmentAt (b : Bitmap) (w : Search F) (y : ℤ) (r₀ r₁ r₂ : Run) :
    Checked ε (Option (Pattern F)) :=
  if r₀.dark ∨ ¬r₁.dark ∨ r₂.dark then .ok none
  else if r₁.start < w.left - toInt w.moduleSize ∨ r₁.start > w.right + toInt w.moduleSize then
    .ok none
  else if ¬oneModule w.moduleSize r₀ ∨ ¬oneModule w.moduleSize r₁ ∨ ¬oneModule w.moduleSize r₂ then
    .ok none
  else do
    let px : F := centreOfRun r₁
    match ← verifyAlignmentColumn b (toInt px) y w.moduleSize with
    | none => .ok none
    | some py =>
      if ← looksLikeAlignment b px py w.moduleSize then .ok (some ⟨px, py, w.moduleSize, 1⟩)
      else .ok none

def searchWindow (b : Bitmap) (w : Search F) (y : ℤ) (runs : List Run) (k : ℕ)
    (best : Nearest F) : Checked ε (Nearest F) := do
  let r₀ ← index runs k
  let r₁ ← index runs (k + 1)
  let r₂ ← index runs (k + 2)
  match ← alignmentAt b w y r₀ r₁ r₂ with
  | none => .ok best
  | some p =>
    let d := hypot (p.x - w.cx) (p.y - w.cy)
    .ok (if d < best.1 then (d, some p) else best)

def searchRow (b : Bitmap) (w : Search F) (y : ℤ) (best : Nearest F) : Checked ε (Nearest F) := do
  let runs ← rowRuns b y
  repeatFor (searchWindow b w y runs) best (runs.length - 2)

def findAlignment (b : Bitmap) (cx cy moduleSize allowance : F) :
    Checked ε (Option (Pattern F)) :=
  let left := max (toInt (cx - allowance)) 0
  let right := min (toInt (cx + allowance)) (b.w - 1)
  let top := max (toInt (cy - allowance)) 0
  let bottom := min (toInt (cy + allowance)) (b.h - 1)
  if (ofInt (right - left) : F) < 3.0 * moduleSize ∨ (ofInt (bottom - top) : F) < 3.0 * moduleSize
  then .ok none
  else do
    let (bestDistance, best) ← repeatFor (fun i =>
      searchRow b ⟨cx, cy, moduleSize, left, right, top, bottom⟩ (top + i)) (inf, none)
      (bottom - top + 1).toNat
    .ok (if isPosInf bestDistance then none else best)

end Dhow.Optical
