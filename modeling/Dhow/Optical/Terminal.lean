import Dhow.Lib.BufferedWriter
import Dhow.Lib.Utf8
import Dhow.Optical.Rendering

/-!
# The terminal

A grid of modules in block characters, as `render` writes it to a terminal, and what a reader of
the text makes of it: every cell of the margin is light, and every other is as its module is.
-/

namespace Dhow.Optical
open Bytes Writing

variable {δ : Type}

/-- Two full blocks, as a cell is about twice as tall as it is wide. -/
def darkCell : Str := [0xE2, 0x96, 0x88, 0xE2, 0x96, 0x88]

def lightCell : Str := [0x20, 0x20]

def newline : UInt8 := 0x0A

inductive TerminalError (δ : Type)
  | quietZone (e : δ)
  | row (y : ℕ) (e : δ)
  | flush (e : δ)
  deriving DecidableEq

def TerminalError.text (text : δ → String) : TerminalError δ → String
  | quietZone e => s!"writing quiet zone: {text e}"
  | row y e => s!"writing row {y}: {text e}"
  | flush e => text e

def quietRows : ℕ := quietZone.toNat

/-- A line of the margin. -/
def terminalBlank (sink : Sink δ) (blank bw : Str) : Writing (TerminalError δ) Str :=
  (do
    let bw ← bufWrite sink blank bw
    bufWriteByte sink newline bw).mapError .quietZone

/-- By `QRCode.dark_eq` the test is `QRCode.dark`, which never fails. -/
def terminalRow (sink : Sink δ) (qr : QRCode) (y : ℕ) (bw : Str) : Writing (TerminalError δ) Str :=
  (do
    let bw ← forRange (fun _ => bufWrite sink lightCell) quietRows bw
    let bw ← forRange (fun x => bufWrite sink (if qr.IsDark x y then darkCell else lightCell))
      qr.size bw
    let bw ← forRange (fun _ => bufWrite sink lightCell) quietRows bw
    bufWriteByte sink newline bw).mapError (.row y)

def terminal (sink : Sink δ) (qr : QRCode) : Writing (TerminalError δ) Unit := do
  let total := qr.size + 2 * quietRows
  let blank := (List.replicate total lightCell).flatten
  let bw ← forRange (fun _ => terminalBlank sink blank) quietRows []
  let bw ← forRange (terminalRow sink qr) qr.size bw
  let bw ← forRange (fun _ => terminalBlank sink blank) quietRows bw
  (Writing.flush sink bw).mapError .flush

/-! ### The picture -/

namespace QRCode
variable (qr : QRCode)

/-- What is at a place of the picture, whose margin is four cells wide. -/
def Shown (c r : ℕ) : Prop := qr.IsDark (c - quietZone) (r - quietZone)

instance (c r : ℕ) : Decidable (qr.Shown c r) := by
  unfold Shown
  infer_instance

def width : ℕ := qr.size + 2 * quietRows

def cell (r c : ℕ) : Str := if qr.Shown c r then darkCell else lightCell

def line (r : ℕ) : Str := (List.range qr.width).flatMap (qr.cell r) ++ [newline]

/-- The text of a grid with its margin. -/
def picture : Str := (List.range qr.width).flatMap qr.line

/-- A place of the margin is light. -/
lemma not_shown {c r : ℕ}
    (h : c < quietRows ∨ qr.size + quietRows ≤ c ∨ r < quietRows ∨ qr.size + quietRows ≤ r) :
    ¬qr.Shown c r := by
  intro hdark
  have hin := hdark.1
  unfold quietZone at hin
  unfold quietRows quietZone at h
  omega

lemma shown_add (x y : ℕ) : qr.Shown (quietRows + x) (quietRows + y) ↔ qr.IsDark x y := by
  have hzone : ∀ z : ℕ, ((quietRows + z : ℕ) : ℤ) - quietZone = z := by
    intro z
    unfold quietRows quietZone
    omega
  unfold Shown
  rw [hzone, hzone]

/-- A range with its margins. -/
lemma flatMap_range_width {α : Type} (f : ℕ → List α) :
    (List.range qr.width).flatMap f = (List.range quietRows).flatMap f
      ++ ((List.range qr.size).flatMap (fun x => f (quietRows + x))
      ++ (List.range quietRows).flatMap fun x => f (quietRows + qr.size + x)) := by
  have hwidth : qr.width = quietRows + qr.size + quietRows := by
    unfold width
    omega
  rw [hwidth, List.range_add, List.flatMap_append, List.range_add, List.flatMap_append,
    List.flatMap_map, List.flatMap_map, List.append_assoc]

lemma cell_of_margin {c r : ℕ}
    (h : c < quietRows ∨ qr.size + quietRows ≤ c ∨ r < quietRows ∨ qr.size + quietRows ≤ r) :
    qr.cell r c = lightCell := if_neg (qr.not_shown h)

def blank : Str := (List.replicate qr.width lightCell).flatten

lemma line_of_margin {r : ℕ} (h : r < quietRows ∨ qr.size + quietRows ≤ r) :
    qr.line r = qr.blank ++ [newline] := by
  unfold line blank
  rw [List.flatMap_congr fun c _ => qr.cell_of_margin (.inr (.inr h)), List.flatMap_def,
    List.map_const', List.length_range]

/-- A line of the grid with its margins. -/
lemma line_add (y : ℕ) :
    qr.line (quietRows + y) = (List.range quietRows).flatMap (fun _ => lightCell)
      ++ ((List.range qr.size).flatMap
        (fun x : ℕ => if qr.IsDark x y then darkCell else lightCell)
      ++ ((List.range quietRows).flatMap (fun _ => lightCell) ++ [newline])) := by
  have hleft : ∀ c ∈ List.range quietRows, qr.cell (quietRows + y) c = lightCell := fun c hc =>
    qr.cell_of_margin (.inl (List.mem_range.mp hc))
  have hright : ∀ c ∈ List.range quietRows,
      qr.cell (quietRows + y) (quietRows + qr.size + c) = lightCell := fun c _ =>
    qr.cell_of_margin (.inr (.inl (by omega)))
  have hmid : ∀ x ∈ List.range qr.size, qr.cell (quietRows + y) (quietRows + x)
      = if qr.IsDark x y then darkCell else lightCell := fun x _ => by
    unfold cell
    simp only [qr.shown_add x y]
  unfold line
  rw [flatMap_range_width, List.flatMap_congr hleft, List.flatMap_congr hmid,
    List.flatMap_congr hright, List.append_assoc, List.append_assoc]

/-- The picture by the parts that it is written in. -/
lemma picture_eq : qr.picture
    = (List.range quietRows).flatMap (fun _ => qr.blank ++ [newline])
      ++ ((List.range qr.size).flatMap (fun y => qr.line (quietRows + y))
      ++ (List.range quietRows).flatMap fun _ => qr.blank ++ [newline]) := by
  have htop : ∀ r ∈ List.range quietRows, qr.line r = qr.blank ++ [newline] := fun r hr =>
    qr.line_of_margin (.inl (List.mem_range.mp hr))
  have hbottom : ∀ r ∈ List.range quietRows,
      qr.line (quietRows + qr.size + r) = qr.blank ++ [newline] := fun r _ =>
    qr.line_of_margin (.inr (by omega))
  unfold picture
  rw [flatMap_range_width, List.flatMap_congr htop, List.flatMap_congr hbottom]

end QRCode

section emits
variable {sink : Sink δ} {fault : Prop} (hfault : sink.Faulty → fault)
include hfault

lemma fills_terminalBlank (blank : Str) :
    Fills fault (terminalBlank sink blank) id (blank ++ [newline]) :=
  ((fills_write hfault blank).comp (fills_writeByte hfault newline)).mapError _

lemma fills_terminalRow (qr : QRCode) (y : ℕ) :
    Fills fault (terminalRow sink qr y) id (qr.line (quietRows + y)) := by
  have hquiet := Fills.forRange (fun _ => fills_write hfault lightCell) quietRows
  have hcells := Fills.forRange
    (fun x : ℕ => fills_write hfault (if qr.IsDark x y then darkCell else lightCell)) qr.size
  rw [qr.line_add]
  exact (hquiet.comp (hcells.comp (hquiet.comp (fills_writeByte hfault newline)))).mapError _

/-- What `terminal` writes is the picture, or the start of it where the destination fails. -/
theorem terminal_emits (qr : QRCode) :
    Emits fault (terminal sink qr) (fun _ => []) qr.picture := by
  have hmargin := Fills.forRange (fun _ => fills_terminalBlank hfault qr.blank) quietRows
  have hrows := Fills.forRange (fills_terminalRow hfault qr) qr.size
  have hclose := (fills_flush hfault).mapError TerminalError.flush
  have h := (hmargin.comp (hrows.comp (hmargin.comp hclose))).emits
  rwa [List.append_nil, ← qr.picture_eq] at h

end emits

/-! ### What a reader sees -/

/-- The lines of a text of cells, the first of them after the cells in `line`. -/
def readCells (line : List Bool) : Str → List (List Bool)
  | [] => []
  | c :: rest =>
    if c = newline then line :: readCells [] rest
    else match rest with
      | [] => []
      | d :: rest =>
        if [c, d] = lightCell then readCells (line ++ [false]) rest
        else match rest with
          | e :: f :: g :: h :: rest =>
            if [c, d, e, f, g, h] = darkCell then readCells (line ++ [true]) rest else []
          | _ => []

def cellText (dark : Bool) : Str := if dark then darkCell else lightCell

lemma readCells_cell (line : List Bool) (dark : Bool) (rest : Str) :
    readCells line (cellText dark ++ rest) = readCells (line ++ [dark]) rest := by
  cases dark
  · conv_lhs => unfold readCells
    rfl
  · conv_lhs => unfold readCells
    rfl

lemma readCells_newline (line : List Bool) (rest : Str) :
    readCells line (newline :: rest) = line :: readCells [] rest := by
  conv_lhs => unfold readCells
  rfl

lemma readCells_cells (cells line : List Bool) (rest : Str) :
    readCells line (cells.flatMap cellText ++ newline :: rest)
      = (line ++ cells) :: readCells [] rest := by
  induction cells generalizing line with
  | nil =>
    rw [List.append_nil]
    exact readCells_newline line rest
  | cons dark cells ih =>
    rw [List.flatMap_cons, List.append_assoc, readCells_cell, ih, List.append_assoc,
      List.singleton_append]

lemma readCells_lines (lines : List (List Bool)) :
    readCells [] (lines.flatMap fun line => line.flatMap cellText ++ [newline]) = lines := by
  induction lines with
  | nil =>
    unfold readCells
    rfl
  | cons line lines ih =>
    rw [List.flatMap_cons, List.append_assoc, List.singleton_append, readCells_cells, ih,
      List.nil_append]

/-- The cells of a picture. -/
def QRCode.cells (qr : QRCode) : List (List Bool) :=
  (List.range qr.width).map fun r => (List.range qr.width).map fun c => decide (qr.Shown c r)

/-- A reader of the text sees each cell as its module is, and light ones around them. -/
theorem readCells_picture (qr : QRCode) : readCells [] qr.picture = qr.cells := by
  have hline : ∀ r, qr.line r
      = ((List.range qr.width).map fun c => decide (qr.Shown c r)).flatMap cellText ++
          [newline] := by
    intro r
    have hcell : ∀ c ∈ List.range qr.width, qr.cell r c = cellText (decide (qr.Shown c r)) := by
      intro c _
      unfold QRCode.cell cellText
      simp only [decide_eq_true_eq]
    rw [List.flatMap_map, QRCode.line, List.flatMap_congr hcell]
  unfold QRCode.picture
  rw [List.flatMap_congr fun r _ => hline r]
  have h := readCells_lines qr.cells
  rwa [QRCode.cells, List.flatMap_map] at h

/-- What comes out on a terminal that takes everything reads as the grid in its margin, and what
comes out on one that fails is the start of such a text. -/
theorem terminal_readable (sink : Sink δ) (qr : QRCode) (taken : List Str) :
    ∃ out, (terminal sink qr taken).2.flatten = taken.flatten ++ out ∧
      match (terminal sink qr taken).1 with
      | .ok () => readCells [] out = qr.cells
      | .error _ => sink.Faulty ∧ ∃ rest, readCells [] (out ++ rest) = qr.cells := by
  obtain ⟨out, hout, hres⟩ := terminal_emits id qr taken
  refine ⟨out, hout, ?_⟩
  generalize (terminal sink qr taken).1 = result at hres
  cases result with
  | error e =>
    obtain ⟨hfault, rest, hrest⟩ := hres
    exact ⟨hfault, rest, by rw [hrest, readCells_picture]⟩
  | ok u =>
    have hpicture : out = qr.picture := (List.append_nil out).symm.trans hres
    change readCells [] out = qr.cells
    rw [hpicture, readCells_picture]

end Dhow.Optical
