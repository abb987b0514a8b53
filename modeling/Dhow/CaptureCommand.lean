import Dhow.Lib.Quoting
import Dhow.Lib.Utf8

/-!
# Capture commands

How the command of a capture source is split into its arguments (`capture.go`), character by
character: it undoes any quoting of them, and it fails only where a quote is left open or there is
nothing on the line.
-/

namespace Dhow
open Bytes Quoting

inductive SplitError
  | unterminatedQuote
  | noCommand
  deriving DecidableEq

def singleQuote : Char := Char.ofNat 0x27
def doubleQuote : Char := Char.ofNat 0x22
def tab : Char := Char.ofNat 0x09

structure Splitter where
  argv : List Str
  current : Str
  /-- The quote that is open. -/
  quote : Option Char
  started : Bool

namespace Splitter

def start : Splitter := ⟨[], [], none, false⟩

/-- `WriteRune`. -/
def writeRune (s : Splitter) (r : Char) : Splitter :=
  { s with current := s.current ++ String.utf8EncodeChar r }

def step (s : Splitter) (r : Char) : Splitter :=
  match s.quote with
  | some quote => if r = quote then { s with quote := none } else s.writeRune r
  | none =>
    if r = singleQuote ∨ r = doubleQuote then { s with quote := some r, started := true }
    else if r = ' ' ∨ r = tab then
      if s.started then { s with argv := s.argv ++ [s.current], current := [], started := false }
      else s
    else { s.writeRune r with started := true }

def run (s : Splitter) (line : List Char) : Splitter := line.foldl step s

/-- The arguments with the last one. -/
def finish (s : Splitter) : List Str := if s.started then s.argv ++ [s.current] else s.argv

end Splitter

def splitCommand (line : Str) : Except SplitError (List Str) :=
  let s := Splitter.start.run (runes line)
  if s.quote.isSome then .error .unterminatedQuote
  else if s.finish = [] then .error .noCommand
  else .ok s.finish

/-- The characters that have a meaning on a command line. -/
def commandMarks : Marks Char where
  quote := {singleQuote, doubleQuote}
  blank := {' ', tab}
  quote_notMem_blank := by
    rintro a (rfl | rfl) <;> decide

/-- The bytes of a text. -/
def encodeText (text : List Char) : Str := text.flatMap String.utf8EncodeChar

namespace Splitter
variable {argv : List Str} {current : Str} {started : Bool}

lemma run_append (s : Splitter) (xs ys : List Char) : s.run (xs ++ ys) = (s.run xs).run ys :=
  List.foldl_append ..

/-! ### One character -/

lemma mem_quote_iff {a : Char} : a ∈ commandMarks.quote ↔ a = singleQuote ∨ a = doubleQuote :=
  Iff.rfl

lemma mem_blank_iff {a : Char} : a ∈ commandMarks.blank ↔ a = ' ' ∨ a = tab := Iff.rfl

lemma step_bare {a : Char} (hquote : a ∉ commandMarks.quote) (hblank : a ∉ commandMarks.blank) :
    step ⟨argv, current, none, started⟩ a =
      ⟨argv, current ++ String.utf8EncodeChar a, none, true⟩ := by
  rw [mem_quote_iff] at hquote
  rw [mem_blank_iff] at hblank
  rw [step]
  dsimp only
  rw [if_neg hquote, if_neg hblank, writeRune]

lemma step_quote {q : Char} (hq : q ∈ commandMarks.quote) :
    step ⟨argv, current, none, started⟩ q = ⟨argv, current, some q, true⟩ := by
  rw [mem_quote_iff] at hq
  rw [step]
  dsimp only
  rw [if_pos hq]

lemma step_blank {b : Char} (hb : b ∈ commandMarks.blank) :
    step ⟨argv, current, none, started⟩ b =
      if started then ⟨argv ++ [current], [], none, false⟩ else ⟨argv, current, none, started⟩ := by
  have hquote : b ∉ commandMarks.quote := fun hq => commandMarks.quote_notMem_blank b hq hb
  rw [mem_quote_iff] at hquote
  rw [mem_blank_iff] at hb
  rw [step]
  dsimp only
  rw [if_neg hquote, if_pos hb]

/-! ### One piece -/

lemma run_bare {xs : List Char} (h : ∀ a ∈ xs, a ∉ commandMarks.quote ∧ a ∉ commandMarks.blank) :
    run ⟨argv, current, none, started⟩ xs =
      ⟨argv, current ++ encodeText xs, none, started || decide (xs ≠ [])⟩ := by
  induction xs generalizing current started with
  | nil => simp [run, encodeText]
  | cons a xs ih =>
    obtain ⟨⟨hquote, hblank⟩, hxs⟩ := List.forall_mem_cons.mp h
    rw [run, List.foldl_cons, step_bare hquote hblank]
    refine (ih hxs).trans ?_
    simp [encodeText]

lemma run_inside {q : Char} {xs : List Char} (h : q ∉ xs) :
    run ⟨argv, current, some q, started⟩ xs =
      ⟨argv, current ++ encodeText xs, some q, started⟩ := by
  induction xs generalizing current with
  | nil => simp [run, encodeText]
  | cons a xs ih =>
    obtain ⟨hne, hxs⟩ := not_or.mp (List.mem_cons.not.mp h)
    have hstep : step ⟨argv, current, some q, started⟩ a =
        ⟨argv, current ++ String.utf8EncodeChar a, some q, started⟩ := by
      rw [step]
      dsimp only
      rw [if_neg (Ne.symm hne), writeRune]
    rw [run, List.foldl_cons, hstep]
    refine (ih hxs).trans ?_
    simp [encodeText]

lemma run_quoted {q : Char} {xs : List Char} (hq : q ∈ commandMarks.quote) (hxs : q ∉ xs)
    (line : List Char) :
    run ⟨argv, current, none, started⟩ (q :: xs ++ q :: line) =
      run ⟨argv, current ++ encodeText xs, none, true⟩ line := by
  have hclose : step ⟨argv, current ++ encodeText xs, some q, true⟩ q =
      ⟨argv, current ++ encodeText xs, none, true⟩ := by
    rw [step]
    dsimp only
    rw [if_pos rfl]
  have hopen : run ⟨argv, current, none, started⟩ (q :: xs) =
      ⟨argv, current ++ encodeText xs, some q, true⟩ := by
    rw [run, List.foldl_cons, step_quote hq]
    exact run_inside hxs
  rw [run_append, hopen, run, List.foldl_cons, hclose]
  rfl

lemma run_written (p : Piece commandMarks) :
    run ⟨argv, current, none, started⟩ p.written =
      ⟨argv, current ++ encodeText p.text, none, started || decide (p.written ≠ [])⟩ := by
  cases p with
  | bare xs h => exact run_bare h
  | quoted q xs hq hxs =>
    refine (run_quoted hq hxs []).trans ?_
    simp [Piece.text, Piece.written, run]

/-! ### Words -/

lemma run_word (ps : List (Piece commandMarks)) :
    run ⟨argv, current, none, started⟩ (written ps) =
      ⟨argv, current ++ encodeText (text ps), none, started || decide (written ps ≠ [])⟩ := by
  induction ps generalizing current started with
  | nil => simp [written, text, run, encodeText]
  | cons p ps ih =>
    rw [written, List.flatMap_cons, run_append, run_written]
    refine ih.trans ?_
    simp [written, text, encodeText, Bool.or_assoc]

lemma run_gap {gap : List Char} (h : ∀ a ∈ gap, a ∈ commandMarks.blank) :
    run ⟨argv, current, none, false⟩ gap = ⟨argv, current, none, false⟩ := by
  induction gap with
  | nil => rfl
  | cons b gap ih =>
    obtain ⟨hb, hgap⟩ := List.forall_mem_cons.mp h
    rw [run, List.foldl_cons, step_blank hb]
    exact ih hgap

/-- A word that has been begun is an argument at the blank behind it or at the end of the line. -/
lemma run_end {rest : List Char} {words : List (List Char)} (h : Renders commandMarks words rest)
    (hend : ∀ a ∈ rest.head?, a ∈ commandMarks.blank)
    (ih : ∀ argv, (run ⟨argv, [], none, false⟩ rest).quote = none ∧
      (run ⟨argv, [], none, false⟩ rest).finish = argv ++ words.map encodeText) :
    (run ⟨argv, current, none, true⟩ rest).quote = none ∧
      (run ⟨argv, current, none, true⟩ rest).finish = argv ++ current :: words.map encodeText := by
  cases rest with
  | nil =>
    rw [h.words_eq_nil rfl]
    exact ⟨rfl, rfl⟩
  | cons b rest =>
    have hb := hend b rfl
    have hrun : run ⟨argv, current, none, true⟩ (b :: rest) =
        run ⟨argv ++ [current], [], none, false⟩ (b :: rest) := by
      rw [run, run, List.foldl_cons, List.foldl_cons, step_blank hb, step_blank hb]
      rfl
    rw [hrun]
    simpa using ih (argv ++ [current])

/-- A line of words is split into them. -/
lemma run_renders {words : List (List Char)} {line : List Char}
    (h : Renders commandMarks words line) (argv : List Str) :
    (run ⟨argv, [], none, false⟩ line).quote = none ∧
      (run ⟨argv, [], none, false⟩ line).finish = argv ++ words.map encodeText := by
  induction h generalizing argv with
  | blanks hgap =>
    rw [run_gap hgap]
    exact ⟨rfl, (List.append_nil argv).symm⟩
  | word hgap hps hend h ih =>
    rw [run_append, run_gap hgap, run_append, run_word]
    simpa [hps] using run_end h hend ih

/-! ### Open quotes -/

lemma quote_run_closed {line : List Char} (h : Closed commandMarks line) (s : Splitter)
    (hs : s.quote = none) : (s.run line).quote = none := by
  obtain ⟨argv, current, quote, started⟩ := s
  subst hs
  induction h generalizing argv current started with
  | nil => rfl
  | @plain a line ha h ih =>
    by_cases hb : a ∈ commandMarks.blank
    · rw [run, List.foldl_cons, step_blank hb]
      cases started <;> exact ih ..
    · rw [run, List.foldl_cons, step_bare ha hb]
      exact ih ..
  | quoted hq hxs h ih =>
    rw [run_quoted hq hxs]
    exact ih ..

lemma quote_run_unclosed {line : List Char} (h : Unclosed commandMarks line) :
    (start.run line).quote.isSome := by
  obtain ⟨before, q, rest, rfl, hbefore, hq, hrest⟩ := h
  have hnone := quote_run_closed hbefore start rfl
  rw [run_append]
  generalize start.run before = s at hnone ⊢
  obtain ⟨argv, current, quote, started⟩ := s
  subst hnone
  rw [run, List.foldl_cons, step_quote hq]
  exact congrArg (fun s : Splitter => s.quote.isSome) (run_inside hrest)

end Splitter

lemma splitCommand_of_unclosed {line : Str} (h : Unclosed commandMarks (runes line)) :
    splitCommand line = .error .unterminatedQuote := by
  rw [splitCommand]
  exact if_pos (Splitter.quote_run_unclosed h)

lemma splitCommand_of_renders {words : List (List Char)} {line : Str}
    (h : Renders commandMarks words (runes line)) :
    splitCommand line = if words = [] then .error .noCommand else .ok (words.map encodeText) := by
  obtain ⟨hquote, hfinish⟩ := Splitter.run_renders h []
  rw [List.nil_append] at hfinish
  rw [splitCommand, Splitter.start, hquote, hfinish, if_neg (by simp)]
  simp only [List.map_eq_nil_iff]

lemma splitCommand_of_blank {line : Str} (h : ∀ r ∈ runes line, r ∈ commandMarks.blank) :
    splitCommand line = .error .noCommand := by
  rw [splitCommand_of_renders (.blanks h), if_pos rfl]

/-- Splitting undoes quoting: a line on which the arguments are written, in whatever pieces and with
whatever blanks around them, gives these arguments; and a line fails exactly where a quote is left
open, or where it is blank. -/
theorem splitCommand_inverts_quoting :
    (∀ (args : List String) (line : String), args ≠ [] →
      Renders commandMarks (args.map String.toList) line.toList →
      splitCommand (asBytes line) = .ok (args.map asBytes)) ∧
    ∀ line : Str,
      ((∃ e, splitCommand line = .error e) ↔
        Unclosed commandMarks (runes line) ∨ ∀ r ∈ runes line, r ∈ commandMarks.blank) ∧
      (splitCommand line = .error .unterminatedQuote ↔ Unclosed commandMarks (runes line)) := by
  refine ⟨fun args line hargs h => ?_, fun line => ?_⟩
  · rw [← runes_asBytes line] at h
    rw [splitCommand_of_renders h, if_neg (by simpa using hargs), List.map_map]
    congr 1
    apply List.map_congr_left
    intro arg _
    exact (asBytes_eq_flatMap arg).symm
  · rcases renders_or_unclosed (m := commandMarks) (runes line) with ⟨words, hwords⟩ | hopen
    · have hsplit := splitCommand_of_renders hwords
      have hclosed : ¬Unclosed commandMarks (runes line) := by
        intro hopen
        rw [splitCommand_of_unclosed hopen] at hsplit
        split_ifs at hsplit
        cases hsplit
      refine ⟨⟨?_, ?_⟩, fun h => ?_, fun hopen => absurd hopen hclosed⟩
      · rintro ⟨e, he⟩
        rw [hsplit] at he
        split_ifs at he with hnil
        exact .inr (hwords.forall_blank hnil)
      · rintro (hopen | hblank)
        · exact absurd hopen hclosed
        · exact ⟨_, splitCommand_of_blank hblank⟩
      · rw [hsplit] at h
        split_ifs at h
        cases h
    · have hsplit := splitCommand_of_unclosed hopen
      exact ⟨⟨fun _ => .inl hopen, fun _ => ⟨_, hsplit⟩⟩, fun _ => hopen, fun _ => hsplit⟩

/-- A device name in two quoted pieces, with a blank and a quote in it, and an argument that is
empty. -/
def cameraLine : List Char :=
  ['c', ' ', doubleQuote, 'F', ' ', singleQuote, doubleQuote, 'D', tab, ' ', singleQuote,
    singleQuote, ' ']

lemma renders_cameraLine :
    Renders commandMarks [['c'], ['F', ' ', singleQuote, 'D'], []] cameraLine := by
  have hblank : ' ' ∈ commandMarks.blank := .inl rfl
  have htab : tab ∈ commandMarks.blank := .inr rfl
  have hbare : ∀ c, c = 'c' ∨ c = 'D' → c ∉ commandMarks.quote ∧ c ∉ commandMarks.blank := by
    rintro c (rfl | rfl)
    · rw [Splitter.mem_quote_iff, Splitter.mem_blank_iff]
      decide
    · rw [Splitter.mem_quote_iff, Splitter.mem_blank_iff]
      decide
  let c : Piece commandMarks := .bare ['c'] (by simpa using hbare 'c' (.inl rfl))
  let d : Piece commandMarks := .bare ['D'] (by simpa using hbare 'D' (.inr rfl))
  let name : Piece commandMarks :=
    .quoted doubleQuote ['F', ' ', singleQuote] (.inr rfl) (by decide)
  let empty : Piece commandMarks := .quoted singleQuote [] (.inl rfl) (by decide)
  have hlast : Renders commandMarks [] [' '] := .blanks (by simpa using hblank)
  have hempty := @Renders.word _ commandMarks [tab, ' '] [' '] [] [empty] (by simp [htab, hblank])
    (List.cons_ne_nil _ _) (by simpa using hblank) hlast
  have hname := @Renders.word _ commandMarks [' '] _ _ [name, d] (by simpa using hblank)
    (List.cons_ne_nil _ _) (by simpa using htab) hempty
  exact @Renders.word _ commandMarks [] _ _ [c] (List.forall_mem_nil _)
    (List.cons_ne_nil _ _) (by simpa using hblank) hname

theorem splitCommand_cameraLine :
    splitCommand (asBytes (String.ofList cameraLine)) =
      .ok (["c", String.ofList ['F', ' ', singleQuote, 'D'], ""].map asBytes) := by
  apply splitCommand_inverts_quoting.1 _ _ (List.cons_ne_nil _ _)
  rw [String.toList_ofList]
  simpa using renders_cameraLine

end Dhow
