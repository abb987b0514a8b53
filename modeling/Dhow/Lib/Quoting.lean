import Mathlib.Data.Set.Basic
import Mathlib.Tactic.Common

/-!
# Quoted words

Words on a line, kept apart by blanks. A word is written in pieces, some of them enclosed in
quotes, in which blanks and the other quotes stand for themselves. Every line is that of some words
or leaves a quote open.
-/

namespace Quoting
variable {α : Type*}

/-- What words may be enclosed in and what they are kept apart by. -/
structure Marks (α : Type*) where
  quote : Set α
  blank : Set α
  quote_notMem_blank : ∀ a ∈ quote, a ∉ blank

variable {m : Marks α}

/-- A piece of a word. -/
inductive Piece (m : Marks α)
  | bare (xs : List α) (h : ∀ a ∈ xs, a ∉ m.quote ∧ a ∉ m.blank)
  | quoted (q : α) (xs : List α) (hq : q ∈ m.quote) (hxs : q ∉ xs)

def Piece.text : Piece m → List α
  | bare xs _ => xs
  | quoted _ xs _ _ => xs

def Piece.written : Piece m → List α
  | bare xs _ => xs
  | quoted q xs _ _ => q :: xs ++ [q]

/-- What a word says. -/
def text (ps : List (Piece m)) : List α := ps.flatMap Piece.text

/-- How it is written. -/
def written (ps : List (Piece m)) : List α := ps.flatMap Piece.written

/-- The line of some words. An empty word is there by its quotes. -/
inductive Renders (m : Marks α) : List (List α) → List α → Prop
  | blanks {gap : List α} (hgap : ∀ a ∈ gap, a ∈ m.blank) : Renders m [] gap
  | word {gap rest : List α} {words : List (List α)} {ps : List (Piece m)}
      (hgap : ∀ a ∈ gap, a ∈ m.blank) (hps : written ps ≠ [])
      (hend : ∀ a ∈ rest.head?, a ∈ m.blank) (h : Renders m words rest) :
      Renders m (text ps :: words) (gap ++ (written ps ++ rest))

/-- Every quote that is opened is closed. -/
inductive Closed (m : Marks α) : List α → Prop
  | nil : Closed m []
  | plain {a : α} {line : List α} (ha : a ∉ m.quote) (h : Closed m line) : Closed m (a :: line)
  | quoted {q : α} {xs line : List α} (hq : q ∈ m.quote) (hxs : q ∉ xs) (h : Closed m line) :
      Closed m (q :: xs ++ q :: line)

/-- The last quote that is opened is not closed. -/
def Unclosed (m : Marks α) (line : List α) : Prop :=
  ∃ before q rest, line = before ++ q :: rest ∧ Closed m before ∧ q ∈ m.quote ∧ q ∉ rest

lemma Renders.words_eq_nil {words : List (List α)} {line : List α} (h : Renders m words line)
    (hline : line = []) : words = [] := by
  cases h with
  | blanks => rfl
  | word _ hps _ _ => simp [hps] at hline

lemma Renders.forall_blank {words : List (List α)} {line : List α} (h : Renders m words line)
    (hwords : words = []) : ∀ a ∈ line, a ∈ m.blank := by
  cases h with
  | blanks hgap => exact hgap
  | word => cases hwords

/-- A blank in front of a line is part of its first gap. -/
lemma Renders.cons_blank {words : List (List α)} {line : List α} {a : α} (ha : a ∈ m.blank)
    (h : Renders m words line) : Renders m words (a :: line) := by
  cases h with
  | blanks hgap => exact .blanks (List.forall_mem_cons.mpr ⟨ha, hgap⟩)
  | word hgap hps hend h => exact .word (List.forall_mem_cons.mpr ⟨ha, hgap⟩) hps hend h

lemma Unclosed.cons_plain {line : List α} {a : α} (ha : a ∉ m.quote) (h : Unclosed m line) :
    Unclosed m (a :: line) := by
  obtain ⟨before, q, rest, rfl, hbefore, hq, hrest⟩ := h
  exact ⟨a :: before, q, rest, rfl, .plain ha hbefore, hq, hrest⟩

lemma Unclosed.cons_quoted {xs line : List α} {q : α} (hq : q ∈ m.quote) (hxs : q ∉ xs)
    (h : Unclosed m line) : Unclosed m (q :: xs ++ q :: line) := by
  obtain ⟨before, q', rest, rfl, hbefore, hq', hrest⟩ := h
  refine ⟨q :: xs ++ q :: before, q', rest, ?_, .quoted hq hxs hbefore, hq', hrest⟩
  simp

/-- The line is that of some words, the first of which has begun before it. -/
def Continues (m : Marks α) (line : List α) : Prop :=
  ∃ (ps : List (Piece m)) (rest : List α) (words : List (List α)),
    line = written ps ++ rest ∧ (∀ a ∈ rest.head?, a ∈ m.blank) ∧ Renders m words rest

lemma Continues.cons_piece {line : List α} (p : Piece m) (h : Continues m line) :
    Continues m (p.written ++ line) := by
  obtain ⟨ps, rest, words, rfl, hend, hrest⟩ := h
  exact ⟨p :: ps, rest, words, (List.append_assoc ..).symm, hend, hrest⟩

lemma Continues.exists_renders {line : List α} (h : Continues m line) :
    ∃ words, Renders m words line := by
  obtain ⟨ps, rest, words, rfl, hend, hrest⟩ := h
  by_cases hps : written ps = []
  · rw [hps]
    exact ⟨words, hrest⟩
  · exact ⟨_, .word (List.forall_mem_nil _) hps hend hrest⟩

lemma continues_or_unclosed (line : List α) : Continues m line ∨ Unclosed m line := by
  -- A quoted piece is passed over as a whole, so the induction is on the length.
  induction hn : line.length using Nat.strong_induction_on generalizing line with
  | _ n ih =>
    subst hn
    cases line with
    | nil => exact .inl ⟨[], [], [], rfl, by simp, .blanks (List.forall_mem_nil _)⟩
    | cons a line =>
      by_cases hquote : a ∈ m.quote
      · by_cases hclosed : a ∈ line
        · obtain ⟨xs, rest, rfl, hxs⟩ := List.eq_append_cons_of_mem hclosed
          have hlt : rest.length < (a :: (xs ++ a :: rest)).length := by
            simp
            omega
          rcases ih rest.length hlt rest rfl with hcont | hopen
          · left
            have h := hcont.cons_piece (.quoted a xs hquote hxs)
            rwa [Piece.written, List.append_assoc, List.cons_append] at h
          · exact .inr (hopen.cons_quoted hquote hxs)
        · exact .inr ⟨[], a, line, rfl, .nil, hquote, hclosed⟩
      · rcases ih line.length (Nat.lt_succ_self _) line rfl with hcont | hopen
        · by_cases hblank : a ∈ m.blank
          · obtain ⟨words, hwords⟩ := hcont.exists_renders
            refine .inl ⟨[], a :: line, words, rfl, ?_, hwords.cons_blank hblank⟩
            rintro b ⟨⟩
            exact hblank
          · refine .inl (hcont.cons_piece (.bare [a] ?_))
            simpa using ⟨hquote, hblank⟩
        · exact .inr (hopen.cons_plain hquote)

/-- Every line has words or an open quote. -/
theorem renders_or_unclosed (line : List α) :
    (∃ words, Renders m words line) ∨ Unclosed m line :=
  (continues_or_unclosed line).imp_left Continues.exists_renders

end Quoting
