import Dhow.Lib.Bytes
import Dhow.Lib.FileSystem

/-!
# Datasets

What a transfer carries: the regular files below a directory, by their slash-separated names.
Names are byte strings and the components of a path are what an operating system admits as one.
Joining a name to a path cleans it, as `filepath.Join` does.
-/

namespace Dhow
open Bytes FileSystem

def slash : UInt8 := 0x2F
def dot : Str := [0x2E]
def dotdot : Str := [0x2E, 0x2E]

/-- What an operating system admits as the name of a directory entry. -/
structure IsComponent (b : Str) : Prop where
  ne_nil : b ≠ []
  no_slash : slash ∉ b
  no_nul : 0 ∉ b
  ne_dot : b ≠ dot
  ne_dotdot : b ≠ dotdot

instance (b : Str) : Decidable (IsComponent b) :=
  decidable_of_iff (b ≠ [] ∧ slash ∉ b ∧ 0 ∉ b ∧ b ≠ dot ∧ b ≠ dotdot)
    ⟨fun ⟨h1, h2, h3, h4, h5⟩ => ⟨h1, h2, h3, h4, h5⟩, fun ⟨h1, h2, h3, h4, h5⟩ =>
      ⟨h1, h2, h3, h4, h5⟩⟩

abbrev Component := {b : Str // IsComponent b}

/-- The contents and the permission bits of a file. -/
structure File where
  content : Str
  mode : UInt32
  deriving DecidableEq

/-- The owner execute bit. -/
def File.executable (f : File) : Bool := f.mode &&& 0o100 ≠ 0

abbrev FileTree := Fs Component File

/-- The slash-separated name of a path, as `filepath.Rel` gives it: a dot for no path. -/
def relName (p : Path Component) : Str :=
  if p = [] then dot else [slash].intercalate (p.map Subtype.val)

/-- A path with one more part of a name. -/
def joinStep (p : Path Component) (part : Str) : Option (Path Component) :=
  if part = [] ∨ part = dot then some p
  else if part = dotdot then some p.dropLast
  else if h : IsComponent part then some (p ++ [⟨part, h⟩])
  else none

/-- `filepath.Join`, with nothing for a name that no path can have. -/
def join (base : Path Component) (name : Str) : Option (Path Component) :=
  (name.splitOn slash).foldlM joinStep base

lemma splitOn_relName {p : Path Component} (hp : p ≠ []) :
    (relName p).splitOn slash = p.map Subtype.val := by
  rw [relName, if_neg hp]
  refine List.splitOn_intercalate slash ?_ fun h => hp (List.map_eq_nil_iff.mp h)
  intro b hb
  obtain ⟨c, -, rfl⟩ := List.mem_map.mp hb
  exact c.2.no_slash

lemma joinStep_component (p : Path Component) (c : Component) :
    joinStep p c.1 = some (p ++ [c]) := by
  rw [joinStep, if_neg (not_or.mpr ⟨c.2.ne_nil, c.2.ne_dot⟩), if_neg c.2.ne_dotdot, dif_pos c.2]

/-- The parts of a path join as the path. -/
lemma foldlM_joinStep (base p : Path Component) :
    (p.map Subtype.val).foldlM joinStep base = some (base ++ p) := by
  induction p generalizing base with
  | nil => simp
  | cons c p ih =>
    rw [List.map_cons, List.foldlM_cons, joinStep_component]
    change (p.map Subtype.val).foldlM joinStep (base ++ [c]) = _
    rw [ih]
    simp

/-- The name of a path joins as the path. -/
lemma join_relName (base p : Path Component) : join base (relName p) = some (base ++ p) := by
  by_cases hp : p = []
  · subst hp
    have hdot : dot.splitOn slash = [dot] := by decide
    rw [relName, if_pos rfl, join, hdot, List.append_nil]
    rfl
  · rw [join, splitOn_relName hp, foldlM_joinStep]

/-- Without a part that goes up, a name joins below the path. -/
lemma join_eq_append (base : Path Component) {name : Str} (h : dotdot ∉ name.splitOn slash) :
    join base name = (join [] name).map (base ++ ·) := by
  have hfold : ∀ (parts : List Str) (p : Path Component), dotdot ∉ parts →
      parts.foldlM joinStep (base ++ p) = (parts.foldlM joinStep p).map (base ++ ·) := by
    intro parts
    induction parts with
    | nil => intro p _; rfl
    | cons part parts ih =>
      intro p hparts
      obtain ⟨hpart, hparts⟩ := not_or.mp (List.mem_cons.not.mp hparts)
      rw [List.foldlM_cons, List.foldlM_cons]
      unfold joinStep
      split_ifs with hskip hup hcomp
      · exact ih p hparts
      · exact absurd hup.symm hpart
      · have hih := ih (p ++ [⟨part, hcomp⟩]) hparts
        rw [← List.append_assoc] at hih
        exact hih
      · rfl
  have h0 := hfold (name.splitOn slash) [] h
  rw [List.append_nil] at h0
  exact h0

lemma relName_injective {p q : Path Component} (h : relName p = relName q) : p = q := by
  have hj := join_relName [] p
  rw [h, join_relName, List.nil_append, List.nil_append, Option.some.injEq] at hj
  exact hj.symm

end Dhow
