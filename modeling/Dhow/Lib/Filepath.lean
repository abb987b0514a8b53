import Mathlib.Data.List.Basic
import Mathlib.Data.List.Infix
import Mathlib.Tactic.Common

/-!
# Cleaning paths

`Clean` and `Join` of a path language with one separator, symbol by symbol: the output is cut
back to its last separator where the path goes up. On a rooted path they compute what a stack of
elements does.
-/

namespace Filepath
variable {α : Type} [DecidableEq α] (sep dot : α)

/-- Where the output ends once its last element is gone: at a separator, or at `dotdot`. -/
def backtrack (out : List α) (dotdot : ℕ) : ℕ → ℕ
  | 0 => 0
  | w + 1 => if dotdot < w ∧ out[w]? ≠ some sep then backtrack out dotdot w else w

/-- A path element ends here. -/
def Ends (path : List α) : Prop := path.head? = none ∨ path.head? = some sep

instance (path : List α) : Decidable (Ends sep path) := inferInstanceAs (Decidable (_ ∨ _))

/-- The loop of `Clean` over what is left of the path. Behind `dotdot` nothing is taken back. -/
def cleanFrom (rooted : Bool) (path out : List α) (dotdot : ℕ) : List α :=
  match path with
  | [] => out
  | c :: rest =>
    if c = sep then cleanFrom rooted rest out dotdot
    else if c = dot ∧ Ends sep rest then cleanFrom rooted rest out dotdot
    else if c = dot ∧ rest.head? = some dot ∧ Ends sep rest.tail then
      if dotdot < out.length then
        cleanFrom rooted rest.tail (out.take (backtrack sep out dotdot out.length)) dotdot
      else if rooted then cleanFrom rooted rest.tail out dotdot
      else
        let out := (if 0 < out.length then out ++ [sep] else out) ++ [dot, dot]
        cleanFrom rooted rest.tail out out.length
    else
      let out := if rooted ∧ out.length ≠ 1 ∨ ¬rooted ∧ out.length ≠ 0 then out ++ [sep] else out
      cleanFrom rooted (rest.dropWhile (· ≠ sep)) (out ++ c :: rest.takeWhile (· ≠ sep)) dotdot
  termination_by path.length
  decreasing_by
    all_goals simp only [List.length_cons, List.length_tail]
    · omega
    · omega
    · omega
    · omega
    · omega
    · exact Nat.lt_succ_of_le (List.dropWhile_suffix _).length_le

def clean (path : List α) : List α :=
  if path = [] then [dot]
  else
    let out := if path.head? = some sep then cleanFrom sep dot true path.tail [sep] 1
      else cleanFrom sep dot false path [] 0
    if out = [] then [dot] else out

/-- `Join`: the cleaned path of the elements from the first that is not empty. -/
def join : List (List α) → List α
  | [] => []
  | e :: elems => if e ≠ [] then clean sep dot ([sep].intercalate (e :: elems)) else join elems

/-! ### As a stack -/

/-- One element of a path onto the stack of the elements before it. -/
def push (elems : List (List α)) (part : List α) : List (List α) :=
  if part = [] ∨ part = [dot] then elems
  else if part = [dot, dot] then elems.dropLast
  else elems ++ [part]

section Rooted
variable {sep dot}
omit [DecidableEq α]

end Rooted

section Stack
variable {sep dot}

end Stack
end Filepath
