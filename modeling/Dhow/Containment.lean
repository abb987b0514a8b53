import Dhow.HostExtraction
import Dhow.Lib.Filepath
import Dhow.NameRules

/-!
# Names stay below the destination

What `filepath.Join` makes, symbol by symbol, of a clean destination and a name that either rule
accepts, and what an extraction leaves of the files that are not below its destination.
-/

namespace Dhow
open Bytes FileSystem

section Names
variable {name : Str}

end Names

/-! ### The components of a path -/

namespace Host

/-- The files that are not below `dest` are those of `before`. -/
def Outside (dest : Path Component) (before fs : FileTree) : Prop :=
  ∀ p f, ¬dest <+: p → (fs.lookup p = some (.file f) ↔ before.lookup p = some (.file f))

section Outside
variable {umask : UInt32} {dest p : Path Component} {before : FileTree} {e : Pack.Entry}
  {body data : Str}

lemma Outside.insert {fs : FileTree} (h : Outside dest before fs) {n : Node File}
    (hfree : fs.lookup p = none) (hdir : fs.lookup p.dropLast = some .dir)
    (hn : n = .dir ∨ dest <+: p) : Outside dest before (fs.insert p n hfree hdir) := by
  intro q f hq
  rw [Fs.lookup_insert, ← h q f hq]
  by_cases hqp : q = p
  · subst hqp
    rw [if_pos rfl, hfree]
    rcases hn with rfl | hbelow
    · simp
    · exact absurd hbelow hq
  · rw [if_neg hqp]

end Outside
end Host

end Dhow
