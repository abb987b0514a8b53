import Dhow.PackRoundTrip
import Dhow.ReferenceSession

/-!
# A reference tree

Two files and a link below one directory, in an order that is not the order of their names: the
tree of which the development instantiates its theorems about datasets.
-/

namespace Dhow.Reference
open Bytes FileSystem

def top : Component := ⟨[0x69, 0x6E], by decide⟩
def bin : Component := ⟨[0x61], by decide⟩
def run : Component := ⟨[0x62], by decide⟩
def note : Component := ⟨[0x61, 0x2D, 0x62], by decide⟩

def runFile : File := ⟨List.replicate 74 0x44, 0o755⟩
def noteFile : File := ⟨[], 0o600⟩

/-- The file `a/b`, which its owner may execute, and the empty file `a-b`, both below `in`, with a
link `a/a` that is not carried. -/
def tree : FileTree where
  nodes := [([top], .dir), ([top, bin], .dir), ([top, bin, bin], .irregular),
    ([top, bin, run], .file runFile), ([top, note], .file noteFile)]
  nodup := by decide
  ne_root := by simp
  closed := by simp

/-- The files in the order of the archive. -/
def files : List (Path Component × File) := [([note], noteFile), ([bin, run], runFile)]

lemma sorted_walk : Pack.sorted (tree.walk [top]) = files := rfl

lemma lookup_top : tree.lookup [top] = some .dir := rfl

lemma packableAll_files : Pack.PackableAll files := by
  refine ⟨fun x hx => ?_, by decide, by decide⟩
  simp only [files, List.mem_cons, List.not_mem_nil, or_false] at hx
  rcases hx with rfl | rfl
  · exact ⟨rfl, by decide⟩
  · exact ⟨rfl, by decide⟩

lemma exists_create : ∃ data entries, Pack.create b3 tree [top] = .ok (data, entries) :=
  ⟨_, _, Pack.create_of_packableAll packableAll_files⟩

/-- A tree whose only node is an empty directory. -/
def emptyDir : FileTree where
  nodes := [([top], .dir)]
  nodup := by decide
  ne_root := by simp
  closed := by simp

lemma emptyDir_below {p : Path Component} (hp : p ≠ []) : emptyDir.lookup ([top] ++ p) = none := by
  simp [emptyDir, Fs.lookup, hp.symm]

end Dhow.Reference
