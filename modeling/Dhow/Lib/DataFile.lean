import Mathlib.Algebra.Group.Nat.Defs
import Mathlib.Data.List.Basic
import Mathlib.Tactic.Common

/-!
# Files and the loss of power

A file with the part of it that is sure to be on the disk. A flush puts all of it there, and what
was changed since then may be lost with the power: the file then begins with what was sure, and
nothing is known of the rest.
-/

/-- The largest offset in a file. -/
def maxOffset : ℕ := 2 ^ 63 - 1

/-- A file, how many of its first bytes are sure to be on the disk, and whether it was changed
since it was flushed. -/
structure DataFile where
  content : List UInt8
  kept : ℕ
  dirty : Bool
  kept_le : kept ≤ content.length
  kept_eq : dirty = false → kept = content.length
  length_le : content.length ≤ maxOffset

namespace DataFile

def empty : DataFile where
  content := []
  kept := 0
  dirty := false
  kept_le := Nat.le_refl _
  kept_eq := fun _ => rfl
  length_le := Nat.zero_le _

/-- The bytes of a write at `offset` that a file has room for. -/
def fitting (offset : ℕ) (bytes : List UInt8) : List UInt8 := bytes.take (maxOffset - offset)

/-- Bytes written over what is at `offset`, with zeros up to there. -/
def write (f : DataFile) (offset : ℕ) (bytes : List UInt8) : DataFile :=
  if h : fitting offset bytes = [] then f
  else
    { content := f.content.take offset ++ List.replicate (offset - f.content.length) 0 ++
        fitting offset bytes ++ f.content.drop (offset + (fitting offset bytes).length)
      kept := min f.kept offset
      dirty := true
      kept_le := by
        have hkept := f.kept_le
        simp only [List.length_append, List.length_take, List.length_replicate]
        omega
      kept_eq := fun hdirty => by cases hdirty
      length_le := by
        have hlength := f.length_le
        have hpos := List.length_pos_iff.mpr h
        simp only [fitting, List.length_append, List.length_take, List.length_replicate,
          List.length_drop] at hpos ⊢
        omega }

/-- The file cut to `n` bytes, or filled with zeros up to them. -/
def truncate (f : DataFile) (n : ℕ) (h : n ≤ maxOffset) : DataFile where
  content := f.content.take n ++ List.replicate (n - f.content.length) 0
  kept := min f.kept n
  dirty := f.dirty || n != f.content.length
  kept_le := by
    have hkept := f.kept_le
    simp only [List.length_append, List.length_take, List.length_replicate]
    omega
  kept_eq := by
    intro hdirty
    rw [Bool.or_eq_false_iff, bne_eq_false_iff_eq] at hdirty
    have hkept := f.kept_eq hdirty.1
    simp only [List.length_append, List.length_take, List.length_replicate]
    omega
  length_le := by
    simp only [List.length_append, List.length_take, List.length_replicate]
    omega

def sync (f : DataFile) : DataFile where
  content := f.content
  kept := f.content.length
  dirty := false
  kept_le := Nat.le_refl _
  kept_eq := fun _ => rfl
  length_le := f.length_le

/-- What a loss of power may leave of a file: all of a file that was flushed, and else at least
the bytes that are sure to be on the disk. -/
structure Survives (f f' : DataFile) : Prop where
  clean : f'.dirty = false
  keeps : f.content.take f.kept <+: f'.content
  content_eq : f.dirty = false → f'.content = f.content

@[simp] lemma content_empty : empty.content = [] := rfl

@[simp] lemma content_sync (f : DataFile) : f.sync.content = f.content := rfl

@[simp] lemma kept_sync (f : DataFile) : f.sync.kept = f.content.length := rfl

@[simp] lemma dirty_sync (f : DataFile) : f.sync.dirty = false := rfl

@[simp] lemma content_truncate (f : DataFile) (n : ℕ) (h : n ≤ maxOffset) :
    (f.truncate n h).content = f.content.take n ++ List.replicate (n - f.content.length) 0 := rfl

@[simp] lemma kept_truncate (f : DataFile) (n : ℕ) (h : n ≤ maxOffset) :
    (f.truncate n h).kept = min f.kept n := rfl

lemma length_truncate (f : DataFile) (n : ℕ) (h : n ≤ maxOffset) :
    (f.truncate n h).content.length = n := by
  simp only [content_truncate, List.length_append, List.length_take, List.length_replicate]
  omega

@[simp] lemma fitting_nil (offset : ℕ) : fitting offset [] = [] := List.take_nil

/-- What is written at the end of a file is added to it. -/
lemma content_write_length (f : DataFile) (bytes : List UInt8) :
    (f.write f.content.length bytes).content =
      f.content ++ fitting f.content.length bytes := by
  unfold write
  split_ifs with h
  · rw [h, List.append_nil]
  · have hdrop : f.content.drop (f.content.length + (fitting f.content.length bytes).length) = [] :=
      List.drop_of_length_le (by omega)
    dsimp only
    rw [hdrop, List.take_length, Nat.sub_self, List.replicate_zero, List.append_nil,
      List.append_nil]

lemma kept_write_length (f : DataFile) (bytes : List UInt8) :
    (f.write f.content.length bytes).kept = f.kept := by
  unfold write
  split_ifs
  · rfl
  · exact Nat.min_eq_left f.kept_le

lemma Survives.kept_le {f f' : DataFile} (h : f.Survives f') : f.kept ≤ f'.content.length := by
  have hle := h.keeps.length_le
  rwa [List.length_take, Nat.min_eq_left f.kept_le] at hle

end DataFile
