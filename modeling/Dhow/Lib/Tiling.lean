import Dhow.Lib.Bytes
import Mathlib.Data.List.GetD

/-!
# Tilings of an interval

A list of pieces `(start, size)` tiles an interval when the first piece starts where the interval
does, each further piece where the one before it ends, and the last ends where the interval does.
Cutting a byte string along a tiling and putting the pieces back together gives the interval.
-/

namespace Bytes

/-- The pieces lie one behind the other from `start` to `stop`. -/
def Tiles : (pieces : List (ℕ × ℕ)) → (start stop : ℕ) → Prop
  | [], start, stop => start = stop
  | piece :: rest, start, stop => piece.1 = start ∧ Tiles rest (start + piece.2) stop

namespace Tiles
variable {pieces : List (ℕ × ℕ)} {start stop : ℕ}

lemma le (h : Tiles pieces start stop) : start ≤ stop := by
  induction pieces generalizing start with
  | nil => exact h.le
  | cons piece rest ih => exact (Nat.le_add_right _ _).trans (ih h.2)

/-- Consecutive intervals are tiled by the pieces of the one and then those of the other. -/
lemma append {more : List (ℕ × ℕ)} {mid : ℕ} (h : Tiles pieces start mid)
    (hmore : Tiles more mid stop) : Tiles (pieces ++ more) start stop := by
  induction pieces generalizing start with
  | nil =>
    have hm : start = mid := h
    rwa [List.nil_append, hm]
  | cons piece rest ih => exact ⟨h.1, ih h.2⟩

/-- Every point of the interval is in some piece. -/
lemma covers (h : Tiles pieces start stop) {x : ℕ} (hx : start ≤ x ∧ x < stop) :
    ∃ piece ∈ pieces, piece.1 ≤ x ∧ x < piece.1 + piece.2 := by
  induction pieces generalizing start with
  | nil =>
    have hs : start = stop := h
    omega
  | cons piece rest ih =>
    by_cases hfirst : x < start + piece.2
    · exact ⟨piece, by simp, by rw [h.1]; exact hx.1, by rw [h.1]; exact hfirst⟩
    · obtain ⟨p, hp, hin⟩ := ih h.2 ⟨Nat.le_of_not_lt hfirst, hx.2⟩
      exact ⟨p, List.mem_cons_of_mem _ hp, hin⟩

/-- The sizes add up to the interval. -/
lemma sum_sizes (h : Tiles pieces start stop) : start + (pieces.map Prod.snd).sum = stop := by
  induction pieces generalizing start with
  | nil => exact h
  | cons piece rest ih => rw [List.map_cons, List.sum_cons, ← Nat.add_assoc, ih h.2]

/-- Pieces that follow one another by their positions tile. -/
lemma of_steps (pos size : ℕ → ℕ) (n : ℕ) (h : ∀ i < n, pos (i + 1) = pos i + size i) :
    Tiles ((List.range n).map fun i => (pos i, size i)) (pos 0) (pos n) := by
  induction n with
  | zero => rfl
  | succ n ih =>
    rw [List.range_succ, List.map_append]
    apply (ih fun i hi => h i (by omega)).append
    exact ⟨rfl, (h n (by omega)).symm⟩

/-- Cutting along a tiling loses nothing. -/
theorem flatten_slice (h : Tiles pieces start stop) (bytes : Str) :
    (pieces.map fun piece => slice bytes piece.1 piece.2).flatten =
      slice bytes start (stop - start) := by
  induction pieces generalizing start with
  | nil =>
    have hs : start = stop := h
    simp [hs, slice]
  | cons piece rest ih =>
    have hle := le h.2
    have hsize : stop - start = piece.2 + (stop - (start + piece.2)) := by omega
    rw [List.map_cons, List.flatten_cons, ih h.2, h.1, slice_append_slice, hsize]

end Tiles
end Bytes
