import Dhow.Lib.Interleaving
import Dhow.Pipeline
import Mathlib.Data.List.Indexes

/-!
# The spread of the frames

The interleaver goes around the blocks until the longest is used up. What it emits is every frame
once, each block's in their own order, and in any stretch of the stream two blocks that go on have
the same share but for one frame: a stretch that is lost is a loss shared by the blocks.
-/

namespace Dhow
open Interleaving (Before ByColumns numbers)

variable {α β : Type}

/-- For every frame its block and its number in the block. -/
def places (perBlock : List (List α)) : List (List (ℕ × ℕ)) :=
  perBlock.mapIdx fun k l => (List.range l.length).map fun i => (k, i)

/-- The frame at a place. -/
def frameAt (perBlock : List (List α)) (p : ℕ × ℕ) : Option α := (perBlock.getD p.1 [])[p.2]?

/-! ### Rounds -/

lemma interleaveRounds_map (f : α → β) (rounds : ℕ) (cursors : List (List α)) :
    interleaveRounds rounds (cursors.map (List.map f)) =
      (interleaveRounds rounds cursors).map f := by
  induction rounds generalizing cursors with
  | zero => rfl
  | succ rounds ih =>
    have hheads : (cursors.map (List.map f)).filterMap List.head? =
        (cursors.filterMap List.head?).map f := by
      rw [List.filterMap_map, List.map_filterMap]
      congr 1
      funext l
      exact List.head?_map
    have htails : (cursors.map (List.map f)).map List.tail =
        (cursors.map List.tail).map (List.map f) := by
      rw [List.map_map, List.map_map]
      congr 1
      funext l
      exact List.map_tail.symm
    rw [interleaveRounds, interleaveRounds, hheads, htails, ih, List.map_append]

lemma longest_map (f : α → β) (perBlock : List (List α)) :
    longest (perBlock.map (List.map f)) = longest perBlock := by
  rw [longest, longest, List.map_map]
  congr 2
  funext l
  exact List.length_map f

lemma interleave_map (f : α → β) (perBlock : List (List α)) :
    interleave (perBlock.map (List.map f)) = (interleave perBlock).map f := by
  rw [interleave, longest_map, interleaveRounds_map, interleave]

lemma mem_interleaveRounds {a : α} {rounds : ℕ} {cursors : List (List α)}
    (h : a ∈ interleaveRounds rounds cursors) : ∃ l ∈ cursors, a ∈ l := by
  induction rounds generalizing cursors with
  | zero => cases h
  | succ rounds ih =>
    rcases List.mem_append.mp h with hhead | htail
    · obtain ⟨l, hl, ha⟩ := List.mem_filterMap.mp hhead
      exact ⟨l, hl, List.mem_of_head? ha⟩
    · obtain ⟨t, ht, ha⟩ := ih htail
      obtain ⟨l, hl, rfl⟩ := List.mem_map.mp ht
      exact ⟨l, hl, List.mem_of_mem_tail ha⟩

/-- Cursors that have come to column `s`. -/
def AtColumn (s : ℕ) (cursors : List (List (ℕ × ℕ))) : Prop :=
  ∀ k (l : List (ℕ × ℕ)), cursors[k]? = some l → ∀ i p, l[i]? = some p → p = (k, s + i)

lemma AtColumn.tails {s : ℕ} {cursors : List (List (ℕ × ℕ))} (h : AtColumn s cursors) :
    AtColumn (s + 1) (cursors.map List.tail) := by
  intro k t ht i p hp
  rw [List.getElem?_map] at ht
  obtain ⟨l, hl, rfl⟩ := Option.map_eq_some_iff.mp ht
  rw [List.getElem?_tail] at hp
  rw [h k l hl _ p hp]
  congr 1
  omega

/-- A round takes its column from the top. -/
lemma pairwise_interleaveRounds {s rounds : ℕ} {cursors : List (List (ℕ × ℕ))}
    (h : AtColumn s cursors) : (interleaveRounds rounds cursors).Pairwise Before := by
  induction rounds generalizing s cursors with
  | zero => exact .nil
  | succ rounds ih =>
    have hhead {p : ℕ × ℕ} {l : List (ℕ × ℕ)} {k : ℕ} (hl : cursors[k]? = some l)
        (hp : l.head? = some p) : p = (k, s) := by
      rw [List.head?_eq_getElem?] at hp
      exact h k l hl 0 p hp
    refine List.pairwise_append.mpr ⟨?_, ih h.tails, ?_⟩
    · rw [List.pairwise_filterMap, List.pairwise_iff_getElem]
      intro i j hi hj hij p hp q hq
      rw [hhead (List.getElem?_eq_getElem hi) hp, hhead (List.getElem?_eq_getElem hj) hq]
      exact .inr ⟨rfl, hij⟩
    · intro p hp q hq
      obtain ⟨l, hl, hpl⟩ := List.mem_filterMap.mp hp
      obtain ⟨k, hk⟩ := List.mem_iff_getElem?.mp hl
      obtain ⟨t, ht, hqt⟩ := mem_interleaveRounds hq
      obtain ⟨k', hk'⟩ := List.mem_iff_getElem?.mp ht
      obtain ⟨i, hi⟩ := List.mem_iff_getElem?.mp hqt
      rw [hhead hk hpl, h.tails k' t hk' i q hi]
      left
      change s < s + 1 + i
      omega

/-! ### The order of the places -/

lemma getElem?_places (perBlock : List (List α)) (k : ℕ) : (places perBlock)[k]? =
    perBlock[k]?.map fun l => (List.range l.length).map fun i => (k, i) := by
  rw [places, List.getElem?_mapIdx]

lemma atColumn_places (perBlock : List (List α)) : AtColumn 0 (places perBlock) := by
  intro k l hl i p hp
  rw [getElem?_places] at hl
  obtain ⟨frames, -, rfl⟩ := Option.map_eq_some_iff.mp hl
  rw [List.getElem?_map] at hp
  obtain ⟨j, hj, rfl⟩ := Option.map_eq_some_iff.mp hp
  rw [List.getElem?_eq_some_iff] at hj
  obtain ⟨hlt, rfl⟩ := hj
  rw [List.getElem_range, Nat.zero_add]

lemma mem_interleave_places {perBlock : List (List α)} {k i : ℕ} :
    (k, i) ∈ interleave (places perBlock) ↔ i < (perBlock.getD k []).length := by
  rw [(interleave_perm _).mem_iff, List.mem_flatten, List.getD_eq_getElem?_getD]
  constructor
  · rintro ⟨l, hl, hi⟩
    obtain ⟨k', hk'⟩ := List.mem_iff_getElem?.mp hl
    rw [getElem?_places] at hk'
    obtain ⟨frames, hframes, rfl⟩ := Option.map_eq_some_iff.mp hk'
    obtain ⟨i', hi', heq⟩ := List.mem_map.mp hi
    cases heq
    rw [hframes]
    exact List.mem_range.mp hi'
  · intro hi
    cases hk : perBlock[k]? with
    | none =>
      rw [hk] at hi
      cases hi
    | some frames =>
      rw [hk] at hi
      have hplaces : (places perBlock)[k]? = some ((List.range frames.length).map fun i => (k, i)) := by
        rw [getElem?_places, hk, Option.map_some]
      exact ⟨_, List.mem_of_getElem? hplaces, List.mem_map.mpr ⟨i, List.mem_range.mpr hi, rfl⟩⟩

lemma byColumns_interleave_places (perBlock : List (List α)) :
    ByColumns (interleave (places perBlock)) where
  pairwise := pairwise_interleaveRounds (atColumn_places perBlock)
  filled k i hi m hm := by
    rw [mem_interleave_places] at hi ⊢
    omega

/-- Every frame goes out at its place in the order. -/
lemma map_interleave_places (perBlock : List (List α)) :
    (interleave (places perBlock)).map (frameAt perBlock) = (interleave perBlock).map some := by
  have hplaces : (places perBlock).map (List.map (frameAt perBlock)) =
      perBlock.map (List.map some) := by
    apply List.ext_getElem?
    intro k
    rw [List.getElem?_map, getElem?_places, List.getElem?_map, Option.map_map]
    cases hk : perBlock[k]? with
    | none => rfl
    | some frames =>
      rw [Option.map_some, Option.map_some, Option.some_inj]
      apply List.ext_getElem?
      intro i
      rw [Function.comp_apply, List.map_map, List.getElem?_map, List.getElem?_map]
      by_cases hi : i < frames.length
      · rw [List.getElem?_range hi, List.getElem?_eq_getElem hi, Option.map_some, Option.map_some,
          Function.comp_apply, frameAt, List.getD_eq_getElem?_getD, hk, Option.getD_some,
          List.getElem?_eq_getElem hi]
      · rw [List.getElem?_eq_none (by rw [List.length_range]; omega),
          List.getElem?_eq_none (by omega)]
        rfl
  rw [← interleave_map, hplaces, interleave_map]

/-- The interleaver emits every frame once, each block's in their order. In a window of its output
the shares of two blocks with a frame at or after the window's last place differ by one at
most. -/
theorem interleave_spreads (perBlock : List (List α)) :
    (interleave perBlock).Perm perBlock.flatten ∧
      ∃ order : List (ℕ × ℕ),
        (interleave perBlock).map some = order.map (frameAt perBlock) ∧
        (∀ k, numbers k order = List.range (perBlock.getD k []).length) ∧
        ∀ pre window post, order = pre ++ (window ++ post) → ∀ j k,
          (∃ p ∈ window.getLast?.toList ++ post, p.1 = j) →
          (∃ p ∈ window.getLast?.toList ++ post, p.1 = k) →
            window.countP (fun p => p.1 = j) ≤ window.countP (fun p => p.1 = k) + 1 := by
  have hcolumns := byColumns_interleave_places perBlock
  refine ⟨interleave_perm perBlock, interleave (places perBlock),
    (map_interleave_places perBlock).symm, fun k => ?_, ?_⟩
  · exact Interleaving.numbers_eq_range hcolumns.pairwise fun i => mem_interleave_places
  · intro pre window post heq j k hj hk
    exact (heq ▸ hcolumns).countP_window_le hj hk

-- Three blocks of one, three and no frames.
example : interleave [[10], [20, 21, 22], []] = [10, 20, 21, 22] := rfl

end Dhow
