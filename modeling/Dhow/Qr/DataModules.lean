import Dhow.Qr.Walk
import Mathlib.Data.Finset.Prod
import Mathlib.Algebra.Order.BigOperators.Group.Finset

/-!
# The data modules

The walk comes to every data module once, and there are as many of them as the tables say.
-/

namespace Dhow.Qr

variable {version : ℕ}

/-! ### The walk -/

lemma mem_columnPair {k : ℕ} (hk : k < 2 * version + 8) (p : ℕ × ℕ) :
    p ∈ columnPair version k ↔
      (p.1 = rightColumn version k ∨ p.1 + 1 = rightColumn version k) ∧ p.2 < side version := by
  have hpos := (rightColumn_pos hk).1
  obtain ⟨x, y⟩ := p
  simp only [columnPair, List.mem_flatMap, List.mem_range, List.mem_map, Prod.mk.injEq]
  constructor
  · rintro ⟨vert, hvert, j, hj, rfl, rfl⟩
    refine ⟨by omega, ?_⟩
    split_ifs <;> omega
  · rintro ⟨hx, hy⟩
    refine ⟨if k % 2 = 0 then side version - 1 - y else y, ?_, rightColumn version k - x, ?_, ?_, ?_⟩
    · split_ifs <;> omega
    · omega
    · omega
    · split_ifs <;> omega

lemma nodup_columnPair {k : ℕ} (hk : k < 2 * version + 8) : (columnPair version k).Nodup := by
  have hpos := (rightColumn_pos hk).1
  rw [columnPair, List.nodup_flatMap]
  constructor
  · intro vert _
    apply List.Nodup.map_on _ List.nodup_range
    intro j hj i hi h
    rw [Prod.mk.injEq] at h
    rw [List.mem_range] at hi hj
    omega
  · apply List.Pairwise.imp_of_mem _ List.nodup_range
    intro vert vert' hvert hvert' hne
    rw [List.mem_range] at hvert hvert'
    apply List.disjoint_left.mpr
    simp only [List.mem_map, not_exists, not_and]
    rintro p ⟨j, -, rfl⟩ i - h
    rw [Prod.mk.injEq] at h
    obtain ⟨-, hy⟩ := h
    split_ifs at hy <;> omega

/-- The columns without the timing pattern, two at a time. -/
lemma exists_rightColumn {x : ℕ} (hx : x < side version) (h6 : x ≠ 6) :
    ∃ k < 2 * version + 8, x = rightColumn version k ∨ x + 1 = rightColumn version k := by
  unfold rightColumn
  rcases Nat.lt_or_ge 6 x with hlt | hle
  · refine ⟨(side version - 1 - x) / 2, ?_, ?_⟩
    · unfold side at *
      omega
    · unfold side at *
      split_ifs <;> omega
  · refine ⟨(side version - 2 - x) / 2, ?_, ?_⟩
    · unfold side at *
      omega
    · unfold side at *
      split_ifs <;> omega

lemma mem_walk (p : ℕ × ℕ) :
    p ∈ walk version ↔ p.1 < side version ∧ p.2 < side version ∧ p.1 ≠ 6 := by
  rw [walk, List.mem_flatMap]
  constructor
  · rintro ⟨k, hk, hp⟩
    rw [List.mem_range] at hk
    obtain ⟨hx, hy⟩ := (mem_columnPair hk p).mp hp
    have hlt := (rightColumn_pos hk).2
    refine ⟨by omega, hy, ?_⟩
    unfold rightColumn side at hx
    split_ifs at hx <;> omega
  · rintro ⟨hx, hy, h6⟩
    obtain ⟨k, hk, hcolumn⟩ := exists_rightColumn hx h6
    exact ⟨k, List.mem_range.mpr hk, (mem_columnPair hk p).mpr ⟨hcolumn, hy⟩⟩

lemma nodup_walk : (walk version).Nodup := by
  rw [walk, List.nodup_flatMap]
  constructor
  · intro k hk
    exact nodup_columnPair (List.mem_range.mp hk)
  · apply List.Pairwise.imp_of_mem _ List.nodup_range
    intro k k' hk hk' hne
    rw [List.mem_range] at hk hk'
    apply List.disjoint_left.mpr
    intro p hp hp'
    obtain ⟨hx, -⟩ := (mem_columnPair hk p).mp hp
    obtain ⟨hx', -⟩ := (mem_columnPair hk' p).mp hp'
    unfold rightColumn side at hx hx'
    split_ifs at hx hx' <;> omega

lemma nodup_dataModules : (dataModules version).Nodup := nodup_walk.filter _

lemma mem_dataModules (p : ℕ × ℕ) : p ∈ dataModules version ↔
    p.1 < side version ∧ p.2 < side version ∧ ¬IsFunction version p.1 p.2 := by
  rw [dataModules, List.mem_filter, mem_walk, decide_eq_true_eq]
  constructor
  · rintro ⟨⟨hx, hy, -⟩, hf⟩
    exact ⟨hx, hy, hf⟩
  · rintro ⟨hx, hy, hf⟩
    exact ⟨⟨hx, hy, fun h6 => hf (.inl (.inl h6))⟩, hf⟩

/-! ### How many there are -/

/-- The centres that are not on the timing pattern. -/
def outerCentres (version : ℕ) : List ℕ := (alignmentCentres version).tail

/-- The centres that are not in line with a finder pattern either. -/
def innerCentres (version : ℕ) : List ℕ := (outerCentres version).dropLast

lemma centre_cases : ∀ version < 41, ∀ c ∈ alignmentCentres version, c ≠ 6 →
    c ∈ outerCentres version ∧ (c + 7 ≠ side version →
      c ∈ innerCentres version ∧ 11 ≤ c ∧ c + 11 ≤ side version) := by
  decide +kernel

lemma rawDataModules_cases : ∀ version : ℕ, version < 41 → 1 ≤ version →
    rawDataModules version + (191 + side version + (innerCentres version).length * 40 +
      (outerCentres version).length * (outerCentres version).length * 25 +
      if 7 ≤ version then 36 else 0 : ℕ) ≤ ((side version - 1) * side version : ℕ) := by
  decide +kernel

/-- The modules up to two from a centre. -/
def around (c : ℕ) : Finset ℕ := Finset.Ico (c - 2) (c + 3)

lemma card_around_le (c : ℕ) : (around c).card ≤ 5 := by
  rw [around, Nat.card_Ico]
  omega

/-- The function modules off column six are among these, which overlap in few places only. -/
def functionCover (version : ℕ) : Finset (ℕ × ℕ) :=
  let n := side version
  let corner := (Finset.range 9).erase 6
  let line : Finset ℕ := {4, 5, 7, 8}
  corner ×ˢ Finset.range 9 ∪ (Finset.Ico (n - 8) n ×ˢ Finset.range 9 ∪
    (corner ×ˢ Finset.Ico (n - 8) n ∪ (Finset.Ico 9 (n - 8) ×ˢ {6} ∪
    ((innerCentres version).toFinset.biUnion (fun c => around c ×ˢ line) ∪
    ((innerCentres version).toFinset.biUnion (fun c => line ×ˢ around c) ∪
    (((outerCentres version).toFinset ×ˢ (outerCentres version).toFinset).biUnion
      (fun c => around c.1 ×ˢ around c.2) ∪
    if 7 ≤ version then Finset.Ico (n - 11) (n - 8) ×ˢ Finset.range 6 ∪
      Finset.range 6 ×ˢ Finset.Ico (n - 11) (n - 8) else ∅))))))

lemma card_union_le_add {s t : Finset (ℕ × ℕ)} {a b : ℕ} (hs : s.card ≤ a) (ht : t.card ≤ b) :
    (s ∪ t).card ≤ a + b := (Finset.card_union_le s t).trans (Nat.add_le_add hs ht)

lemma card_functionCover_le (h1 : 1 ≤ version) : (functionCover version).card ≤
    191 + side version + (innerCentres version).length * 40 +
      (outerCentres version).length * (outerCentres version).length * 25 +
      if 7 ≤ version then 36 else 0 := by
  have hn : 21 ≤ side version := by
    unfold side
    omega
  have hline : ({4, 5, 7, 8} : Finset ℕ).card = 4 := rfl
  have hcorner : ((Finset.range 9).erase 6).card = 8 := rfl
  have hinner := (innerCentres version).toFinset_card_le
  have houter := (outerCentres version).toFinset_card_le
  have hrows : ((innerCentres version).toFinset.biUnion
      (fun c => around c ×ˢ ({4, 5, 7, 8} : Finset ℕ))).card ≤
      (innerCentres version).length * 20 := by
    refine (Finset.card_biUnion_le_card_mul _ _ 20 fun c _ => ?_).trans
      (Nat.mul_le_mul_right 20 hinner)
    rw [Finset.card_product, hline]
    exact Nat.mul_le_mul_right 4 (card_around_le c)
  have hcolumns : ((innerCentres version).toFinset.biUnion
      (fun c => ({4, 5, 7, 8} : Finset ℕ) ×ˢ around c)).card ≤
      (innerCentres version).length * 20 := by
    refine (Finset.card_biUnion_le_card_mul _ _ 20 fun c _ => ?_).trans
      (Nat.mul_le_mul_right 20 hinner)
    rw [Finset.card_product, hline]
    exact Nat.mul_le_mul_left 4 (card_around_le c)
  have hsquares : (((outerCentres version).toFinset ×ˢ (outerCentres version).toFinset).biUnion
      (fun c => around c.1 ×ˢ around c.2)).card ≤
      (outerCentres version).length * (outerCentres version).length * 25 := by
    refine (Finset.card_biUnion_le_card_mul _ _ 25 fun c _ => ?_).trans ?_
    · rw [Finset.card_product]
      exact Nat.mul_le_mul (card_around_le c.1) (card_around_le c.2)
    · rw [Finset.card_product]
      exact Nat.mul_le_mul_right 25 (Nat.mul_le_mul houter houter)
  have hinfo : (if 7 ≤ version then
      Finset.Ico (side version - 11) (side version - 8) ×ˢ Finset.range 6 ∪
        Finset.range 6 ×ˢ Finset.Ico (side version - 11) (side version - 8) else ∅).card ≤
      if 7 ≤ version then 36 else 0 := by
    split_ifs
    · apply card_union_le_add (a := 18) (b := 18)
      · rw [Finset.card_product, Nat.card_Ico, Finset.card_range]
        omega
      · rw [Finset.card_product, Nat.card_Ico, Finset.card_range]
        omega
    · exact le_rfl
  refine (card_union_le_add (a := 72) ?_ (card_union_le_add (a := 72) ?_ (card_union_le_add (a := 64)
    ?_ (card_union_le_add (a := side version - 17) ?_ (card_union_le_add hrows (card_union_le_add
    hcolumns (card_union_le_add hsquares hinfo))))))).trans ?_
  · rw [Finset.card_product, hcorner, Finset.card_range]
  · rw [Finset.card_product, Nat.card_Ico, Finset.card_range]
    omega
  · rw [Finset.card_product, hcorner, Nat.card_Ico]
    omega
  · rw [Finset.card_product, Nat.card_Ico, Finset.card_singleton]
    omega
  · split_ifs <;> omega

lemma mem_functionCover (h1 : 1 ≤ version) (h40 : version ≤ 40) {x y : ℕ}
    (hx : x < side version) (hy : y < side version) (h6 : x ≠ 6) (hf : IsFunction version x y) :
    (x, y) ∈ functionCover version := by
  have hn : 21 ≤ side version := by
    unfold side
    omega
  have hcentre := centre_cases version (by omega)
  simp only [functionCover, around, Finset.mem_union, Finset.mem_product, Finset.mem_erase,
    Finset.mem_range, Finset.mem_Ico, Finset.mem_singleton, Finset.mem_insert, Finset.mem_biUnion,
    List.mem_toFinset, Prod.exists]
  rcases hf with htiming | hfinder | halign | hformat | hinfo
  · unfold IsTiming at htiming
    omega
  · unfold IsFinder at hfinder
    omega
  · obtain ⟨cx, hcx, cy, hcy, hskip, hxc, hyc⟩ := halign
    by_cases hx6 : cx = 6
    · obtain ⟨-, hinner⟩ := hcentre cy hcy (by omega)
      obtain ⟨hmem, -, -⟩ := hinner (by omega)
      exact .inr (.inr (.inr (.inr (.inr (.inl ⟨cy, hmem, by omega, by omega⟩)))))
    · obtain ⟨houter, hinner⟩ := hcentre cx hcx hx6
      by_cases hy6 : cy = 6
      · obtain ⟨hmem, hlo, hhi⟩ := hinner (by omega)
        rcases eq_or_ne y 6 with hy | hy
        · exact .inr (.inr (.inr (.inl (by omega))))
        · exact .inr (.inr (.inr (.inr (.inl ⟨cx, hmem, by omega, by omega⟩))))
      · obtain ⟨houter', -⟩ := hcentre cy hcy hy6
        exact .inr (.inr (.inr (.inr (.inr (.inr (.inl
          ⟨cx, cy, ⟨houter, houter'⟩, by omega, by omega⟩))))))
  · unfold IsFormat at hformat
    omega
  · obtain ⟨h7, hinfo⟩ := hinfo
    rw [if_pos h7]
    simp only [Finset.mem_union, Finset.mem_product, Finset.mem_Ico, Finset.mem_range]
    omega

/-- The data modules are at least as many as the tables say. -/
lemma rawDataModules_le (h1 : 1 ≤ version) (h40 : version ≤ 40) :
    rawDataModules version ≤ (dataModules version).length := by
  have hall : (walk version).toFinset =
      (Finset.range (side version)).erase 6 ×ˢ Finset.range (side version) := by
    ext p
    rw [List.mem_toFinset, mem_walk, Finset.mem_product, Finset.mem_erase, Finset.mem_range,
      Finset.mem_range]
    tauto
  have hwalk : (walk version).length = (side version - 1) * side version := by
    rw [← List.toFinset_card_of_nodup nodup_walk, hall, Finset.card_product, Finset.card_range,
      Finset.card_erase_of_mem, Finset.card_range]
    rw [Finset.mem_range]
    unfold side
    omega
  have hsplit : (dataModules version).length +
      ((walk version).filter fun p => IsFunction version p.1 p.2).length = (walk version).length := by
    rw [List.length_eq_length_filter_add (l := walk version)
      fun p => decide (IsFunction version p.1 p.2), Nat.add_comm, dataModules]
    simp only [decide_not]
  have hfunction : ((walk version).filter fun p => IsFunction version p.1 p.2).length ≤
      (functionCover version).card := by
    rw [← List.toFinset_card_of_nodup (nodup_walk.filter _)]
    apply Finset.card_le_card
    rintro ⟨x, y⟩ hp
    rw [List.mem_toFinset, List.mem_filter, mem_walk, decide_eq_true_eq] at hp
    obtain ⟨⟨hx, hy, h6⟩, hf⟩ := hp
    exact mem_functionCover h1 h40 hx hy h6 hf
  have hcover := card_functionCover_le h1
  have hcases := rawDataModules_cases version (by omega) h1
  rw [hwalk] at hsplit
  omega

end Dhow.Qr
