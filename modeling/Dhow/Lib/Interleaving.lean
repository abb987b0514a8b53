import Mathlib.Data.List.Nodup
import Mathlib.Data.Nat.Notation

/-!
# Interleaving

The places of a table whose rows have different lengths, in the order of the columns. A place is
the pair of its row and its number in the row.
-/

namespace Interleaving

/-- The places of the first `width` columns, from the top of each. -/
def byColumns (rows width : ℕ) (len : ℕ → ℕ) : List (ℕ × ℕ) :=
  (List.range width).flatMap fun i =>
    ((List.range rows).filter fun j => i < len j).map fun j => (j, i)

variable {rows width : ℕ} {len : ℕ → ℕ}

lemma mem_byColumns (p : ℕ × ℕ) :
    p ∈ byColumns rows width len ↔ p.1 < rows ∧ p.2 < width ∧ p.2 < len p.1 := by
  obtain ⟨j, i⟩ := p
  simp only [byColumns, List.mem_flatMap, List.mem_range, List.mem_map, List.mem_filter,
    decide_eq_true_eq, Prod.mk.injEq]
  constructor
  · rintro ⟨i, hi, j, ⟨hj, hlen⟩, rfl, rfl⟩
    exact ⟨hj, hi, hlen⟩
  · rintro ⟨hj, hi, hlen⟩
    exact ⟨i, hi, j, ⟨hj, hlen⟩, rfl, rfl⟩

lemma byColumns_succ : byColumns rows (width + 1) len = byColumns rows width len ++
    ((List.range rows).filter fun j => width < len j).map fun j => (j, width) := by
  rw [byColumns, List.range_succ, List.flatMap_append, List.flatMap_singleton, byColumns]

lemma length_byColumns (h : ∀ j, width ≤ len j) :
    (byColumns rows width len).length = width * rows := by
  induction width with
  | zero => rw [Nat.zero_mul, byColumns, List.range_zero, List.flatMap_nil, List.length_nil]
  | succ width ih =>
    have hall : (List.range rows).filter (fun j => width < len j) = List.range rows :=
      List.filter_eq_self.mpr fun j _ => decide_eq_true (h j)
    rw [byColumns_succ, List.length_append, ih fun j => Nat.le_of_succ_le (h j), List.length_map,
      hall, List.length_range, Nat.succ_mul]

lemma length_filter_le (rows k : ℕ) :
    ((List.range rows).filter fun j => k ≤ j).length = rows - k := by
  induction rows with
  | zero => rw [List.range_zero, List.filter_nil, List.length_nil, Nat.zero_sub]
  | succ rows ih =>
    rw [List.range_succ, List.filter_append, List.length_append, ih]
    by_cases hk : k ≤ rows
    · rw [List.filter_cons_of_pos (by simpa using hk), List.filter_nil, List.length_singleton]
      omega
    · rw [List.filter_cons_of_neg (by simpa using hk), List.filter_nil, List.length_nil]
      omega

/-- What is listed in the order of `places` is found at the number of its place. -/
lemma getD_idxOf {α β : Type} [BEq α] [LawfulBEq α] {places : List α} {p : α} (h : p ∈ places)
    (f : α → β) (d : β) : (places.map f).getD (places.idxOf p) d = f p := by
  have hlt := List.idxOf_lt_length_of_mem h
  rw [List.getD_eq_getElem?_getD, List.getElem?_map, List.getElem?_eq_getElem hlt,
    List.getElem_idxOf hlt]
  rfl

/-- What is looked up by its number in a list without repetition is listed in order. -/
lemma take_map_getD_idxOf {α β : Type} [BEq α] [LawfulBEq α] {places : List α} {values : List β}
    (h : places.Nodup) (hlen : values.length ≤ places.length) (d : β) :
    (places.map fun p => values.getD (places.idxOf p) d).take values.length = values := by
  apply List.ext_getElem
  · rw [List.length_take, List.length_map, Nat.min_eq_left hlen]
  · intro i hi hi'
    rw [List.getElem_take, List.getElem_map, h.idxOf_getElem, List.getD_eq_getElem?_getD,
      List.getElem?_eq_getElem hi', Option.getD_some]

/-! ### Fairness

A list of places in the order of the columns, in which every row is filled from its start, serves
the rows evenly: between two of its places, each row that is not used up has had its place in
every column that is complete. -/

/-- In an earlier column, or higher in the same one. -/
def Before (p q : ℕ × ℕ) : Prop := p.2 < q.2 ∨ p.2 = q.2 ∧ p.1 < q.1

/-- The numbers of the places of a row. -/
def numbers (j : ℕ) (places : List (ℕ × ℕ)) : List ℕ :=
  (places.filter fun p => p.1 = j).map Prod.snd

lemma length_numbers (j : ℕ) (places : List (ℕ × ℕ)) :
    (numbers j places).length = places.countP fun p => p.1 = j := by
  rw [numbers, List.length_map, List.countP_eq_length_filter]

lemma mem_numbers {j i : ℕ} {places : List (ℕ × ℕ)} : i ∈ numbers j places ↔ (j, i) ∈ places := by
  simp only [numbers, List.mem_map, List.mem_filter, decide_eq_true_eq]
  constructor
  · rintro ⟨p, ⟨hp, rfl⟩, rfl⟩
    exact hp
  · intro h
    exact ⟨(j, i), ⟨h, rfl⟩, rfl⟩

lemma eq_range_of_pairwise_lt {l : List ℕ} {n : ℕ} (h : l.Pairwise (· < ·))
    (hmem : ∀ i, i ∈ l ↔ i < n) : l = List.range n := by
  have hperm : l.Perm (List.range n) := by
    rw [List.perm_ext_iff_of_nodup (h.imp fun hlt => Nat.ne_of_lt hlt) List.nodup_range]
    intro i
    rw [hmem, List.mem_range]
  exact hperm.eq_of_pairwise (fun a b _ _ hab hba => absurd hab (Nat.lt_asymm hba)) h
    List.pairwise_lt_range

/-- A row that holds the numbers below `n` holds them in order. -/
lemma numbers_eq_range {places : List (ℕ × ℕ)} {j n : ℕ} (h : places.Pairwise Before)
    (hmem : ∀ i, (j, i) ∈ places ↔ i < n) : numbers j places = List.range n := by
  apply eq_range_of_pairwise_lt
  · rw [numbers, List.pairwise_map]
    refine (h.filter _).imp_of_mem ?_
    intro p q hp hq hpq
    have hpj := of_decide_eq_true (List.mem_filter.mp hp).2
    have hqj := of_decide_eq_true (List.mem_filter.mp hq).2
    rcases hpq with hlt | ⟨-, hlt⟩
    · exact hlt
    · omega
  · intro i
    rw [mem_numbers, hmem]

/-- Rows are filled from their starts, a column at a time. -/
structure ByColumns (order : List (ℕ × ℕ)) : Prop where
  pairwise : order.Pairwise Before
  filled : ∀ j i, (j, i) ∈ order → ∀ k ≤ i, (j, k) ∈ order

/-- How often a row had its turn before a place in a column that it reaches. -/
lemma ByColumns.countP_before {pre post : List (ℕ × ℕ)} {q : ℕ × ℕ}
    (h : ByColumns (pre ++ q :: post)) {j : ℕ} (hj : (j, q.2) ∈ pre ++ q :: post) :
    pre.countP (fun p => p.1 = j) = if j < q.1 then q.2 + 1 else q.2 := by
  obtain ⟨hord, hfull⟩ := h
  obtain ⟨hpre, hpost, hacross⟩ := List.pairwise_append.mp hord
  obtain ⟨hafter, -⟩ := List.pairwise_cons.mp hpost
  have hmem (i : ℕ) : (j, i) ∈ pre ↔ i < if j < q.1 then q.2 + 1 else q.2 := by
    constructor
    · intro hi
      rcases hacross _ hi q List.mem_cons_self with hlt | ⟨heq, hlt⟩
      · split <;> omega
      · dsimp only at heq hlt
        rw [if_pos hlt]
        omega
    · intro hi
      have hle : i ≤ q.2 := by split at hi <;> omega
      rcases List.mem_append.mp (hfull j q.2 hj i hle) with hmem | hmem
      · exact hmem
      · exfalso
        rcases List.mem_cons.mp hmem with rfl | hlater
        · simp at hi
        · rcases hafter _ hlater with hlt | ⟨heq, hlt⟩
          · dsimp only at hlt
            omega
          · dsimp only at heq hlt
            rw [if_neg (by omega)] at hi
            omega
  rw [← length_numbers, numbers_eq_range hpre hmem, List.length_range]

/-- A row with a place at or after one of a column reaches that column. -/
lemma ByColumns.reaches {pre post : List (ℕ × ℕ)} {q : ℕ × ℕ} (h : ByColumns (pre ++ q :: post))
    {j : ℕ} (hj : ∃ p ∈ q :: post, p.1 = j) {i : ℕ} (hi : i ≤ q.2) :
    (j, i) ∈ pre ++ q :: post := by
  obtain ⟨p, hp, rfl⟩ := hj
  refine h.filled p.1 p.2 (List.mem_append_right _ hp) i ?_
  obtain ⟨-, hpost, -⟩ := List.pairwise_append.mp h.pairwise
  rcases List.mem_cons.mp hp with rfl | hlater
  · exact hi
  · rcases (List.pairwise_cons.mp hpost).1 p hlater with hlt | ⟨heq, -⟩ <;> omega

/-- In a window of the order, two rows that reach its last column are served equally often, but
for one turn. -/
lemma ByColumns.countP_window_le {pre window post : List (ℕ × ℕ)}
    (h : ByColumns (pre ++ (window ++ post))) {j k : ℕ}
    (hj : ∃ p ∈ window.getLast?.toList ++ post, p.1 = j)
    (hk : ∃ p ∈ window.getLast?.toList ++ post, p.1 = k) :
    window.countP (fun p => p.1 = j) ≤ window.countP (fun p => p.1 = k) + 1 := by
  rcases window.eq_nil_or_concat' with rfl | ⟨init, last, rfl⟩
  · exact Nat.zero_le _
  rw [List.getLast?_concat] at hj hk
  have hlast : ByColumns ((pre ++ init) ++ last :: post) := by
    simpa only [List.append_assoc, List.singleton_append] using h
  have hend (r : ℕ) (hr : ∃ p ∈ last :: post, p.1 = r) :=
    hlast.countP_before (hlast.reaches hr (Nat.le_refl _))
  cases init with
  | nil =>
    rw [List.nil_append, List.countP_singleton, List.countP_singleton]
    split <;> omega
  | cons first tail =>
    have hsame : pre ++ first :: (tail ++ last :: post) =
        (pre ++ first :: tail) ++ last :: post := by
      simp only [List.append_assoc, List.cons_append]
    have hfirst : ByColumns (pre ++ first :: (tail ++ last :: post)) := hsame ▸ hlast
    have hbefore : Before first last := by
      obtain ⟨-, hrest, -⟩ := List.pairwise_append.mp hfirst.pairwise
      exact (List.pairwise_cons.mp hrest).1 last (by simp)
    have hle : first.2 ≤ last.2 := by rcases hbefore with hlt | ⟨heq, -⟩ <;> omega
    have hstart (r : ℕ) (hr : ∃ p ∈ last :: post, p.1 = r) :
        pre.countP (fun p => p.1 = r) = if r < first.1 then first.2 + 1 else first.2 := by
      apply hfirst.countP_before
      rw [hsame]
      exact hlast.reaches hr hle
    have hcount (r : ℕ) (hr : ∃ p ∈ last :: post, p.1 = r) :
        (if r < first.1 then first.2 + 1 else first.2) +
            (first :: tail ++ [last]).countP (fun p => p.1 = r) =
          (if r < last.1 then last.2 + 1 else last.2) + if last.1 = r then 1 else 0 := by
      rw [← hstart r hr, ← hend r hr, List.countP_append, List.countP_append, Nat.add_assoc]
      simp only [List.countP_singleton, decide_eq_true_eq]
    have hjs := hcount j hj
    have hks := hcount k hk
    rcases hbefore with hlt | ⟨heq, hlt⟩
    · split_ifs at hjs hks <;> omega
    · split_ifs at hjs hks <;> omega

end Interleaving
