import Dhow.Qr.Format
import Mathlib.Data.Set.Lattice

/-!
# Function modules

The modules of a symbol that carry structure rather than data: what the code marks is what the
standard describes.
-/

namespace Dhow.Qr
open Checked

def mark (size x y : ℤ) (fn : List Bool) : Checked QrError (List Bool) :=
  if x ≥ 0 ∧ y ≥ 0 ∧ x < size ∧ y < size then store fn (y * size + x) true else .ok fn

/-- The modules up to `r` from a centre. -/
def markSquare (size : ℤ) (r : ℕ) (cx cy : ℤ) (fn : List Bool) : Checked QrError (List Bool) :=
  repeatFor (fun dy fn => repeatFor (fun dx fn =>
    mark size (cx + ((dx : ℤ) - r)) (cy + ((dy : ℤ) - r)) fn) fn (2 * r + 1)) fn (2 * r + 1)

def functionModules (version : ℤ) : Checked QrError (List Bool) := do
  let size := sizeForVersion version
  let fn ← make (size * size) false
  let fn ← repeatFor (fun i fn => mark size 6 i fn >>= mark size i 6) fn size.toNat
  let fn ← forEach (fun c => markSquare size 4 c.1 c.2) [(3, 3), (size - 4, 3), (3, size - 4)] fn
  let positions ← alignmentPatternPositions version
  let n := positions.length
  let fn ← repeatFor (fun i fn => repeatFor (fun j fn =>
    if i = 0 ∧ j = 0 ∨ i = 0 ∧ j + 1 = n ∨ i + 1 = n ∧ j = 0 then .ok fn
    else do
      let cx ← index positions i
      let cy ← index positions j
      markSquare size 2 cx cy fn) fn n) fn n
  let (first, second) := formatBitPositions size
  let fn ← forEach (fun p => mark size p.1 p.2) first fn
  let fn ← forEach (fun p => mark size p.1 p.2) second fn
  let fn ← mark size 8 (size - 8) fn
  if version ≥ 7 then
    repeatFor (fun i fn => do
      let a := size - 11 + (i % 3 : ℕ)
      let b := (i / 3 : ℕ)
      let fn ← mark size a b fn
      mark size b a fn) fn 18
  else .ok fn

/-! ### The modules of the standard -/

/-- The centres of the alignment patterns by the version. -/
def alignmentCentres (version : ℕ) : List ℕ :=
  [[], [], [6, 18], [6, 22], [6, 26], [6, 30], [6, 34], [6, 22, 38], [6, 24, 42], [6, 26, 46],
    [6, 28, 50], [6, 30, 54], [6, 32, 58], [6, 34, 62], [6, 26, 46, 66], [6, 26, 48, 70],
    [6, 26, 50, 74], [6, 30, 54, 78], [6, 30, 56, 82], [6, 30, 58, 86], [6, 34, 62, 90],
    [6, 28, 50, 72, 94], [6, 26, 50, 74, 98], [6, 30, 54, 78, 102], [6, 28, 54, 80, 106],
    [6, 32, 58, 84, 110], [6, 30, 58, 86, 114], [6, 34, 62, 90, 118], [6, 26, 50, 74, 98, 122],
    [6, 30, 54, 78, 102, 126], [6, 26, 52, 78, 104, 130], [6, 30, 56, 82, 108, 134],
    [6, 34, 60, 86, 112, 138], [6, 30, 58, 86, 114, 142], [6, 34, 62, 90, 118, 146],
    [6, 30, 54, 78, 102, 126, 150], [6, 24, 50, 76, 102, 128, 154], [6, 28, 54, 80, 106, 132, 158],
    [6, 32, 58, 84, 110, 136, 162], [6, 26, 54, 82, 110, 138, 166],
    [6, 30, 58, 86, 114, 142, 170]].getD version []

/-- The modules per side. -/
def side (version : ℕ) : ℕ := 4 * version + 17

/-- The finder patterns in three corners, with the separators around them. -/
def IsFinder (n x y : ℕ) : Prop := x < 8 ∧ y < 8 ∨ n ≤ x + 8 ∧ y < 8 ∨ x < 8 ∧ n ≤ y + 8

def IsTiming (x y : ℕ) : Prop := x = 6 ∨ y = 6

/-- The format information and the dark module. -/
def IsFormat (n x y : ℕ) : Prop := x = 8 ∧ (y < 9 ∨ n ≤ y + 8) ∨ y = 8 ∧ (x < 9 ∨ n ≤ x + 8)

/-- A pattern is centred where the two centres do not meet in a finder pattern. -/
def IsAlignment (version x y : ℕ) : Prop :=
  ∃ cx ∈ alignmentCentres version, ∃ cy ∈ alignmentCentres version,
    ¬(cx = 6 ∧ cy = 6 ∨ cx = 6 ∧ cy + 7 = side version ∨ cx + 7 = side version ∧ cy = 6) ∧
      (cx ≤ x + 2 ∧ x ≤ cx + 2) ∧ cy ≤ y + 2 ∧ y ≤ cy + 2

def IsVersionInfo (version x y : ℕ) : Prop :=
  7 ≤ version ∧ (side version ≤ x + 11 ∧ x + 9 ≤ side version ∧ y < 6 ∨
    side version ≤ y + 11 ∧ y + 9 ≤ side version ∧ x < 6)

def IsFunction (version x y : ℕ) : Prop :=
  IsTiming x y ∨ IsFinder (side version) x y ∨ IsAlignment version x y ∨
    IsFormat (side version) x y ∨ IsVersionInfo version x y

instance (version x y : ℕ) : Decidable (IsFunction version x y) := by
  unfold IsFunction IsTiming IsFinder IsAlignment IsFormat IsVersionInfo
  infer_instance

/-! ### Marking -/

/-- The marked modules are those of `s`. -/
structure Marks (n : ℕ) (s : Set (ℤ × ℤ)) (fn : List Bool) : Prop where
  length_eq : fn.length = n * n
  marked_iff : ∀ x < n, ∀ y < n, fn[y * n + x]? = some true ↔ ((x : ℤ), (y : ℤ)) ∈ s

/-- The code marks the modules of `t` besides those marked already. -/
def Adds (n : ℕ) (t : Set (ℤ × ℤ)) (c : List Bool → Checked QrError (List Bool)) : Prop :=
  ∀ s fn, Marks n s fn → Gives (Marks n (s ∪ t)) (c fn)

namespace Adds
variable {n : ℕ} {t u : Set (ℤ × ℤ)} {c d : List Bool → Checked QrError (List Bool)}

lemma nothing : Adds n ∅ (fun fn => .ok fn) := by
  intro s fn h
  rw [Set.union_empty]
  exact .ok h

lemma congr (h : Adds n t c) (htu : t = u) : Adds n u c := htu ▸ h

lemma bind (hc : Adds n t c) (hd : Adds n u d) : Adds n (t ∪ u) (fun fn => c fn >>= d) := by
  intro s fn h
  refine Gives.bind (hc s fn h) fun fn' h' => ?_
  rw [← Set.union_assoc]
  exact hd _ _ h'

lemma ite {p : Prop} [Decidable p] (hc : p → Adds n t c) (hd : ¬p → Adds n u d) :
    Adds n (if p then t else u) (fun fn => if p then c fn else d fn) := by
  by_cases hp : p
  · simpa only [if_pos hp] using hc hp
  · simpa only [if_neg hp] using hd hp

lemma forEach {α : Type} {body : α → List Bool → Checked QrError (List Bool)}
    {t : α → Set (ℤ × ℤ)} (l : List α) (h : ∀ a ∈ l, Adds n (t a) (body a)) :
    Adds n {p | ∃ a ∈ l, p ∈ t a} (Checked.forEach body l) := by
  intro s fn hs
  apply ends_forEach (fun done => Marks n (s ∪ {p | ∃ a ∈ done, p ∈ t a})) l
  · simpa using hs
  · rintro done a rest rfl fn' h'
    have hstep := h a (by simp) _ _ h'
    have hset : s ∪ {p | ∃ b ∈ done ++ [a], p ∈ t b} = s ∪ {p | ∃ b ∈ done, p ∈ t b} ∪ t a := by
      ext p
      simp [or_and_right, exists_or, or_assoc]
    rwa [hset]

lemma repeatFor {body : ℕ → List Bool → Checked QrError (List Bool)} {t : ℕ → Set (ℤ × ℤ)}
    (m : ℕ) (h : ∀ i < m, Adds n (t i) (body i)) :
    Adds n {p | ∃ i < m, p ∈ t i} (fun fn => Checked.repeatFor body fn m) := by
  have hlist := forEach (List.range m) fun i hi => h i (List.mem_range.mp hi)
  simpa only [repeatFor_eq_forEach, List.mem_range] using hlist

end Adds

lemma cell_inj {n x y x' y' : ℕ} (hx : x < n) (hx' : x' < n) (h : y * n + x = y' * n + x') :
    x = x' ∧ y = y' := by
  have hmod := congrArg (· % n) h
  have hdiv := congrArg (· / n) h
  have hn : 0 < n := Nat.zero_lt_of_lt hx
  simp only [Nat.mul_add_mod_self_right, Nat.mod_eq_of_lt hx, Nat.mod_eq_of_lt hx'] at hmod
  simp only [Nat.add_comm (_ * n), Nat.add_mul_div_right _ _ hn, Nat.div_eq_of_lt hx,
    Nat.div_eq_of_lt hx', Nat.zero_add] at hdiv
  exact ⟨hmod, hdiv⟩

lemma adds_mark (n : ℕ) (x y : ℤ) : Adds n {(x, y)} (mark n x y) := by
  intro s fn h
  rw [mark]
  split_ifs with hin
  · obtain ⟨a, rfl⟩ := Int.eq_ofNat_of_zero_le (show 0 ≤ x by omega)
    obtain ⟨b, rfl⟩ := Int.eq_ofNat_of_zero_le (show 0 ≤ y by omega)
    have ha : a < n := by omega
    have hb : b < n := by omega
    have hlt := cell_lt ha hb
    rw [store_eq (k := b * n + a) (by push_cast; rfl) (by rw [h.length_eq]; exact hlt)]
    refine .ok ⟨by rw [List.length_set, h.length_eq], fun x' hx' y' hy' => ?_⟩
    rw [List.getElem?_set]
    split_ifs with heq hlen
    · obtain ⟨rfl, rfl⟩ := cell_inj ha hx' heq
      simp
    · rw [h.length_eq] at hlen
      exact absurd hlt hlen
    · rw [h.marked_iff x' hx' y' hy', Set.mem_union, Set.mem_singleton_iff, Prod.mk.injEq]
      constructor
      · exact .inl
      · rintro (hs | ⟨hxx, hyy⟩)
        · exact hs
        · obtain rfl : x' = a := by omega
          obtain rfl : y' = b := by omega
          exact absurd rfl heq
  · refine .ok ⟨h.length_eq, fun x' hx' y' hy' => ?_⟩
    rw [h.marked_iff x' hx' y' hy', Set.mem_union, Set.mem_singleton_iff, Prod.mk.injEq]
    constructor
    · exact .inl
    · rintro (hs | ⟨hxx, hyy⟩)
      · exact hs
      · omega

lemma adds_markSquare (n r : ℕ) (cx cy : ℤ) :
    Adds n {p | (cx - r ≤ p.1 ∧ p.1 ≤ cx + r) ∧ cy - r ≤ p.2 ∧ p.2 ≤ cy + r}
      (markSquare n r cx cy) := by
  refine Adds.congr (Adds.repeatFor (2 * r + 1) fun dy _ => Adds.repeatFor (2 * r + 1) fun dx _ =>
    adds_mark n (cx + ((dx : ℤ) - r)) (cy + ((dy : ℤ) - r))) ?_
  ext ⟨x, y⟩
  simp only [Set.mem_ofPred_eq, Set.mem_singleton_iff, Prod.mk.injEq]
  constructor
  · rintro ⟨dy, hdy, dx, hdx, rfl, rfl⟩
    omega
  · rintro ⟨hx, hy⟩
    exact ⟨(y - cy + r).toNat, by omega, (x - cx + r).toNat, by omega, by omega, by omega⟩

/-! ### What is marked -/

lemma alignmentPatternPositions_eq : ∀ version : ℕ, version < 41 → 1 ≤ version →
    alignmentPatternPositions version =
      .ok ((alignmentCentres version).map fun c : ℕ => (c : ℤ)) := by
  decide +kernel

/-- The first centre is on the timing pattern, the last in line with the other finder patterns. -/
lemma alignmentCentres_ends : ∀ version < 41, ∀ i < (alignmentCentres version).length,
    ((alignmentCentres version).getD i 0 = 6 ↔ i = 0) ∧
      ((alignmentCentres version).getD i 0 + 7 = side version ↔
        i + 1 = (alignmentCentres version).length) := by
  decide +kernel

section Marked
variable {version : ℕ}

lemma adds_timing (n : ℕ) :
    Adds n {p | (p.1 = 6 ∧ 0 ≤ p.2 ∧ p.2 < n) ∨ p.2 = 6 ∧ 0 ≤ p.1 ∧ p.1 < n}
      (fun fn => repeatFor (fun i fn => mark n 6 i fn >>= mark n i 6) fn n) := by
  refine Adds.congr (Adds.repeatFor n fun i _ => Adds.bind (adds_mark n 6 i) (adds_mark n i 6)) ?_
  ext ⟨x, y⟩
  simp only [Set.mem_ofPred_eq, Set.mem_union, Set.mem_singleton_iff, Prod.mk.injEq]
  constructor
  · rintro ⟨i, hi, hp⟩
    omega
  · rintro (⟨rfl, hy, hlt⟩ | ⟨rfl, hx, hlt⟩)
    · exact ⟨y.toNat, by omega, .inl ⟨rfl, by omega⟩⟩
    · exact ⟨x.toNat, by omega, .inr ⟨by omega, rfl⟩⟩

lemma adds_finders (n : ℕ) :
    Adds n {p | ∃ c ∈ [((3 : ℤ), (3 : ℤ)), ((n : ℤ) - 4, 3), (3, (n : ℤ) - 4)],
        (c.1 - 4 ≤ p.1 ∧ p.1 ≤ c.1 + 4) ∧ c.2 - 4 ≤ p.2 ∧ p.2 ≤ c.2 + 4}
      (forEach (fun c => markSquare n 4 c.1 c.2) [(3, 3), ((n : ℤ) - 4, 3), (3, (n : ℤ) - 4)]) :=
  Adds.forEach _ fun c _ => adds_markSquare n 4 c.1 c.2

/-- Where the code puts an alignment pattern, by the places in the list of centres. -/
lemma adds_alignment (n : ℕ) (centres : List ℕ) :
    Adds n {p | ∃ i < centres.length, ∃ j < centres.length,
        ¬(i = 0 ∧ j = 0 ∨ i = 0 ∧ j + 1 = centres.length ∨ i + 1 = centres.length ∧ j = 0) ∧
        ((centres.getD i 0 : ℤ) - 2 ≤ p.1 ∧ p.1 ≤ (centres.getD i 0 : ℤ) + 2) ∧
          (centres.getD j 0 : ℤ) - 2 ≤ p.2 ∧ p.2 ≤ (centres.getD j 0 : ℤ) + 2}
      (fun fn => repeatFor (fun i fn => repeatFor (fun j fn =>
        if i = 0 ∧ j = 0 ∨ i = 0 ∧ j + 1 = centres.length ∨ i + 1 = centres.length ∧ j = 0 then .ok fn
        else do
          let cx ← index (centres.map fun c : ℕ => (c : ℤ)) i
          let cy ← index (centres.map fun c : ℕ => (c : ℤ)) j
          markSquare n 2 cx cy fn) fn centres.length) fn centres.length) := by
  have hindex : ∀ i < centres.length,
      (index (centres.map fun c : ℕ => (c : ℤ)) i : Checked QrError ℤ) = .ok (centres.getD i 0 : ℤ) := by
    intro i hi
    apply index_eq rfl
    rw [List.getElem?_map, List.getD_eq_getElem?_getD, List.getElem?_eq_getElem hi]
    rfl
  have hpattern : ∀ i < centres.length, ∀ j < centres.length, Adds n
      {p | ((centres.getD i 0 : ℤ) - 2 ≤ p.1 ∧ p.1 ≤ (centres.getD i 0 : ℤ) + 2) ∧
        (centres.getD j 0 : ℤ) - 2 ≤ p.2 ∧ p.2 ≤ (centres.getD j 0 : ℤ) + 2}
      (fun fn => do
        let cx ← index (centres.map fun c : ℕ => (c : ℤ)) i
        let cy ← index (centres.map fun c : ℕ => (c : ℤ)) j
        markSquare n 2 cx cy fn) := by
    intro i hi j hj
    simp only [hindex i hi, hindex j hj, ok_bind]
    exact adds_markSquare n 2 _ _
  refine Adds.congr (Adds.repeatFor _ fun i hi => Adds.repeatFor _ fun j hj =>
    Adds.ite (fun _ => Adds.nothing) fun _ => hpattern i hi j hj) ?_
  ext p
  simp only [Set.mem_ofPred_eq]
  constructor
  · rintro ⟨i, hi, j, hj, hp⟩
    split_ifs at hp with hskip
    · exact absurd hp (Set.notMem_empty p)
    · exact ⟨i, hi, j, hj, hskip, hp⟩
  · rintro ⟨i, hi, j, hj, hskip, hp⟩
    refine ⟨i, hi, j, hj, ?_⟩
    rwa [if_neg hskip]

lemma adds_version (n : ℕ) :
    Adds n {p | ((n : ℤ) - 11 ≤ p.1 ∧ p.1 ≤ n - 9 ∧ 0 ≤ p.2 ∧ p.2 < 6) ∨
        (n : ℤ) - 11 ≤ p.2 ∧ p.2 ≤ n - 9 ∧ 0 ≤ p.1 ∧ p.1 < 6}
      (fun fn => repeatFor (fun i fn => do
        let a := (n : ℤ) - 11 + (i % 3 : ℕ)
        let b := (i / 3 : ℕ)
        let fn ← mark n a b fn
        mark n b a fn) fn 18) := by
  refine Adds.congr (Adds.repeatFor 18 fun i _ => Adds.bind
    (adds_mark n ((n : ℤ) - 11 + (i % 3 : ℕ)) (i / 3 : ℕ))
    (adds_mark n (i / 3 : ℕ) ((n : ℤ) - 11 + (i % 3 : ℕ)))) ?_
  ext ⟨x, y⟩
  simp only [Set.mem_ofPred_eq, Set.mem_union, Set.mem_singleton_iff, Prod.mk.injEq]
  constructor
  · rintro ⟨i, hi, hp⟩
    omega
  · rintro (⟨hx, hx', hy, hy'⟩ | ⟨hy, hy', hx, hx'⟩)
    · exact ⟨(3 * y + (x - n + 11)).toNat, by omega, .inl ⟨by omega, by omega⟩⟩
    · exact ⟨(3 * x + (y - n + 11)).toNat, by omega, .inr ⟨by omega, by omega⟩⟩

/-- The centres by their places in the list. -/
lemma isAlignment_iff (h40 : version ≤ 40) (x y : ℕ) :
    IsAlignment version x y ↔ ∃ i < (alignmentCentres version).length,
      ∃ j < (alignmentCentres version).length,
      ¬(i = 0 ∧ j = 0 ∨ i = 0 ∧ j + 1 = (alignmentCentres version).length ∨
        i + 1 = (alignmentCentres version).length ∧ j = 0) ∧
      (((alignmentCentres version).getD i 0 : ℤ) - 2 ≤ x ∧
        (x : ℤ) ≤ ((alignmentCentres version).getD i 0 : ℤ) + 2) ∧
      ((alignmentCentres version).getD j 0 : ℤ) - 2 ≤ y ∧
        (y : ℤ) ≤ ((alignmentCentres version).getD j 0 : ℤ) + 2 := by
  have hends := alignmentCentres_ends version (by omega)
  have hget : ∀ i (hi : i < (alignmentCentres version).length),
      (alignmentCentres version).getD i 0 = (alignmentCentres version)[i] := by
    intro i hi
    rw [List.getD_eq_getElem?_getD, List.getElem?_eq_getElem hi, Option.getD_some]
  constructor
  · rintro ⟨cx, hcx, cy, hcy, hskip, hx, hy⟩
    obtain ⟨i, hi, rfl⟩ := List.mem_iff_getElem.mp hcx
    obtain ⟨j, hj, rfl⟩ := List.mem_iff_getElem.mp hcy
    rw [← hget i hi, ← hget j hj] at hskip
    rw [← hget i hi] at hx
    rw [← hget j hj] at hy
    refine ⟨i, hi, j, hj, ?_, by omega, by omega⟩
    rwa [(hends i hi).1, (hends i hi).2, (hends j hj).1, (hends j hj).2] at hskip
  · rintro ⟨i, hi, j, hj, hskip, hx, hy⟩
    refine ⟨(alignmentCentres version)[i], List.getElem_mem hi, (alignmentCentres version)[j],
      List.getElem_mem hj, ?_⟩
    rw [← hget i hi, ← hget j hj]
    refine ⟨?_, by omega, by omega⟩
    rwa [(hends i hi).1, (hends i hi).2, (hends j hj).1, (hends j hj).2]

lemma mem_formatBitPositions {n : ℕ} (hn : 21 ≤ n) {x y : ℕ} (hx : x < n) (hy : y < n) :
    ((∃ p ∈ (formatBitPositions n).1, ((x : ℤ), (y : ℤ)) = p) ∨
      ∃ p ∈ (formatBitPositions n).2, ((x : ℤ), (y : ℤ)) = p) ↔
    x = 8 ∧ (y < 9 ∧ y ≠ 6 ∨ n ≤ y + 7) ∨ y = 8 ∧ (x < 9 ∧ x ≠ 6 ∨ n ≤ x + 8) := by
  simp only [formatBitPositions, List.mem_append, List.mem_map, List.mem_range, List.mem_range'_1,
    List.mem_cons, List.not_mem_nil, or_false, exists_eq_right', Prod.mk.injEq]
  constructor
  · rintro (((⟨i, hi, h⟩ | h) | ⟨i, hi, h⟩) | (⟨i, hi, h⟩ | ⟨i, hi, h⟩)) <;> omega
  · rintro (⟨rfl, ⟨hlt, hne⟩ | hle⟩ | ⟨rfl, ⟨hlt, hne⟩ | hle⟩)
    · rcases Nat.lt_or_ge y 6 with h6 | h6
      · exact .inl (.inl (.inl ⟨y, h6, rfl, rfl⟩))
      · exact .inl (.inl (.inr (by omega)))
    · exact .inr (.inr ⟨y + 15 - n, by omega, by omega, by omega⟩)
    · rcases Nat.lt_or_ge x 6 with h6 | h6
      · exact .inl (.inr ⟨14 - x, by omega, by omega, rfl⟩)
      · exact .inl (.inl (.inr (by omega)))
    · exact .inr (.inl ⟨n - 1 - x, by omega, by omega, rfl⟩)

lemma marks_start (n : ℕ) : Marks n ∅ (List.replicate (n * n) false) := by
  refine ⟨List.length_replicate, fun x hx y hy => ?_⟩
  rw [List.getElem?_replicate_of_lt (cell_lt hx hy)]
  simp

/-- The code marks the modules of the standard. -/
lemma gives_functionModules (h1 : 1 ≤ version) (h40 : version ≤ 40) :
    Gives (fun fn => ∀ x < side version, ∀ y < side version,
        fn[y * side version + x]? = some (decide (IsFunction version x y)))
      (functionModules version) := by
  have hsize : sizeForVersion version = (side version : ℕ) := by
    unfold sizeForVersion side
    push_cast
    omega
  have hn : 21 ≤ side version := by
    unfold side
    omega
  obtain ⟨n, hside⟩ : ∃ n, side version = n := ⟨_, rfl⟩
  rw [functionModules, hsize, hside, make_eq (k := n * n) (by push_cast; rfl), ok_bind,
    Int.toNat_natCast, alignmentPatternPositions_eq version (by omega) h1]
  simp only [ok_bind, List.length_map]
  have hadds := Adds.bind (adds_timing n) (Adds.bind (adds_finders n)
    (Adds.bind (adds_alignment n (alignmentCentres version))
    (Adds.bind (Adds.forEach (formatBitPositions n).1 fun p _ => adds_mark n p.1 p.2)
    (Adds.bind (Adds.forEach (formatBitPositions n).2 fun p _ => adds_mark n p.1 p.2)
    (Adds.bind (adds_mark n 8 (n - 8))
    (Adds.ite (p := (version : ℤ) ≥ 7) (fun _ => adds_version n) fun _ => Adds.nothing))))))
  refine Ends.weaken (hadds _ _ (marks_start n)) ?_ fun _ he => he
  rintro fn hfn x hx y hy
  rw [hside] at hn
  have hmem : fn[y * n + x]? = some true ↔ IsFunction version x y := by
    rw [hfn.marked_iff x hx y hy, IsFunction, isAlignment_iff h40]
    have hversion : ((x : ℤ), (y : ℤ)) ∈ (if (version : ℤ) ≥ 7 then
        {p : ℤ × ℤ | ((n : ℤ) - 11 ≤ p.1 ∧ p.1 ≤ n - 9 ∧ 0 ≤ p.2 ∧ p.2 < 6) ∨
          (n : ℤ) - 11 ≤ p.2 ∧ p.2 ≤ n - 9 ∧ 0 ≤ p.1 ∧ p.1 < 6} else ∅) ↔
        IsVersionInfo version x y := by
      unfold IsVersionInfo
      rw [hside]
      split_ifs with h7
      · simp only [Set.mem_ofPred_eq]
        omega
      · simp only [Set.mem_empty_iff_false, false_iff]
        omega
    simp only [Set.empty_union, Set.mem_union, Set.mem_ofPred_eq, Set.mem_singleton_iff, Prod.mk.eta,
      List.exists_mem_cons_iff, List.not_mem_nil, false_and, exists_false, or_false]
    rw [hversion, ← or_assoc (b := ∃ a ∈ (formatBitPositions n).2, _),
      mem_formatBitPositions hn hx hy, Prod.mk.injEq]
    unfold IsTiming IsFinder IsFormat
    rw [hside]
    generalize (∃ i < (alignmentCentres version).length, _) = alignment
    generalize IsVersionInfo version x y = info
    by_cases ha : alignment
    · simp only [ha, true_or, or_true]
    · by_cases hi : info
      · simp only [hi, or_true]
      · simp only [ha, hi, or_false, false_or]
        omega
  have hlt := cell_lt hx hy
  rw [← hfn.length_eq] at hlt
  rw [List.getElem?_eq_getElem hlt, Option.some.injEq] at hmem ⊢
  rw [Bool.eq_iff_iff, hmem, decide_eq_true_eq]

end Marked

end Dhow.Qr
