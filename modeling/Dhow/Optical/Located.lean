import Dhow.Lib.ExactFloat
import Dhow.Optical.AnyImage
import Dhow.Optical.Detect

/-!
# Detection of any image

`Read` takes images from a camera that may be pointed at anything. Whatever is in the picture, and
whatever the floating-point numbers on the way come to, no index is out of range, every loop ends,
and the grids that reach the decoder are few and of a size that a symbol can have.
-/

namespace Dhow.Optical
open Checked ExactFloat GoFloat GoImage

variable {ε F : Type} [GoFloat F] {b : Bitmap}

/-- There is a result. -/
abbrev Total {α : Type} (c : Checked ε α) : Prop := Gives (fun _ => True) c

lemma total_ok {α : Type} (a : α) : Total (.ok a : Checked ε α) := .ok trivial

/-! ### Runs -/

lemma total_runsAlong {n : ℤ} {dark : ℤ → Checked ε Bool} (hdark : ∀ i, Total (dark i)) :
    Total (runsAlong n dark) := by
  unfold runsAlong
  refine Ends.ite (fun _ => total_ok _) fun _ => ?_
  refine Gives.bind (hdark 0) fun d _ => ?_
  refine Gives.bind (ends_repeatFor (fun _ _ => True) _ trivial fun i _ s _ => ?_)
    fun s _ => total_ok _
  refine Gives.bind (hdark _) fun d _ => ?_
  exact Ends.ite (fun _ => total_ok _) fun _ => total_ok _

lemma total_rowRuns (hb : b.Full) (y : ℤ) : Total (rowRuns b y : Checked ε (List Run)) :=
  total_runsAlong fun x => hb.gives_darkAt x y

lemma total_columnRuns (hb : b.Full) (x : ℤ) : Total (columnRuns b x : Checked ε (List Run)) :=
  total_runsAlong fun y => hb.gives_darkAt x y

lemma total_index {α : Type} {xs : List α} {i : ℤ} (h₀ : 0 ≤ i) (hi : i < xs.length) :
    Total (index xs i : Checked ε α) := by
  obtain ⟨a, -, ha⟩ := Checked.exists_index h₀ hi le_rfl
  rw [ha ε]
  exact total_ok a

lemma total_countsAt {runs : List Run} {k : ℤ} (h₀ : 0 ≤ k) (hk : k + 4 < runs.length) :
    Total (countsAt runs k : Checked ε Counts) := by
  unfold countsAt
  refine Gives.bind (total_index h₀ (by omega)) fun _ _ => ?_
  refine Gives.bind (total_index (by omega) (by omega)) fun _ _ => ?_
  refine Gives.bind (total_index (by omega) (by omega)) fun _ _ => ?_
  refine Gives.bind (total_index (by omega) (by omega)) fun _ _ => ?_
  refine Gives.bind (total_index (by omega) (by omega)) fun _ _ => ?_
  exact total_ok _

/-! ### Finder patterns -/

lemma total_crossCheck (runs : List Run) (centre : F) (maxCentre originalTotal : ℤ) :
    Total (crossCheck runs centre maxCentre originalTotal : Checked ε (Option (F × Counts))) := by
  unfold crossCheck
  split
  · exact total_ok _
  · rename_i i hi
    have hlt : i < runs.length := (List.findIdx?_eq_some_iff_getElem.mp hi).choose
    refine Gives.bind (total_index (by omega) (by omega)) fun r _ => ?_
    refine Ends.ite (fun _ => total_ok _) fun hin => ?_
    refine Gives.bind (total_countsAt (by omega) (by omega)) fun counts _ => ?_
    refine Ends.ite (fun _ => total_ok _) fun _ => ?_
    refine Ends.ite (fun _ => total_ok _) fun _ => ?_
    exact Ends.ite (fun _ => total_ok _) fun _ => total_ok _

lemma total_confirmFinder (hb : b.Full) (cx cy : F) (horizontal : Counts) :
    Total (confirmFinder b cx cy horizontal : Checked ε (Option (Pattern F))) := by
  unfold confirmFinder
  refine Gives.bind (total_columnRuns hb _) fun column _ => ?_
  refine Gives.bind (total_crossCheck column cy _ _) fun r _ => ?_
  rcases r with _ | ⟨centreY, vertical⟩
  · exact total_ok _
  · refine Gives.bind (total_rowRuns hb _) fun row _ => ?_
    refine Gives.bind (total_crossCheck row cx _ _) fun r _ => ?_
    rcases r with _ | ⟨centreX, -⟩
    · exact total_ok _
    · exact total_ok _

lemma total_scanRow (hb : b.Full) (y : ℤ) (found : List (Pattern F)) :
    Total (scanRow b y found : Checked ε (List (Pattern F))) := by
  unfold scanRow
  refine Gives.bind (total_rowRuns hb y) fun runs _ => ?_
  refine ends_repeatFor (fun _ _ => True) _ trivial fun k hk found _ => ?_
  unfold scanWindow
  refine Gives.bind (total_index (by omega) (by omega)) fun first _ => ?_
  refine Ends.ite (fun _ => total_ok _) fun _ => ?_
  refine Gives.bind (total_countsAt (by omega) (by omega)) fun counts _ => ?_
  refine Ends.ite (fun _ => total_ok _) fun _ => ?_
  refine Gives.bind (total_index (by omega) (by omega)) fun middle _ => ?_
  refine Gives.bind (total_confirmFinder hb _ _ _) fun r _ => ?_
  rcases r with _ | p
  · exact total_ok _
  · exact total_ok _

lemma three_le_stride (b : Bitmap) : 3 ≤ stride b := le_max_right _ _

/-- The rows that are scanned come to an end. -/
lemma total_findFinderPatterns (hb : b.Full) :
    Total (findFinderPatterns b : Checked ε (List (Pattern F))) := by
  have hstride := three_le_stride b
  unfold findFinderPatterns
  refine Gives.bind (ends_whileLoop (fun s : ℤ × List (Pattern F) => 0 ≤ s.1)
    (fun s => (b.h - s.1).toNat) (Q := fun _ => True) ?_ (by dsimp only; omega)
    (by dsimp only; omega)) fun _ _ => total_ok _
  rintro ⟨y, found⟩ hy
  refine .ok ?_
  by_cases hlt : y < b.h
  · rw [if_pos (decide_eq_true hlt)]
    refine Gives.bind (total_scanRow hb y found) fun found' _ => .ok ?_
    dsimp only at hy ⊢
    omega
  · rw [if_neg (by simpa using hlt)]
    trivial

/-! ### The width of a module -/

namespace Line

lemma xStep_cases (l : Line) :
    l.xStep = 1 ∧ l.fromX < l.limit ∨ l.xStep = -1 ∧ l.limit < l.fromX := by
  unfold limit xStep
  split_ifs <;> omega

/-- A walk has not passed its limit. -/
def Short (l : Line) (s : Walk F) : Prop :=
  (l.xStep = 1 → s.x ≤ l.limit) ∧ (l.xStep = -1 → l.limit ≤ s.x)

/-- The steps that are left of a walk. -/
def left (l : Line) (s : Walk F) : ℕ :=
  if s.stopped ∨ s.travelled.isSome then 0 else (l.limit - s.x).natAbs

omit [GoFloat F] in
lemma short_advance {l : Line} {s : Walk F} (hs : l.Short s) (hx : s.x ≠ l.limit) :
    l.Short (l.advance s) ∧ l.left (l.advance s) < (l.limit - s.x).natAbs := by
  have hstep := l.xStep_cases
  obtain ⟨hup, hdown⟩ := hs
  have hmoved : l.Short { s with x := s.x + l.xStep } ∧
      (l.limit - (s.x + l.xStep)).natAbs < (l.limit - s.x).natAbs := by
    unfold Short
    dsimp only
    omega
  unfold advance
  dsimp only
  split_ifs with herr hy
  · refine ⟨⟨hup, hdown⟩, ?_⟩
    rw [left, if_pos (.inl rfl)]
    omega
  · refine ⟨hmoved.1, ?_⟩
    unfold left
    split_ifs
    · omega
    · exact hmoved.2
  · refine ⟨hmoved.1, ?_⟩
    unfold left
    split_ifs
    · omega
    · exact hmoved.2

lemma total_pass (hb : b.Full) {l : Line} {s : Walk F} (hs : l.Short s) (hx : s.x ≠ l.limit) :
    Gives (fun s' => l.Short s' ∧ l.left s' < (l.limit - s.x).natAbs)
      (l.pass b s : Checked ε (Walk F)) := by
  have hdark : Total (l.darkAt b s.x s.y : Checked ε Bool) := by
    unfold darkAt
    exact Ends.ite (fun _ => hb.gives_darkAt _ _) fun _ => hb.gives_darkAt _ _
  unfold pass
  refine Gives.bind hdark fun d _ => ?_
  refine Ends.ite (fun _ => Ends.ite (fun _ => .ok ⟨hs, ?_⟩) fun _ => .ok ?_) fun _ => .ok ?_
  · rw [left, if_pos (.inr rfl)]
    omega
  · exact short_advance (s := { s with state := s.state + 1 }) hs hx
  · exact short_advance hs hx

/-- A walk comes to an end. -/
lemma total_walk (hb : b.Full) (l : Line) : Total (l.walk b : Checked ε (Walk F)) := by
  have hstep := l.xStep_cases
  unfold walk
  refine ends_whileLoop l.Short l.left (Q := fun _ => True) (fun s hs => .ok ?_) ?_ ?_
  · by_cases hgo : s.x ≠ l.limit ∧ ¬s.stopped ∧ s.travelled.isNone
    · rw [if_pos (decide_eq_true hgo)]
      obtain ⟨hx, hstopped, htravelled⟩ := hgo
      have hrunning : ¬(s.stopped ∨ s.travelled.isSome) := by
        rw [Option.isNone_iff_eq_none] at htravelled
        rw [htravelled]
        simpa using hstopped
      rw [left, if_neg hrunning]
      exact total_pass hb hs hx
    · rw [if_neg (by simpa using hgo)]
      trivial
  · unfold Short
    dsimp only
    omega
  · rw [left, if_neg (by simp)]
    exact Nat.lt_succ_self _

end Line

lemma total_blackWhiteBlackRun (hb : b.Full) (fromX fromY toX toY : F) :
    Total (blackWhiteBlackRun b fromX fromY toX toY : Checked ε F) := by
  unfold blackWhiteBlackRun
  refine Gives.bind (Line.total_walk hb _) fun s _ => ?_
  cases s.travelled with
  | some d => exact total_ok d
  | none => exact Ends.ite (fun _ => total_ok _) fun _ => total_ok _

lemma total_moduleSizeBetween (hb : b.Full) (a c : Pattern F) :
    Total (moduleSizeBetween b a c : Checked ε F) := by
  have hways : ∀ fromX fromY toX toY : F,
      Total (blackWhiteBlackBothWays b fromX fromY toX toY : Checked ε F) := by
    intro fromX fromY toX toY
    unfold blackWhiteBlackBothWays
    refine Gives.bind (total_blackWhiteBlackRun hb _ _ _ _) fun forward _ => ?_
    refine Gives.bind (total_blackWhiteBlackRun hb _ _ _ _) fun backward _ => ?_
    exact Ends.ite (fun _ => total_ok _) fun _ => total_ok _
  unfold moduleSizeBetween
  refine Gives.bind (hways _ _ _ _) fun one _ => ?_
  refine Gives.bind (hways _ _ _ _) fun other _ => ?_
  refine Ends.ite (fun _ => total_ok _) fun _ => ?_
  refine Ends.ite (fun _ => total_ok _) fun _ => ?_
  exact Ends.ite (fun _ => total_ok _) fun _ => total_ok _

/-! ### The alignment pattern -/

lemma total_alignmentAt (hb : b.Full) (w : Search F) (y : ℤ) (r₀ r₁ r₂ : Run) :
    Total (alignmentAt b w y r₀ r₁ r₂ : Checked ε (Option (Pattern F))) := by
  unfold alignmentAt
  refine Ends.ite (fun _ => total_ok _) fun _ => ?_
  refine Ends.ite (fun _ => total_ok _) fun _ => ?_
  refine Ends.ite (fun _ => total_ok _) fun _ => ?_
  refine Gives.bind (P := fun _ => True) ?_ fun r _ => ?_
  · unfold verifyAlignmentColumn
    exact Gives.bind (total_columnRuns hb _) fun _ _ => total_ok _
  cases r with
  | none => exact total_ok _
  | some py =>
    refine Gives.bind (P := fun _ => True) ?_ fun like _ => ?_
    · unfold looksLikeAlignment
      refine Gives.bind (ends_forEach (fun _ _ => True) _ trivial fun _ _ _ _ _ _ => ?_)
        fun _ _ => total_ok _
      exact Gives.bind (hb.gives_darkAt _ _) fun _ _ => total_ok _
    · exact Ends.ite (fun _ => total_ok _) fun _ => total_ok _

lemma total_searchRow (hb : b.Full) (w : Search F) (y : ℤ) (best : Nearest F) :
    Total (searchRow b w y best : Checked ε (Nearest F)) := by
  unfold searchRow
  refine Gives.bind (total_rowRuns hb y) fun runs _ => ?_
  refine ends_repeatFor (fun _ _ => True) _ trivial fun k hk best _ => ?_
  unfold searchWindow
  refine Gives.bind (total_index (by omega) (by omega)) fun r₀ _ => ?_
  refine Gives.bind (total_index (by omega) (by omega)) fun r₁ _ => ?_
  refine Gives.bind (total_index (by omega) (by omega)) fun r₂ _ => ?_
  refine Gives.bind (total_alignmentAt hb w y r₀ r₁ r₂) fun r _ => ?_
  cases r with
  | none => exact total_ok _
  | some p => exact total_ok _

lemma total_findAlignment (hb : b.Full) (cx cy moduleSize allowance : F) :
    Total (findAlignment b cx cy moduleSize allowance : Checked ε (Option (Pattern F))) := by
  unfold findAlignment
  refine Ends.ite (fun _ => total_ok _) fun _ => ?_
  refine Gives.bind (ends_repeatFor (fun _ _ => True) _ trivial fun i _ best _ => ?_)
    fun _ _ => total_ok _
  exact total_searchRow hb _ _ best

lemma total_findAlignmentIn (hb : b.Full) (estX estY moduleSize : F) (allowances : List F) :
    Total (findAlignmentIn b estX estY moduleSize allowances :
      Checked ε (Option (Pattern F))) := by
  induction allowances with
  | nil => exact total_ok _
  | cons allowance rest ih =>
    rw [findAlignmentIn]
    refine Gives.bind (total_findAlignment hb _ _ _ _) fun r _ => ?_
    cases r with
    | none => exact ih
    | some p => exact total_ok _

/-! ### Grids -/

/-- A grid of a size, module by module. -/
def Sized (d : ℤ) (g : Qr.Grid) : Prop := g.size = d ∧ g.dark.length = (d * d).toNat

lemma gives_gridSet {d : ℤ} {g : Qr.Grid} (hg : Sized d g) (x y : ℤ) (dark : Bool) :
    Gives (Sized d) (gridSet g x y dark : Checked ε Qr.Grid) := by
  obtain ⟨hsize, hlen⟩ := hg
  unfold gridSet
  refine Ends.ite (fun _ => .ok ⟨hsize, hlen⟩) fun hin => ?_
  have hcell₀ := cell_nonneg (w := g.size) (show 0 ≤ x by omega) (by omega) (show 0 ≤ y by omega)
  have hcell := cell_lt (show x < g.size by omega) (show y < g.size by omega) (by omega)
  have hcell' : y * g.size + x < d * d := by rwa [hsize] at hcell ⊢
  refine Gives.bind (gives_store hcell₀ (by omega)) fun modules h => ?_
  exact .ok ⟨hsize, h.1.trans hlen⟩

lemma total_sampleModule (hb : b.Full) (x y : ℤ) (vote : Bool) :
    Total (sampleModule b x y vote : Checked ε Bool) := by
  unfold sampleModule
  refine Ends.ite (fun _ => hb.gives_darkAt x y) fun _ => ?_
  refine Gives.bind (Rectangle.ends_scan (fun _ _ => True) trivial (by decide) (by decide)
    fun dx dy _ dark _ => ?_) fun _ _ => total_ok _
  exact Gives.bind (hb.gives_darkAt _ _) fun _ _ => total_ok _

lemma gives_sampleInto (hb : b.Full) (t : Transform F) (vote : Bool) {d : ℤ} {g : Qr.Grid}
    (hg : Sized d g) (x y : ℤ) :
    Gives (Sized d) (sampleInto b t vote x y g : Checked ε Qr.Grid) := by
  unfold sampleInto
  refine Ends.ite (fun _ => .ok hg) fun _ => Ends.ite (fun _ => .ok hg) fun _ => ?_
  exact Gives.bind (total_sampleModule hb _ _ vote) fun dark _ => gives_gridSet hg x y dark

lemma total_fourthCorner (hb : b.Full) (c : Corners F) (moduleSize : F) (d : ℤ)
    (useAlignment : Bool) :
    Total (fourthCorner b c moduleSize d useAlignment : Checked ε (Corner F)) := by
  unfold fourthCorner
  refine Ends.ite (fun _ => ?_) fun _ => total_ok _
  refine Gives.bind (total_findAlignmentIn hb _ _ _ _) fun r _ => ?_
  cases r with
  | none => exact total_ok _
  | some p => exact total_ok _

lemma gives_sampleAt (hb : b.Full) (c : Corners F) (moduleSize : F) {d : ℤ} (hd : 0 ≤ d)
    (useAlignment : Bool) :
    Gives (fun r => ∀ g ∈ r, Sized d g)
      (sampleAt b c moduleSize d useAlignment : Checked ε (Option Qr.Grid)) := by
  unfold sampleAt
  refine Gives.bind (total_fourthCorner hb c moduleSize d useAlignment) fun fourth _ => ?_
  cases moduleTransform c d fourth with
  | none => exact .ok (by simp)
  | some t =>
    have hlen := (Int.toNat_of_nonneg (Int.mul_nonneg hd hd)).symm
    dsimp only
    rw [newGrid, make_eq hlen, ok_bind, ok_bind]
    refine Gives.bind (Rectangle.ends_scan (fun _ g => Sized d g) ⟨rfl, List.length_replicate⟩
      (Int.sub_nonneg.mpr hd) (Int.sub_nonneg.mpr hd) fun x y _ g hg =>
        gives_sampleInto hb t _ hg x y) fun g hg => .ok ?_
    rintro _ ⟨⟩
    exact hg

/-- The grids that are tried. -/
structure Tried (dimension : ℤ) (grids : List Qr.Grid) : Prop where
  length_le : grids.length ≤ 6
  sized : ∀ g ∈ grids, ∃ d, Sized d g ∧ 21 ≤ d ∧ d ≤ 177 ∧
    (d = dimension ∨ d = dimension - 4 ∨ d = dimension + 4)

lemma mem_attempts {dimension d : ℤ} {useAlignment : Bool}
    (h : (d, useAlignment) ∈ attempts dimension) :
    21 ≤ d ∧ d ≤ 177 ∧ (d = dimension ∨ d = dimension - 4 ∨ d = dimension + 4) := by
  obtain ⟨d', hd', hmem⟩ := List.mem_flatMap.mp h
  obtain ⟨hsize, hin⟩ := List.mem_filter.mp hd'
  have heq : d = d' := by
    rcases List.mem_cons.mp hmem with h | h
    · exact congrArg Prod.fst h
    · exact congrArg Prod.fst (List.mem_singleton.mp h)
  subst heq
  simp only [decide_eq_true_eq] at hin
  simp only [List.mem_cons, List.not_mem_nil, or_false] at hsize
  exact ⟨by omega, by omega, hsize⟩

lemma length_attempts_le (dimension : ℤ) : (attempts dimension).length ≤ 6 := by
  have hfilter := List.length_filter_le (fun d : ℤ => decide ¬(d < 21 ∨ d > 177))
    [dimension, dimension - 4, dimension + 4]
  rw [attempts, List.length_flatMap]
  simp only [List.length_cons, List.length_nil] at hfilter ⊢
  rw [List.map_const', List.sum_replicate, smul_eq_mul]
  omega

lemma gives_sampleGrids (hb : b.Full) (c : Corners F) (moduleSize : F) (dimension : ℤ) :
    Gives (Tried dimension) (sampleGrids b c moduleSize dimension : Checked ε (List Qr.Grid)) := by
  refine (ends_forEach (fun done (grids : List Qr.Grid) => grids.length ≤ done.length ∧
    ∀ g ∈ grids, ∃ d, Sized d g ∧ 21 ≤ d ∧ d ≤ 177 ∧
      (d = dimension ∨ d = dimension - 4 ∨ d = dimension + 4)) (attempts dimension)
    ⟨le_rfl, by simp⟩ ?_).weaken
    (fun grids h => ⟨h.1.trans (length_attempts_le dimension), h.2⟩) fun _ h => h
  rintro done ⟨d, useAlignment⟩ rest hsplit grids ⟨hlen, hgrids⟩
  have hmem : (d, useAlignment) ∈ attempts dimension := by
    rw [hsplit]
    simp
  obtain ⟨hlo, hhi, hd⟩ := mem_attempts hmem
  refine Gives.bind (gives_sampleAt hb c moduleSize (by omega) useAlignment) fun r hr => ?_
  cases r with
  | none => exact .ok ⟨by simp; omega, hgrids⟩
  | some g =>
    refine .ok ⟨by simp; omega, fun g' hg' => ?_⟩
    rcases List.mem_append.mp hg' with hg' | hg'
    · exact hgrids g' hg'
    · obtain rfl := List.mem_singleton.mp hg'
      exact ⟨d, hr g' rfl, hlo, hhi, hd⟩

lemma total_measuredModuleSize (hb : b.Full) (c : Corners F) :
    Total (measuredModuleSize b c : Checked ε F) := by
  unfold measuredModuleSize
  refine Gives.bind (total_moduleSizeBetween hb _ _) fun across _ => ?_
  refine Gives.bind (total_moduleSizeBetween hb _ _) fun down _ => ?_
  exact Ends.ite (fun _ => total_ok _) fun _ => total_ok _

/-- How many modules across the symbol of a bitmap is, as far as it was measured. -/
def Measured (F : Type) [GoFloat F] (b : Bitmap) (d : ℤ) : Prop :=
  ∃ (candidates : List (Pattern F)) (trio : Trio F) (moduleSize : F),
    findFinderPatterns b = (.ok candidates : Checked DetectError (List (Pattern F))) ∧
    selectThree candidates = some trio ∧
    measuredModuleSize b (orderPatterns trio) = (.ok moduleSize : Checked DetectError F) ∧
    d = roundedDimension (orderPatterns trio) moduleSize ∧
    21 ≤ validSize d ∧ validSize d ≤ 177

/-- The grids of a bitmap have the measured size, or one that is a version away. -/
lemma ends_sample (hb : b.Full) :
    Ends (fun grids => grids ≠ [] ∧ ∃ d, Measured F b d ∧ Tried (validSize d) grids)
      (fun _ => True) (sample F (some b)) := by
  unfold sample
  refine Ends.ite (fun _ => .fail trivial) fun _ => ?_
  obtain ⟨candidates, hcandidates, -⟩ := gives_iff.mp
    (total_findFinderPatterns (ε := DetectError) (F := F) hb)
  rw [hcandidates, ok_bind]
  cases htrio : selectThree candidates with
  | none => exact .fail trivial
  | some trio =>
    obtain ⟨moduleSize, hmodule, -⟩ := gives_iff.mp
      (total_measuredModuleSize (ε := DetectError) hb (orderPatterns trio))
    dsimp only
    rw [sampleCorners, hmodule, ok_bind]
    refine Ends.ite (fun _ => .fail trivial) fun _ => ?_
    unfold estimateDimension
    dsimp only
    split_ifs with hsize
    · exact .fail trivial
    · refine Gives.bind (gives_sampleGrids hb _ _ _) fun grids hgrids => ?_
      refine Ends.ite (fun _ => .fail trivial) fun hne => .ok ⟨?_, ?_⟩
      · rintro rfl
        exact hne rfl
      · refine ⟨_, ⟨candidates, trio, moduleSize, hcandidates, htrio, hmodule, rfl, ?_⟩, hgrids⟩
        omega

/-! ### Reading -/

/-- Decoding ends, whatever the grid. -/
lemma ends_decode (g : Qr.Grid) :
    Ends (fun r => Qr.versionForSize g.size = some r.version) (fun _ => True)
      (Qr.decode (some g)) := by
  rw [Qr.decode]
  dsimp only
  refine Ends.ite (fun _ => .fail trivial) fun hlen => ?_
  rw [not_not] at hlen
  cases hversion : Qr.versionForSize g.size with
  | none => exact .fail trivial
  | some v =>
    obtain ⟨h1, h40, hsize⟩ := Qr.versionForSize_eq_some hversion
    obtain ⟨version, rfl⟩ := Int.eq_ofNat_of_zero_le (show 0 ≤ v by omega)
    have h1 : 1 ≤ version := by omega
    have h40 : version ≤ 40 := by omega
    have hside : g.size = Qr.side version := by
      rw [hsize]
      unfold Qr.sizeForVersion Qr.side
      omega
    have hn : 21 ≤ Qr.side version := by
      unfold Qr.side
      omega
    have hsquare := Qr.square_of_length h40 hside hlen
    refine Ends.bind ((hsquare.ends_readFormatInfo hn).weaken (fun _ h => h) fun _ _ => trivial) ?_
    rintro ⟨level, mask⟩ -
    have hwell := Qr.shape_wellFormed h1 h40 level
    have hfits := Qr.totalCodewords_le h1 h40 level
    dsimp only
    rw [Qr.blockLayout_eq h1 h40 level, ok_bind]
    obtain ⟨total, htotal⟩ : ∃ n : ℕ, (Qr.shape version level).layout.totalCodewords = n :=
      ⟨_, (Qr.Shape.length_order hwell).symm⟩
    rw [htotal] at hfits
    dsimp only
    rw [htotal]
    refine Gives.bind (hsquare.gives_readCodewords h1 h40 mask (by omega)) ?_
    rintro codewords ⟨hcount, -⟩
    refine Ends.bind ((Qr.ends_deinterleaveAndCorrect hwell (by rw [htotal, hcount])).weaken
      (fun _ h => h) fun _ _ => trivial) fun data _ => ?_
    exact Ends.bind ((Qr.ends_parseSegments _ _).weaken (fun _ h => h) fun _ _ => trivial)
      fun payload _ => .ok rfl

/-- The result is that of one of the grids. -/
lemma ends_firstReadable (lastErr : Option Qr.QrError) (grids : List Qr.Grid) :
    Ends (fun r => ∃ g ∈ grids, Qr.decode (some g) = .ok r) (fun _ => True)
      (firstReadable lastErr grids) := by
  induction grids generalizing lastErr with
  | nil => exact .fail trivial
  | cons g grids ih =>
    rw [firstReadable]
    have hdecode := ends_decode g
    generalize hr : Qr.decode (some g) = c at hdecode
    cases hdecode with
    | ok h => exact .ok ⟨g, List.mem_cons_self .., hr⟩
    | fail h =>
      refine (ih _).weaken ?_ fun _ h => h
      rintro r ⟨g', hg', hr'⟩
      exact ⟨g', List.mem_cons_of_mem g hg', hr'⟩

/-- A size that a symbol has, at most a version from the measured one moved to the next size. -/
lemma measured_of_validSize {d d' version : ℤ} (hversion : Qr.versionForSize d' = some version)
    (hd' : d' = validSize d ∨ d' = validSize d - 4 ∨ d' = validSize d + 4)
    (hlo : 21 ≤ validSize d) :
    d % 4 ≠ 3 ∧ |Qr.sizeForVersion version - d| ≤ 5 := by
  obtain ⟨h1, h40, hsize⟩ := Qr.versionForSize_eq_some hversion
  unfold Qr.sizeForVersion at hsize ⊢
  have hvalid : validSize d % 4 = 1 := by omega
  have hd : 0 ≤ d := by
    unfold validSize at hlo
    split_ifs at hlo <;> omega
  have hnear : d % 4 ≠ 3 ∧ |validSize d - d| ≤ 1 := by
    unfold validSize at hvalid ⊢
    rw [Int.tmod_eq_emod_of_nonneg hd] at hvalid ⊢
    rw [abs_le]
    split_ifs at hvalid ⊢ <;> omega
  refine ⟨hnear.1, ?_⟩
  have hle := abs_le.mp hnear.2
  rw [abs_le]
  omega

lemma ends_readBitmap (hb : b.Full) :
    Ends (fun r => ∃ d, Measured F b d ∧ d % 4 ≠ 3 ∧ |Qr.sizeForVersion r.version - d| ≤ 5)
      (fun _ => True) (readBitmap F (some b)) := by
  unfold readBitmap
  refine Ends.bind (ends_sample (F := F) hb) ?_
  rintro grids ⟨-, d, hmeasured, -, hsized⟩
  refine (ends_firstReadable none grids).weaken ?_ fun _ h => h
  rintro r ⟨g, hg, hr⟩
  obtain ⟨d', ⟨hsize, -⟩, -, -, hd'⟩ := hsized g hg
  have hversion := ends_decode g
  rw [hr] at hversion
  have hversion := hversion.of_ok
  rw [hsize] at hversion
  obtain ⟨-, -, -, -, -, -, -, hlo, -⟩ := id hmeasured
  exact ⟨d, hmeasured, measured_of_validSize hversion hd' hlo⟩

/-- No image whose pixels fit a slice makes detection panic or go on without end, in any arithmetic:
binarization gives every pixel its bit, the decoder sees at most six grids of sizes from 21 to 177,
and what comes out is decoded from one of them. -/
theorem read_total (F : Type) [GoFloat F] (img : Image) (h : Complete img)
    (hroom : img.bounds.dx * img.bounds.dy ≤ maxAlloc) :
    ∃ b, binarize img = (.ok b : Checked DetectError Bitmap) ∧
      b.w = img.bounds.dx ∧ b.h = img.bounds.dy ∧
      (∀ p, sample F (some b) ≠ .error (.panic p)) ∧ (∀ p, read F img ≠ .error (.panic p)) ∧
      (∀ grids, sample F (some b) = .ok grids → grids ≠ [] ∧ grids.length ≤ 6 ∧
        ∀ g ∈ grids, 21 ≤ g.size ∧ g.size ≤ 177 ∧ g.dark.length = (g.size * g.size).toNat) ∧
      ∀ r, read F img = .ok r → ∃ grids, sample F (some b) = .ok grids ∧
        ∃ g ∈ grids, Qr.decode (some g) = .ok r := by
  obtain ⟨b, hb, -, -, -, hw, hh, hfull, -⟩ :=
    gives_iff.mp (h.gives_binarize (ε := DetectError) hroom)
  have hsample := ends_sample (F := F) hfull
  have hread : read F img = readBitmap F (some b) := by rw [read, hb, ok_bind]
  refine ⟨b, hb, hw, hh, hsample.ne_panic, ?_, fun grids hgrids => ?_, fun r hr => ?_⟩
  · rw [hread]
    exact (ends_readBitmap hfull).ne_panic
  · rw [hgrids] at hsample
    obtain ⟨hne, d, -, hlen, hsized⟩ := hsample.of_ok
    refine ⟨hne, hlen, fun g hg => ?_⟩
    obtain ⟨d', ⟨hsize, hdark⟩, hlo, hhi, -⟩ := hsized g hg
    rw [hsize]
    exact ⟨hlo, hhi, hdark⟩
  · rw [hread, readBitmap] at hr
    generalize hgrids : sample F (some b) = c at hr hsample
    cases hsample with
    | ok hsample =>
      rename_i grids
      rw [ok_bind] at hr
      have hfirst := ends_firstReadable none grids
      rw [hr] at hfirst
      exact ⟨grids, rfl, hfirst.of_ok⟩
    | fail _ => cases hr

theorem read_total_whitePixel :
    ∃ b, binarize (.gray whitePixel) = (.ok b : Checked DetectError Bitmap) ∧
      b.w = 1 ∧ b.h = 1 ∧
      (∀ p, @sample ℚ rational (some b) ≠ .error (.panic p)) ∧
      ∀ p, @read ℚ rational (.gray whitePixel) ≠
        .error (.panic p) := by
  obtain ⟨b, hb, hw, hh, hsample, hread, -⟩ :=
    @read_total ℚ rational (.gray whitePixel) complete_whitePixel (by decide)
  exact ⟨b, hb, hw, hh, hsample, hread⟩

lemma ends_read {img : Image} (h : Complete img)
    (hroom : img.bounds.dx * img.bounds.dy ≤ maxAlloc) :
    ∃ b, binarize img = (.ok b : Checked DetectError Bitmap) ∧
      Ends (fun r => ∃ d, Measured F b d ∧ d % 4 ≠ 3 ∧ |Qr.sizeForVersion r.version - d| ≤ 5)
        (fun _ => True) (read F img) := by
  obtain ⟨b, hb, -, -, -, -, -, hfull, -⟩ :=
    gives_iff.mp (h.gives_binarize (ε := DetectError) hroom)
  refine ⟨b, hb, ?_⟩
  rw [read, hb, ok_bind]
  exact ends_readBitmap hfull

/-- A symbol that is read has the size that was measured, give or take five modules. A measured
size that is three more than a multiple of four is never read: it is moved to a multiple of four,
and so are the sizes a version away. -/
theorem read_measured (F : Type) [GoFloat F] (img : Image) (h : Complete img) :
    (img.bounds.dx * img.bounds.dy ≤ maxAlloc →
      ∃ b, binarize img = (.ok b : Checked DetectError Bitmap) ∧
        Ends (fun r => ∃ d, Measured F b d ∧ d % 4 ≠ 3 ∧ |Qr.sizeForVersion r.version - d| ≤ 5)
          (fun _ => True) (read F img)) ∧
    ∀ r, read F img = .ok r →
      ∃ b, binarize img = (.ok b : Checked DetectError Bitmap) ∧
        ∃ d, Measured F b d ∧ d % 4 ≠ 3 ∧ |Qr.sizeForVersion r.version - d| ≤ 5 := by
  refine ⟨ends_read h, fun r hr => ?_⟩
  have hbinarize : ∃ b, binarize img = (.ok b : Checked DetectError Bitmap) := by
    cases hb : (binarize img : Checked DetectError Bitmap) with
    | ok b => exact ⟨b, rfl⟩
    | error e =>
      rw [read, hb] at hr
      cases hr
  obtain ⟨b, hb, hread⟩ := ends_read (F := F) h (h.exists_binarize_iff.mp hbinarize)
  rw [hr] at hread
  exact ⟨b, hb, hread.of_ok⟩

theorem read_measured_whitePixel :
    ∃ b, binarize (.gray whitePixel) = (.ok b : Checked DetectError Bitmap) ∧
      Ends (fun r => ∃ d, @Measured ℚ rational b d ∧ d % 4 ≠ 3 ∧
          |Qr.sizeForVersion r.version - d| ≤ 5)
        (fun _ => True) (@read ℚ rational (.gray whitePixel)) :=
  (@read_measured ℚ rational (.gray whitePixel) complete_whitePixel).1 (by decide)

end Dhow.Optical
