import Dhow.Lib.ReedSolomon
import Dhow.Qr.Tables

/-!
# Format information

The two copies of the error-correction level and the mask in the corners of a grid. A copy is read
as the nearest of the 32 words of a code in which any two words differ in seven bits.
-/

namespace Dhow.Qr
open Checked ReedSolomon

/-- The modules row by row, true for dark. -/
structure Grid where
  size : ℤ
  dark : List Bool

namespace Grid

/-- Modules outside the grid read as light. -/
def darkAt (g : Grid) (x y : ℤ) : Checked QrError Bool :=
  if x < 0 ∨ y < 0 ∨ x ≥ g.size ∨ y ≥ g.size then .ok false else index g.dark (y * g.size + x)

end Grid

def formatMask : ℕ := 0x5412

/-- Where the two copies are, by the number of the bit. -/
def formatBitPositions (size : ℤ) : List (ℤ × ℤ) × List (ℤ × ℤ) :=
  ((List.range 6).map (fun i : ℕ => (8, (i : ℤ))) ++ [(8, 7), (8, 8), (7, 8)] ++
      (List.range' 9 6).map (fun i : ℕ => (14 - (i : ℤ), 8)),
    (List.range 8).map (fun i : ℕ => (size - 1 - (i : ℤ), 8)) ++
      (List.range' 8 7).map (fun i : ℕ => (8, size - 15 + (i : ℤ))))

/-- The word of fifteen bits for a format of five. -/
def formatCodeword (data : ℕ) : ℕ :=
  let rem := (fun rem => rem <<< 1 ^^^ (rem >>> 9) * 0x537)^[10] data
  data <<< 10 ||| rem

/-- The pairs are the distance so far and what is left to compare. -/
def hammingDistance (a b : ℕ) : Checked QrError ℕ := do
  let (d, _) ← whileLoop (fun s : ℕ × ℕ => .ok (s.2 != 0))
    (fun s => .ok (s.1 + (s.2 &&& 1), s.2 >>> 1)) ((a ^^^ b) + 1) (0, a ^^^ b)
  return d

def nearestFormat (raw : ℕ) : Checked QrError (ℤ × ℕ) :=
  repeatFor (fun candidate nearest => do
    let d ← hammingDistance raw (formatCodeword candidate)
    return if d < nearest.2 then ((candidate : ℤ), d) else nearest) (-1, 16) 32

/-- One copy, the bits from the lowest. -/
def readCopy (g : Grid) (positions : List (ℤ × ℤ)) : Checked QrError ℕ :=
  forEach (fun p raw => do
    let dark ← g.darkAt p.1.1 p.1.2
    return if dark then raw ||| 1 <<< p.2 else raw) positions.zipIdx 0

def readFormatInfo (g : Grid) : Checked QrError (Level × ℕ) := do
  let (first, second) := formatBitPositions g.size
  let (bestBits, bestDistance) ← forEach (fun positions best => do
    let raw ← readCopy g positions
    let (bits, distance) ← nearestFormat (raw ^^^ formatMask)
    return if distance < best.2 then (bits, distance) else best) [first, second] ((-1 : ℤ), 16)
  if bestBits < 0 ∨ bestDistance > 3 then fail .formatInfo
  else
    match levelFromFormatBits (bestBits.toNat >>> 3) with
    | none => fail .formatInfo
    | some level => return (level, bestBits.toNat &&& 7)

/-! ### Distances -/

/-- The bits of a number from the lowest. -/
def lowBits (n x : ℕ) : List Bool := (List.range n).map x.testBit

lemma length_lowBits (n x : ℕ) : (lowBits n x).length = n := by
  rw [lowBits, List.length_map, List.length_range]

lemma mismatches_lowBits (n a b : ℕ) :
    mismatches (lowBits n a) (lowBits n b) = (List.range n).countP fun i => (a ^^^ b).testBit i := by
  rw [lowBits, lowBits, mismatches_map_map]
  apply List.countP_congr
  intro i _
  rw [Nat.testBit_xor]
  cases a.testBit i <;> cases b.testBit i <;> decide

lemma mismatches_lowBits_xor (n a b m : ℕ) :
    mismatches (lowBits n (a ^^^ m)) (lowBits n b) =
      mismatches (lowBits n a) (lowBits n (b ^^^ m)) := by
  rw [mismatches_lowBits, mismatches_lowBits, Nat.xor_assoc, Nat.xor_comm m b]

lemma countP_testBit_succ (n x : ℕ) :
    (List.range (n + 1)).countP x.testBit =
      (x &&& 1) + (List.range n).countP (x >>> 1).testBit := by
  rw [List.range_succ_eq_map, List.countP_cons, List.countP_map, Nat.add_comm]
  congr 1
  · rw [Nat.testBit_zero, Nat.and_one_is_mod]
    rcases Nat.mod_two_eq_zero_or_one x with h | h <;> simp [h]
  · apply List.countP_congr
    intro i _
    rw [Function.comp_apply, Nat.testBit_shiftRight, Nat.add_comm]

lemma hammingLoop_eq {n fuel d x : ℕ} (hx : x < 2 ^ n) (hfuel : x < fuel) :
    (whileLoop (fun s : ℕ × ℕ => .ok (s.2 != 0))
      (fun s => .ok (s.1 + (s.2 &&& 1), s.2 >>> 1)) fuel (d, x) : Checked QrError _) =
      .ok (d + (List.range n).countP x.testBit, 0) := by
  induction n generalizing fuel d x with
  | zero =>
    obtain rfl : x = 0 := by omega
    cases fuel with
    | zero => omega
    | succ fuel => rfl
  | succ n ih =>
    cases fuel with
    | zero => omega
    | succ fuel =>
      rw [whileLoop]
      rcases eq_or_ne x 0 with rfl | hne
      · simp
      · have hhalf : x >>> 1 = x / 2 := Nat.shiftRight_one x
        rw [ok_bind, if_pos (by simpa using hne), ok_bind,
          ih (by rw [hhalf]; omega) (by rw [hhalf]; omega), countP_testBit_succ, Nat.add_assoc]

lemma hammingDistance_eq {a b n : ℕ} (ha : a < 2 ^ n) (hb : b < 2 ^ n) :
    hammingDistance a b = .ok (mismatches (lowBits n a) (lowBits n b)) := by
  rw [hammingDistance, hammingLoop_eq (Nat.xor_lt_two_pow ha hb) (Nat.lt_succ_self _), ok_bind,
    mismatches_lowBits, Nat.zero_add]
  rfl

/-! ### The code -/

/-- The remainder of a polynomial over the field of two elements, whose coefficients are bits, from
the degree `n + degree` down. -/
def polyMod (generator degree : ℕ) : ℕ → ℕ → ℕ
  | 0, r => r
  | n + 1, r => polyMod generator degree n
    (if r.testBit (n + degree) then r ^^^ generator <<< n else r)

/-- The format information of the standard: five bits, ten for their remainder by the generator of
the code, and a mask. -/
def formatInformation (level : Level) (mask : ℕ) : ℕ :=
  let data := level.formatBits <<< 3 ||| mask
  (data <<< 10 ||| polyMod 0b10100110111 10 5 (data <<< 10)) ^^^ 0b101010000010010

lemma formatCodeword_lt : ∀ c < 32, formatCodeword c < 2 ^ 15 := by decide +kernel

lemma formatCodeword_distance : ∀ a < 32, ∀ b < 32,
    mismatches (lowBits 15 (formatCodeword a)) (lowBits 15 (formatCodeword b)) < 7 → a = b := by
  decide +kernel

lemma formatCodeword_cases : ∀ level ∈ [Level.low, .medium, .quartile, .high], ∀ mask < 8,
    formatCodeword (level.formatBits <<< 3 ||| mask) ^^^ formatMask =
      formatInformation level mask ∧ level.formatBits <<< 3 ||| mask < 32 ∧
    (level.formatBits <<< 3 ||| mask) >>> 3 = level.formatBits ∧
    (level.formatBits <<< 3 ||| mask) &&& 7 = mask := by
  decide +kernel

lemma format_split : ∀ c < 32, (c >>> 3) <<< 3 ||| c &&& 7 = c := by decide

/-! ### Grids -/

namespace Grid

/-- The module in column `p.1` of row `p.2`. -/
def moduleAt (g : Grid) (p : ℕ × ℕ) : Bool := g.dark.getD (p.2 * g.size.toNat + p.1) false

/-- There are `n` rows of `n` modules. -/
structure Square (g : Grid) (n : ℕ) : Prop where
  size_eq : g.size = n
  length_eq : g.dark.length = n * n

end Grid

section Reading
variable {g : Grid} {n : ℕ}

lemma cell_lt {n x y : ℕ} (hx : x < n) (hy : y < n) : y * n + x < n * n := by
  have h := Nat.mul_le_mul_right n (Nat.succ_le_of_lt hy)
  rw [Nat.succ_mul] at h
  omega

lemma Grid.Square.darkAt_eq (h : g.Square n) {x y : ℕ} (hx : x < n) (hy : y < n) :
    g.darkAt x y = .ok (g.moduleAt (x, y)) := by
  have hlt : y * n + x < g.dark.length := by
    rw [h.length_eq]
    exact cell_lt hx hy
  unfold Grid.darkAt Grid.moduleAt
  rw [h.size_eq, if_neg (by omega), Int.toNat_natCast]
  apply index_eq (k := y * n + x) (by push_cast; rfl)
  rw [List.getD_eq_getElem?_getD, List.getElem?_eq_getElem hlt, Option.getD_some]

/-- A position as the code has it. -/
def toInts (p : ℕ × ℕ) : ℤ × ℤ := (p.1, p.2)

lemma lowBits_or {n raw : ℕ} (h : raw < 2 ^ n) (dark : Bool) :
    (if dark then raw ||| 1 <<< n else raw) < 2 ^ (n + 1) ∧
      lowBits (n + 1) (if dark then raw ||| 1 <<< n else raw) = lowBits n raw ++ [dark] := by
  have hlast : raw.testBit n = false := Nat.testBit_lt_two_pow h
  have hpow : 2 ^ n < 2 ^ (n + 1) := Nat.pow_lt_pow_right (by decide) (Nat.lt_succ_self n)
  cases dark with
  | false =>
    simp only [Bool.false_eq_true, if_false]
    refine ⟨h.trans hpow, ?_⟩
    rw [lowBits, List.range_succ, List.map_append, List.map_singleton, hlast, lowBits]
  | true =>
    simp only [if_true]
    rw [Nat.one_shiftLeft]
    refine ⟨Nat.or_lt_two_pow (h.trans hpow) hpow, ?_⟩
    rw [lowBits, List.range_succ, List.map_append, List.map_singleton, Nat.testBit_or, hlast,
      Nat.testBit_two_pow_self, Bool.false_or, lowBits]
    congr 1
    apply List.map_congr_left
    intro i hi
    have hne : n ≠ i := (List.mem_range.mp hi).ne'
    rw [Nat.testBit_or, Nat.testBit_two_pow_of_ne hne, Bool.or_false]

lemma Grid.Square.gives_readCopy (h : g.Square n) {positions : List (ℕ × ℕ)}
    (hpos : ∀ p ∈ positions, p.1 < n ∧ p.2 < n) :
    Gives (fun raw => raw < 2 ^ positions.length ∧
      lowBits positions.length raw = positions.map g.moduleAt)
      (readCopy g (positions.map toInts)) := by
  induction positions using List.reverseRecOn with
  | nil => exact .ok ⟨by decide, rfl⟩
  | append_singleton positions p ih =>
    have hp := hpos p (by simp)
    have hread := ih fun q hq => hpos q (List.mem_append_left _ hq)
    rw [readCopy, List.map_append (f := toInts), List.zipIdx_append, forEach_append, ← readCopy]
    refine Gives.bind hread fun raw hraw => ?_
    rw [List.map_singleton, List.zipIdx_singleton, forEach, toInts, h.darkAt_eq hp.1 hp.2, ok_bind]
    obtain ⟨hlt, hbits⟩ := lowBits_or hraw.1 (g.moduleAt p)
    refine .ok ⟨?_, ?_⟩
    · simpa using hlt
    · rw [hraw.2] at hbits
      simpa using hbits

end Reading

/-! ### Reading the format -/

/-- The two copies of the format information of a grid with `n` modules a side. -/
def formatCopies (n : ℕ) : List (List (ℕ × ℕ)) :=
  [[(8, 0), (8, 1), (8, 2), (8, 3), (8, 4), (8, 5), (8, 7), (8, 8), (7, 8), (5, 8), (4, 8), (3, 8),
      (2, 8), (1, 8), (0, 8)],
    [(n - 1, 8), (n - 2, 8), (n - 3, 8), (n - 4, 8), (n - 5, 8), (n - 6, 8), (n - 7, 8), (n - 8, 8),
      (8, n - 7), (8, n - 6), (8, n - 5), (8, n - 4), (8, n - 3), (8, n - 2), (8, n - 1)]]

/-- How many modules of a copy are not those of a level and a mask. -/
def Grid.formatErrors (g : Grid) (copy : List (ℕ × ℕ)) (level : Level) (mask : ℕ) : ℕ :=
  mismatches (copy.map g.moduleAt) (lowBits 15 (formatInformation level mask))

/-- How many modules of a copy are not those of a word of the code. -/
def Grid.codeErrors (g : Grid) (copy : List (ℕ × ℕ)) (c : ℕ) : ℕ :=
  mismatches (copy.map g.moduleAt) (lowBits 15 (formatCodeword c ^^^ formatMask))

lemma formatBitPositions_eq {n : ℕ} (h : 21 ≤ n) :
    [(formatBitPositions n).1, (formatBitPositions n).2] =
      (formatCopies n).map (·.map toInts) := by
  simp [formatBitPositions, formatCopies, toInts, List.range_succ, List.range'_succ]
  omega

lemma mem_formatCopies {n : ℕ} (h : 21 ≤ n) {copy : List (ℕ × ℕ)} (hc : copy ∈ formatCopies n) :
    copy.length = 15 ∧ ∀ p ∈ copy, p.1 < n ∧ p.2 < n := by
  simp only [formatCopies, List.mem_cons, List.not_mem_nil, or_false] at hc
  rcases hc with rfl | rfl
  · refine ⟨rfl, ?_⟩
    simp only [List.forall_mem_cons, List.not_mem_nil, false_implies, implies_true, and_true]
    omega
  · refine ⟨rfl, ?_⟩
    simp only [List.forall_mem_cons, List.not_mem_nil, false_implies, implies_true, and_true]
    omega

/-- The nearest word of the code and its distance. -/
structure IsNearest (errors : ℕ → ℕ) (r : ℤ × ℕ) : Prop where
  exists_word : ∃ c < 32, r.1 = (c : ℕ) ∧ r.2 = errors c
  le : ∀ c < 32, r.2 ≤ errors c

/-- A loop that keeps the nearest of its candidates, which the start is not nearer than. -/
lemma gives_least {α : Type} {body : α → ℤ × ℕ → Checked QrError (ℤ × ℕ)} {l : List α}
    (candidate : α → ℤ × ℕ → Prop) (hl : l ≠ []) (hlt : ∀ a p, candidate a p → p.2 < 16)
    (hbody : ∀ a ∈ l, ∀ best, Gives (fun r => ∃ p, candidate a p ∧
      r = if p.2 < best.2 then p else best) (body a best)) :
    Gives (fun best => (∃ a ∈ l, candidate a best) ∧ ∀ a ∈ l, ∃ p, candidate a p ∧ best.2 ≤ p.2)
      (forEach body l (-1, 16)) := by
  have hloop : Gives (fun best => (best = (-1, 16) ∧ l = [] ∨ ∃ a ∈ l, candidate a best) ∧
      ∀ a ∈ l, ∃ p, candidate a p ∧ best.2 ≤ p.2) (forEach body l ((-1, 16) : ℤ × ℕ)) := by
    apply ends_forEach (fun done (best : ℤ × ℕ) =>
      (best = (-1, 16) ∧ done = [] ∨ ∃ a ∈ done, candidate a best) ∧
      ∀ a ∈ done, ∃ p, candidate a p ∧ best.2 ≤ p.2) l
    · exact ⟨.inl ⟨rfl, rfl⟩, fun a ha => absurd ha List.not_mem_nil⟩
    · rintro done a rest rfl best ⟨hbest, hleast⟩
      refine Ends.weaken (hbody a (by simp) best) ?_ fun _ he => he
      rintro r ⟨p, hp, rfl⟩
      by_cases hless : p.2 < best.2
      · rw [if_pos hless]
        refine ⟨.inr ⟨a, by simp, hp⟩, fun b hb => ?_⟩
        rcases List.mem_append.mp hb with hb | hb
        · obtain ⟨q, hq, hle⟩ := hleast b hb
          exact ⟨q, hq, hless.le.trans hle⟩
        · obtain rfl := List.mem_singleton.mp hb
          exact ⟨p, hp, le_rfl⟩
      · rw [if_neg hless]
        refine ⟨.inr ?_, fun b hb => ?_⟩
        · rcases hbest with ⟨rfl, -⟩ | ⟨b, hb, hcand⟩
          · exact absurd (hlt a p hp) hless
          · exact ⟨b, List.mem_append_left _ hb, hcand⟩
        · rcases List.mem_append.mp hb with hb | hb
          · exact hleast b hb
          · obtain rfl := List.mem_singleton.mp hb
            exact ⟨p, hp, Nat.le_of_not_lt hless⟩
  refine Ends.weaken hloop ?_ fun _ he => he
  rintro best ⟨⟨-, hnil⟩ | hcand, hleast⟩
  · exact absurd hnil hl
  · exact ⟨hcand, hleast⟩

lemma gives_nearestFormat {raw : ℕ} (h : raw < 2 ^ 15) :
    Gives (IsNearest fun c => mismatches (lowBits 15 raw) (lowBits 15 (formatCodeword c)))
      (nearestFormat raw) := by
  rw [nearestFormat, repeatFor_eq_forEach]
  refine Ends.weaken (gives_least (fun (c : ℕ) p => p = ((c : ℤ),
    mismatches (lowBits 15 raw) (lowBits 15 (formatCodeword c)))) (by simp) ?_ ?_) ?_ fun _ he => he
  · rintro c p rfl
    rw [mismatches_lowBits]
    exact Nat.lt_succ_of_le (List.countP_le_length.trans_eq List.length_range)
  · intro c hc best
    rw [hammingDistance_eq h (formatCodeword_lt c (List.mem_range.mp hc)), ok_bind]
    exact .ok ⟨_, rfl, rfl⟩
  · rintro r ⟨⟨c, hc, rfl⟩, hleast⟩
    refine ⟨⟨c, List.mem_range.mp hc, rfl, rfl⟩, fun c hc => ?_⟩
    obtain ⟨p, rfl, hle⟩ := hleast c (List.mem_range.mpr hc)
    exact hle

section Info
variable {g : Grid} {n : ℕ}

/-- What is read of one copy. -/
lemma Grid.Square.gives_nearest (h : g.Square n) (hn : 21 ≤ n) {copy : List (ℕ × ℕ)}
    (hc : copy ∈ formatCopies n) :
    Gives (IsNearest (g.codeErrors copy)) (do
      let raw ← readCopy g (copy.map toInts)
      nearestFormat (raw ^^^ formatMask)) := by
  obtain ⟨hlen, hpos⟩ := mem_formatCopies hn hc
  refine Gives.bind (h.gives_readCopy hpos) ?_
  rintro raw ⟨hraw, hbits⟩
  rw [hlen] at hraw hbits
  refine Ends.weaken (gives_nearestFormat (Nat.xor_lt_two_pow hraw (by decide))) ?_ fun _ he => he
  intro r hr
  have heq : (fun c => mismatches (lowBits 15 (raw ^^^ formatMask)) (lowBits 15 (formatCodeword c))) =
      g.codeErrors copy := by
    funext c
    rw [mismatches_lowBits_xor, hbits, codeErrors]
  rwa [heq] at hr

/-- The loop over the copies keeps the nearest word of them all. -/
lemma Grid.Square.gives_best (h : g.Square n) (hn : 21 ≤ n) :
    Gives (fun best : ℤ × ℕ => (∃ copy ∈ formatCopies n, IsNearest (g.codeErrors copy) best) ∧
      ∀ copy ∈ formatCopies n, ∀ c < 32, best.2 ≤ g.codeErrors copy c)
      (forEach (fun positions best => do
        let raw ← readCopy g positions
        let (bits, distance) ← nearestFormat (raw ^^^ formatMask)
        return if distance < best.2 then (bits, distance) else best)
        [(formatBitPositions n).1, (formatBitPositions n).2] ((-1 : ℤ), 16)) := by
  rw [formatBitPositions_eq hn, forEach_map]
  refine Ends.weaken (gives_least (fun copy p => copy ∈ formatCopies n ∧
    IsNearest (g.codeErrors copy) p) (by simp [formatCopies]) ?_ ?_) ?_ fun _ he => he
  · rintro copy p ⟨hcopy, ⟨c, -, -, hp⟩, -⟩
    obtain ⟨hlen, -⟩ := mem_formatCopies hn hcopy
    rw [hp, codeErrors, mismatches]
    refine Nat.lt_succ_of_le (List.countP_le_length.trans ?_)
    rw [List.length_zip, List.length_map, hlen, length_lowBits]
    exact Nat.min_le_left 15 15
  · intro copy hcopy best
    rw [← bind_assoc]
    refine Gives.bind (h.gives_nearest hn hcopy) ?_
    rintro ⟨bits, distance⟩ hnearest
    exact .ok ⟨_, ⟨hcopy, hnearest⟩, rfl⟩
  · rintro best ⟨⟨copy, hcopy, -, hnearest⟩, hleast⟩
    refine ⟨⟨copy, hcopy, hnearest⟩, fun copy hcopy c hc => ?_⟩
    obtain ⟨p, ⟨-, hp⟩, hle⟩ := hleast copy hcopy
    exact hle.trans (hp.le c hc)

lemma codeErrors_format (copy : List (ℕ × ℕ)) (level : Level) {mask : ℕ} (hm : mask < 8) :
    g.codeErrors copy (level.formatBits <<< 3 ||| mask) = g.formatErrors copy level mask := by
  obtain ⟨hword, -⟩ := formatCodeword_cases level (by cases level <;> decide) mask hm
  rw [Grid.codeErrors, hword, Grid.formatErrors]

/-- A format that is read is within three modules of one of the copies. -/
lemma Grid.Square.ends_readFormatInfo (h : g.Square n) (hn : 21 ≤ n) :
    Ends (fun format => format.2 < 8 ∧
        ∃ copy ∈ formatCopies n, g.formatErrors copy format.1 format.2 ≤ 3)
      (· = .formatInfo) (readFormatInfo g) := by
  rw [readFormatInfo, h.size_eq]
  refine Gives.bind (h.gives_best hn) ?_
  rintro ⟨bestBits, bestDistance⟩ ⟨⟨copy, hcopy, ⟨c, hc, hbits, hdist⟩, -⟩, -⟩
  dsimp only at hbits hdist ⊢
  subst hbits
  split_ifs with hbad
  · exact .fail rfl
  · rw [Int.toNat_natCast]
    split
    · exact .fail rfl
    next level hlevel =>
      have hm : c &&& 7 < 8 := Nat.lt_succ_of_le Nat.and_le_right
      refine .ok ⟨hm, copy, hcopy, ?_⟩
      rw [← codeErrors_format copy level hm, ← levelFromFormatBits_eq_some hlevel,
        format_split c hc, ← hdist]
      omega

/-- A format within three modules of both copies is read. -/
lemma Grid.Square.readFormatInfo_eq (h : g.Square n) (hn : 21 ≤ n) (level : Level) {mask : ℕ}
    (hm : mask < 8) (herr : ∀ copy ∈ formatCopies n, g.formatErrors copy level mask ≤ 3) :
    readFormatInfo g = .ok (level, mask) := by
  obtain ⟨-, hlt, hshift, hand⟩ := formatCodeword_cases level (by cases level <;> decide) mask hm
  rw [← gives_eq_iff, readFormatInfo, h.size_eq]
  refine Gives.bind (h.gives_best hn) ?_
  rintro ⟨bestBits, bestDistance⟩ ⟨⟨copy, hcopy, ⟨c, hc, hbits, hdist⟩, -⟩, hleast⟩
  dsimp only at hbits hdist hleast ⊢
  have hnear := herr copy hcopy
  rw [← codeErrors_format copy level hm] at hnear
  have hless := (hleast copy hcopy _ hlt).trans hnear
  have heq : c = level.formatBits <<< 3 ||| mask := by
    apply formatCodeword_distance c hc _ hlt
    rw [hdist] at hless
    obtain ⟨hlen, -⟩ := mem_formatCopies hn hcopy
    have htri := mismatches_le_add (u := lowBits 15 (formatCodeword c ^^^ formatMask))
      (v := copy.map g.moduleAt)
      (w := lowBits 15 (formatCodeword (level.formatBits <<< 3 ||| mask) ^^^ formatMask))
      (by rw [length_lowBits, List.length_map, hlen])
      (by rw [length_lowBits, List.length_map, hlen])
    rw [mismatches_comm _ (copy.map g.moduleAt), mismatches_lowBits_xor, Nat.xor_assoc,
      Nat.xor_self, Nat.xor_zero] at htri
    unfold Grid.codeErrors at hless hnear
    omega
  subst hbits heq
  rw [if_neg (by omega), Int.toNat_natCast, hshift, levelFromFormatBits_formatBits, hand]
  exact .ok rfl

end Info

end Dhow.Qr
