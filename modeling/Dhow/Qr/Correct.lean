import Dhow.Lib.BerlekampMassey
import Dhow.Qr.Errors
import Dhow.Qr.Galois

/-!
# Reed-Solomon correction

The decoder of `rs.go`: syndromes, the Berlekamp-Massey algorithm, the search for the roots of
the locator and Forney's formula, with the check of the result. It corrects a block exactly when a
word of the code is within half the parity of it, and then to that word.
-/

namespace Dhow.Qr
open Bytes Checked

section Model
variable {ε : Type}

/-- The code word at the powers of the generator, the coefficient of the highest degree first. -/
def syndromes (codeword : Str) (eccLen : ℤ) : Checked ε Str := do
  let out ← make eccLen 0
  repeatFor (fun j out => do
    let x ← gfPow j
    let acc ← forEach (fun c acc => do
      let v ← gfMul acc x
      return v ^^^ c) codeword 0
    store out j acc) out eccLen.toNat

structure Register where
  lambda : Str
  prev : Str
  prevDiscrepancy : UInt8
  length : ℤ
  shift : ℤ

/-- What the register predicts syndrome `n` wrong by. -/
def discrepancy (synd lambda : Str) (length : ℤ) (n : ℕ) : Checked ε UInt8 := do
  let d ← index synd n
  -- pass `k` is the one for the coefficient of degree `k + 1`
  repeatFor (fun k d => do
    let l ← index lambda (k + 1)
    let s ← index synd (n - (k + 1))
    let v ← gfMul l s
    return d ^^^ v) d (min length (lambda.length - 1)).toNat

def masseyStep (synd : Str) (n : ℕ) (r : Register) : Checked ε Register := do
  let d ← discrepancy synd r.lambda r.length n
  if d = 0 then return { r with shift := r.shift + 1 }
  else if 2 * r.length ≤ n then
    let scale ← gfDiv d r.prevDiscrepancy
    let lambda ← polyAddShifted r.lambda r.prev r.shift scale
    return ⟨lambda, r.lambda, d, n + 1 - r.length, 1⟩
  else
    let scale ← gfDiv d r.prevDiscrepancy
    let lambda ← polyAddShifted r.lambda r.prev r.shift scale
    return { r with lambda := lambda, shift := r.shift + 1 }

def berlekampMassey (synd : Str) : Checked ε Str := do
  let r ← repeatFor (masseyStep synd) ⟨[1], [1], 1, 0, 1⟩ synd.length
  return r.lambda

/-- The degree of a slice of coefficients, from the end down. -/
def trim (lambda : Str) : Checked ε ℤ :=
  whileLoop
    (fun degree => do
      if degree > 0 then
        let c ← index lambda degree
        return c == 0
      else return false)
    (fun degree => .ok (degree - 1)) (lambda.length + 1) (lambda.length - 1)

def findErrorPositions (lambda : Str) (codewordLen : ℕ) : Checked ε (List ℕ × Bool) := do
  let degree ← trim lambda
  if degree = 0 then return ([], true)
  let positions ← makeEmpty degree
  let positions ← repeatFor (fun j positions => do
    let x ← gfPow (-j)
    let v ← polyEval lambda x
    return if v = 0 then positions ++ [j] else positions) positions codewordLen
  return (positions, (positions.length : ℤ) == degree)

/-- One pass of Forney's formula. -/
def forneyStep (omega derivative : Str) (j : ℕ) (codeword : Str) : Checked QrError Str := do
  let xInv ← gfPow (-j)
  let denom ← polyEval derivative xInv
  if denom = 0 then fail .uncorrectable
  else
    let x ← gfPow j
    let num ← polyEval omega xInv
    let ratio ← gfDiv num denom
    let magnitude ← gfMul x ratio
    xorAt codeword (codeword.length - 1 - j) magnitude

def correct (codeword : Str) (eccLen : ℤ) : Checked QrError Str := do
  if eccLen ≤ 0 ∨ codeword.length ≤ eccLen ∨ codeword.length > 255 then fail .uncorrectable
  else
    let synd ← syndromes codeword eccLen
    if synd.all (· == 0) then return codeword
    let lambda ← berlekampMassey synd
    let (positions, found) ← findErrorPositions lambda codeword.length
    if !found then fail .uncorrectable
    else if positions.length = 0 then fail .uncorrectable
    else if positions.length > eccLen.tdiv 2 then fail .uncorrectable
    else
      let omega ← polyMul synd lambda
      let omega ← (if omega.length > eccLen then slice omega 0 eccLen else .ok omega)
      let derivative ← formalDerivative lambda
      let codeword ← forEach (forneyStep omega derivative) positions codeword
      let check ← syndromes codeword eccLen
      if check.any (· != 0) then fail .uncorrectable else return codeword

end Model

/-! ### Syndromes -/

section Syndromes
open ReedSolomon
variable {ε : Type}

def elems (w : Str) : List GF256 := w.map GF256.mk

lemma length_elems (w : Str) : (elems w).length = w.length := List.length_map _

lemma mk_injective : Function.Injective GF256.mk := fun _ _ h => congrArg GF256.byte h

/-- The words of the code with `parity` bytes of error correction. -/
def InCode (parity : ℕ) (w : Str) : Prop := IsCodeword GF256.alpha parity (elems w)

instance (parity : ℕ) (w : Str) : Decidable (InCode parity w) :=
  inferInstanceAs (Decidable (∀ j < parity, value (GF256.alpha ^ j) (elems w) = 0))

lemma horner_eq (w : Str) (x : UInt8) :
    (forEach (fun c acc => do
      let v ← gfMul acc x
      return v ^^^ c) w 0 : Checked ε UInt8) = .ok (value ⟨x⟩ (elems w)).byte := by
  rw [← gives_eq_iff]
  apply ends_forEach (fun done acc => acc = (value ⟨x⟩ (elems done)).byte)
  · rfl
  · rintro done a rest - acc rfl
    rw [gfMul_eq, ok_bind, elems, List.map_append, value, List.foldl_append]
    exact .ok rfl

lemma syndromes_eq (w : Str) {eccLen : ℤ} {parity : ℕ} (h : eccLen = parity) :
    (syndromes w eccLen : Checked ε Str) =
      .ok ((List.range parity).map fun j => (value (GF256.alpha ^ j) (elems w)).byte) := by
  subst h
  rw [← gives_eq_iff, syndromes, make_eq rfl, ok_bind]
  refine Ends.weaken (ends_repeatFor (fun n out => out =
    ((List.range n).map fun j => (value (GF256.alpha ^ j) (elems w)).byte) ++
      List.replicate (parity - n) 0) parity ?_ ?_) ?_ fun _ h => h
  · simp
  · rintro j hj out rfl
    rw [gfPow_eq, ok_bind, horner_eq, ok_bind, store_eq rfl (by simp; omega), zpow_natCast,
      List.set_append_right _ _ (by simp), List.length_map, List.length_range, Nat.sub_self,
      show parity - j = (parity - (j + 1)) + 1 by omega, List.replicate_succ, List.set_cons_zero,
      List.range_succ, List.map_append]
    simp
  · rintro out rfl
    simp

/-- The syndromes vanish together exactly on the words of the code. -/
lemma all_zero_iff (w : Str) (parity : ℕ) :
    (∀ s ∈ (List.range parity).map fun j => (value (GF256.alpha ^ j) (elems w)).byte, s = 0) ↔
      InCode parity w := by
  simp only [List.mem_map, List.mem_range, forall_exists_index, and_imp,
    forall_apply_eq_imp_iff₂, InCode, IsCodeword]
  exact forall₂_congr fun j _ => GF256.byte_eq_zero

/-- The polynomial of the syndromes is the one of the errors' places and values. -/
lemma coeff_toPoly_syndromes (w : Str) (parity j : ℕ) :
    (toPoly ((List.range parity).map fun j => (value (GF256.alpha ^ j) (elems w)).byte)).coeff j =
      if j < parity then value (GF256.alpha ^ j) (elems w) else 0 := by
  rw [coeff_toPoly, List.getD_eq_getElem?_getD, List.getElem?_map]
  split_ifs with h
  · rw [List.getElem?_range h]
    rfl
  · rw [List.getElem?_eq_none (by simpa using h)]
    rfl

end Syndromes

/-! ### The locator -/

section Locator
open ReedSolomon Polynomial
variable {ε : Type} {synd : Str} {r : Register} {m : Massey GF256} {n : ℕ}

/-- The register holds the recurrence `m`. -/
structure Holds (r : Register) (m : Massey GF256) : Prop where
  locator : toPoly r.lambda = m.locator
  prev : toPoly r.prev = m.prev
  discrepancy : ⟨r.prevDiscrepancy⟩ = m.discrepancy
  length : r.length = m.length
  shift : r.shift = m.shift

lemma discrepancy_eq (hr : Holds r m) (hm : m.Fits (toPoly synd) n) (hn : n < synd.length) :
    (discrepancy synd r.lambda r.length n : Checked ε UInt8) =
      .ok ((m.locator * toPoly synd).coeff n).byte := by
  have hl := hm.length_le
  have hlen := hr.length
  set count := (min r.length (r.lambda.length - 1)).toNat with hcount
  have hterms : ∀ i, count < i → m.locator.coeff i = 0 := by
    intro i hi
    rcases Nat.lt_or_ge m.length i with h | h
    · exact coeff_eq_zero_of_natDegree_lt (hm.natDegree_le.trans_lt h)
    · rw [← hr.locator]
      refine coeff_eq_zero_of_natDegree_lt ((natDegree_toPoly_le _).trans_lt ?_)
      omega
  have hsum : (m.locator * toPoly synd).coeff n =
      ∑ i ∈ Finset.range (count + 1), m.locator.coeff i * (toPoly synd).coeff (n - i) := by
    rw [coeff_mul, Finset.Nat.sum_antidiagonal_eq_sum_range_succ_mk]
    symm
    apply Finset.sum_subset (Finset.range_mono (by omega))
    intro i _ hi
    rw [hterms i (by simpa using hi), zero_mul]
  have hsynd : ∀ k < synd.length, synd[k]? = some ((toPoly synd).coeff k).byte := by
    intro k hk
    rw [coeff_toPoly, List.getD_eq_getElem?_getD, List.getElem?_eq_getElem hk]
    rfl
  rw [← gives_eq_iff, hsum, discrepancy, index_eq rfl (hsynd n hn), ok_bind]
  apply ends_repeatFor (fun k d => d = (∑ i ∈ Finset.range (k + 1),
    m.locator.coeff i * (toPoly synd).coeff (n - i)).byte)
  · rw [Finset.sum_range_one, hm.coeff_zero, one_mul, Nat.sub_zero]
  · rintro k hk d rfl
    have hlambda : r.lambda[k + 1]? = some (m.locator.coeff (k + 1)).byte := by
      rw [← hr.locator, coeff_toPoly, List.getD_eq_getElem?_getD,
        List.getElem?_eq_getElem (by omega)]
      rfl
    rw [index_eq (k := k + 1) (by omega) hlambda, ok_bind,
      index_eq (k := n - (k + 1)) (by omega) (hsynd _ (by omega)), ok_bind, gfMul_eq, ok_bind,
      Finset.sum_range_succ _ (k + 1)]
    exact .ok rfl

/-- Both branches of the step that repair the recurrence do it alike. -/
lemma exists_repaired (hr : Holds r m) (hm : m.Fits (toPoly synd) n) (d : GF256) :
    ∃ scale lambda, (gfDiv d.byte r.prevDiscrepancy : Checked ε UInt8) = .ok scale ∧
      (polyAddShifted r.lambda r.prev r.shift scale : Checked ε Str) = .ok lambda ∧
      toPoly lambda = m.repaired d := by
  have hne : r.prevDiscrepancy ≠ 0 := by
    intro h
    apply hm.discrepancy_ne
    rw [← hr.discrepancy, h]
    rfl
  have hscale := gfDiv_eq (ε := ε) d.byte hne
  rw [hr.shift]
  obtain ⟨lambda, hlambda, -, hpoly⟩ := gives_iff.mp (gives_polyAddShifted (ε := ε) r.lambda r.prev
    m.shift (d / ⟨r.prevDiscrepancy⟩ : GF256).byte)
  refine ⟨_, lambda, hscale, hlambda, ?_⟩
  rw [hpoly, hr.locator, hr.prev, Massey.repaired, CharTwo.sub_eq_add, ← hr.discrepancy]

lemma gives_masseyStep (hr : Holds r m) (hm : m.Fits (toPoly synd) n) (hn : n < synd.length) :
    Gives (fun r => Holds r (m.next n ((m.locator * toPoly synd).coeff n)))
      (masseyStep synd n r : Checked ε Register) := by
  obtain ⟨scale, lambda, hscale, hlambda, hpoly⟩ :=
    exists_repaired (ε := ε) hr hm ((m.locator * toPoly synd).coeff n)
  have hl := hm.length_le
  have hlen := hr.length
  rw [masseyStep, discrepancy_eq hr hm hn, ok_bind, Massey.next]
  generalize (m.locator * toPoly synd).coeff n = d at hscale hpoly ⊢
  simp only [GF256.byte_eq_zero]
  split_ifs with hd h1 h2 h2
  · exact .ok ⟨hr.locator, hr.prev, hr.discrepancy, hr.length, by simp [hr.shift]⟩
  · rw [hscale, ok_bind, hlambda, ok_bind]
    exact .ok ⟨hpoly, hr.locator, rfl, by push_cast; omega, rfl⟩
  · omega
  · omega
  · rw [hscale, ok_bind, hlambda, ok_bind]
    exact .ok ⟨hpoly, hr.prev, hr.discrepancy, hr.length, by simp [hr.shift]⟩

/-- The shortest recurrence of the syndromes. -/
lemma gives_berlekampMassey (synd : Str) :
    Gives (fun lambda => ∃ l, Massey.Recurs (toPoly synd) synd.length (toPoly lambda) l ∧
        ∀ p k, Massey.Recurs (toPoly synd) synd.length p k → l ≤ k)
      (berlekampMassey synd : Checked ε Str) := by
  rw [berlekampMassey]
  refine Gives.bind (ends_repeatFor (fun n r => ∃ m : Massey GF256, Holds r m ∧
    m.Fits (toPoly synd) n ∧ ∀ p k, Massey.Recurs (toPoly synd) synd.length p k → m.length ≤ k)
    synd.length ?_ ?_) ?_
  · exact ⟨.start, ⟨toPoly_one, toPoly_one, rfl, rfl, rfl⟩, Massey.fits_start _,
      fun p k _ => Nat.zero_le k⟩
  · rintro n hn r ⟨m, hr, hm, hleast⟩
    refine (gives_masseyStep hr hm hn).ends fun s hs => ?_
    refine ⟨_, hs, hm.next rfl, fun p k hp => ?_⟩
    exact hm.length_next_le (hleast p k hp) ⟨hp.coeff_zero, hp.natDegree_le,
      fun j hj hjn => hp.agrees j hj (by omega)⟩
  · rintro r ⟨m, hr, hm, hleast⟩
    refine .ok ⟨m.length, ?_, hleast⟩
    rw [hr.locator]
    exact hm.recurs

lemma gives_trim {lambda : Str} (h : lambda ≠ []) :
    Gives (fun degree : ℤ => degree = (toPoly lambda).natDegree) (trim lambda : Checked ε ℤ) := by
  have hpos := List.length_pos_of_ne_nil h
  have hcoeff : ∀ k < lambda.length, lambda[k]? = some ((toPoly lambda).coeff k).byte := by
    intro k hk
    rw [coeff_toPoly, List.getD_eq_getElem?_getD, List.getElem?_eq_getElem hk]
    rfl
  apply ends_whileLoop (fun degree : ℤ => 0 ≤ degree ∧ degree < lambda.length ∧
    (toPoly lambda).natDegree ≤ degree) Int.toNat
  · rintro degree ⟨hnonneg, hlt, hdeg⟩
    obtain ⟨k, rfl⟩ := Int.eq_ofNat_of_zero_le hnonneg
    have hk : k < lambda.length := by omega
    split_ifs with hk0
    · rw [index_eq rfl (hcoeff k hk), ok_bind]
      refine .ok ?_
      rcases eq_or_ne ((toPoly lambda).coeff k) 0 with hzero | hne
      · have hlead : (toPoly lambda).natDegree ≠ k := by
          intro heq
          rw [← heq] at hzero
          have := leadingCoeff_eq_zero.mp hzero
          rw [this, natDegree_zero] at heq
          omega
        rw [hzero, if_pos (by decide)]
        exact .ok ⟨⟨by omega, by omega, by omega⟩, by omega⟩
      · have hle := le_natDegree_of_ne_zero hne
        rw [if_neg]
        · omega
        · intro heq
          exact hne (GF256.byte_eq_zero.mp (by simpa using heq))
    · refine .ok ?_
      rw [if_neg (by decide)]
      omega
  · exact ⟨by omega, by omega, by have := natDegree_toPoly_le lambda; omega⟩
  · omega

/-- The positions found are the powers at whose inverses the locator vanishes. -/
lemma gives_findErrorPositions {lambda : Str} (h : lambda ≠ []) (codewordLen : ℕ) :
    Gives (fun r => if (toPoly lambda).natDegree = 0 then r = ([], true) else
      r.1 = (List.range codewordLen).filter (fun j =>
        (toPoly lambda).eval (GF256.alpha ^ j)⁻¹ = 0) ∧
      r.2 = (r.1.length == (toPoly lambda).natDegree))
      (findErrorPositions lambda codewordLen : Checked ε _) := by
  rw [findErrorPositions]
  refine Gives.bind (gives_trim h) ?_
  rintro degree rfl
  simp only [Nat.cast_eq_zero]
  split_ifs with hdeg
  · exact .ok rfl
  · rw [makeEmpty, if_pos (by omega), ok_bind]
    refine Gives.bind (ends_repeatFor (fun n positions => positions =
      (List.range n).filter (fun j => (toPoly lambda).eval (GF256.alpha ^ j)⁻¹ = 0))
      codewordLen rfl ?_) ?_
    · rintro j hj positions rfl
      rw [gfPow_eq, ok_bind, polyEval_eq, ok_bind, List.range_succ, List.filter_append,
        zpow_neg, zpow_natCast]
      refine .ok ?_
      simp only [GF256.byte_eq_zero]
      split_ifs with hroot <;> simp [hroot]
    · rintro positions rfl
      refine .ok ⟨rfl, ?_⟩
      rw [Bool.eq_iff_iff, beq_iff_eq, beq_iff_eq, Nat.cast_inj]

end Locator

/-! ### Forney's formula -/

section Forney
open ReedSolomon Polynomial

lemma gives_xorAt_word {ε : Type} {w : Str} {j : ℕ} (hj : j < w.length) (v : UInt8) :
    Gives (fun q : Str => q.length = w.length ∧ (∀ u, mismatches q u ≤ mismatches w u + 1) ∧
        ∀ i, coeff (elems q) i = coeff (elems w) i + if i = j then GF256.mk v else 0)
      (xorAt w (w.length - 1 - j) v : Checked ε Str) := by
  have hk : w.length - 1 - j < w.length := by omega
  rw [xorAt, index_eq (k := w.length - 1 - j) (by omega) (List.getElem?_eq_getElem hk), ok_bind,
    store_eq (k := w.length - 1 - j) (by omega) hk]
  refine .ok ⟨List.length_set .., fun u => mismatches_set_le w u _ _, fun i => ?_⟩
  have hset : elems (w.set (w.length - 1 - j) (w[w.length - 1 - j] ^^^ v)) =
      (elems w).set ((elems w).length - 1 - j) (GF256.mk (w[w.length - 1 - j] ^^^ v)) := by
    rw [elems, List.map_set, length_elems, elems]
  rw [hset, coeff_set (by rwa [length_elems])]
  split_ifs with hij
  · subst hij
    rw [coeff_of_lt (by rwa [length_elems]), length_elems, List.getD_eq_getElem?_getD, elems,
      List.getElem?_map, List.getElem?_eq_getElem hk]
    rfl
  · rw [add_zero]

/-- Whatever the polynomials, a pass changes one place of the word or stops. -/
lemma ends_forneyStep (omega derivative w : Str) {j : ℕ} (hj : j < w.length) :
    Ends (fun q : Str => q.length = w.length ∧ ∀ u, mismatches q u ≤ mismatches w u + 1)
      (· = .uncorrectable) (forneyStep omega derivative j w) := by
  rw [forneyStep, gfPow_eq, ok_bind, polyEval_eq, ok_bind]
  split_ifs with hdenom
  · exact .fail rfl
  · rw [gfPow_eq, ok_bind, polyEval_eq, ok_bind, gfDiv_eq _ hdenom, ok_bind, gfMul_eq, ok_bind]
    exact (gives_xorAt_word hj _).ends fun q h => ⟨h.1, h.2.1⟩

/-- At a place of an error, with the locator and the evaluator, a pass takes the error away. -/
lemma gives_forneyStep {omega derivative w : Str} {n j : ℕ} {e : ℕ → GF256}
    (homega : toPoly omega = evaluator GF256.alpha n e)
    (hderivative : toPoly derivative = Polynomial.derivative (locator GF256.alpha n e))
    (hn : n ≤ 255) (hlen : w.length = n) (hj : j ∈ places n e) :
    Gives (fun q : Str => q.length = w.length ∧
        ∀ i, coeff (elems q) i = coeff (elems w) i + if i = j then e j else 0)
      (forneyStep omega derivative j w) := by
  have hinj : Set.InjOn (fun i => GF256.alpha ^ i) (Set.Iio n) :=
    GF256.alpha_pow_injOn.mono (Set.Iio_subset_Iio hn)
  have hne := eval_derivative_ne_zero GF256.alpha_ne_zero hinj hj
  have hforney := forney GF256.alpha_ne_zero hinj hj
  rw [CharTwo.neg_eq] at hforney
  rw [forneyStep, gfPow_eq, ok_bind, polyEval_eq, ok_bind, zpow_neg, zpow_natCast, hderivative,
    if_neg (mt GF256.byte_eq_zero.mp hne), gfPow_eq, ok_bind, polyEval_eq, ok_bind, homega,
    gfDiv_eq _ (mt GF256.byte_eq_zero.mp hne), ok_bind, gfMul_eq, ok_bind, zpow_natCast]
  refine (gives_xorAt_word (by rw [hlen]; exact (mem_places.mp hj).1) _).ends ?_
  rintro q ⟨hq, -, hcoeff⟩
  refine ⟨hq, fun i => ?_⟩
  rw [hcoeff i]
  congr 2

/-- The evaluator is the product below the parity. -/
lemma gives_truncated {ε : Type} (omega : Str) (parity : ℕ) :
    Gives (fun q => ∀ k, (toPoly q).coeff k = if k < parity then (toPoly omega).coeff k else 0)
      (if omega.length > (parity : ℤ) then slice omega 0 parity else .ok omega : Checked ε Str) := by
  split_ifs with h
  · rw [slice_eq (k := 0) (m := parity) Nat.cast_zero.symm rfl (Nat.zero_le _) (by omega)]
    refine .ok fun k => ?_
    rw [List.drop_zero, coeff_toPoly, coeff_toPoly, List.getD_eq_getElem?_getD, List.getElem?_take,
      List.getD_eq_getElem?_getD]
    split_ifs <;> rfl
  · refine .ok fun k => ?_
    split_ifs with hk
    · rfl
    · rw [coeff_toPoly, List.getD_eq_getElem?_getD, List.getElem?_eq_none (by omega)]
      rfl

lemma ne_nil_of_recurs {s : GF256[X]} {n l : ℕ} {lambda : Str}
    (h : Massey.Recurs s n (toPoly lambda) l) : lambda ≠ [] := by
  rintro rfl
  have := h.coeff_zero
  rw [toPoly, coeff_zero] at this
  exact zero_ne_one this

end Forney

/-! ### Correction -/

section Correction
open ReedSolomon Polynomial

/-- A word of the code within half the parity of the received one. -/
structure Near (parity : ℕ) (received w : Str) : Prop where
  length : w.length = received.length
  inCode : InCode parity w
  mismatches : mismatches w received ≤ parity / 2

lemma Near.unique {parity : ℕ} {received v w : Str} (hlen : received.length ≤ 255)
    (hv : Near parity received v) (hw : Near parity received w) : v = w := by
  have htri := mismatches_le_add hv.length hw.length.symm
  rw [mismatches_comm received w] at htri
  have h1 := hv.mismatches
  have h2 := hw.mismatches
  apply List.map_injective_iff.mpr mk_injective
  refine eq_of_mismatches_le (GF256.alpha_pow_injOn.mono (Set.Iio_subset_Iio ?_)) ?_ hv.inCode
    hw.inCode ?_
  · rw [List.length_map, hv.length]
    exact hlen
  · rw [List.length_map, List.length_map, hv.length, hw.length]
  · rw [mismatches_map mk_injective]
    omega

/-- What is returned is checked: it is a word of the code, and few places were changed. -/
lemma ends_correct (codeword : Str) (eccLen : ℤ) :
    Ends (Near eccLen.toNat codeword) (· = .uncorrectable) (correct codeword eccLen) := by
  rw [correct]
  split_ifs with hguard
  · exact .fail rfl
  · obtain ⟨parity, rfl⟩ := Int.eq_ofNat_of_zero_le (show 0 ≤ eccLen by omega)
    have hhalf : (parity : ℤ).tdiv 2 = (parity / 2 : ℕ) := rfl
    rw [syndromes_eq codeword rfl, ok_bind, Int.toNat_natCast]
    split_ifs with hclean
    · refine .ok ⟨rfl, ?_, ?_⟩
      · rw [← all_zero_iff]
        simpa using hclean
      · rw [mismatches_self]
        exact Nat.zero_le _
    · refine Gives.bind (gives_berlekampMassey _) ?_
      rintro lambda ⟨l, hl, -⟩
      refine Gives.bind (gives_findErrorPositions (ne_nil_of_recurs hl) codeword.length) ?_
      rintro ⟨positions, found⟩ hpositions
      dsimp only at hpositions ⊢
      have hlt : ∀ j ∈ positions, j < codeword.length := by
        split_ifs at hpositions
        · cases hpositions
          simp
        · intro j hj
          rw [hpositions.1] at hj
          exact List.mem_range.mp (List.mem_filter.mp hj).1
      split_ifs with hfound hnone hmany
      · exact .fail rfl
      · exact .fail rfl
      · exact .fail rfl
      · refine Gives.bind (gives_polyMul _ _) fun omega _ => ?_
        refine Gives.bind (gives_truncated omega parity) fun omega _ => ?_
        refine Gives.bind (gives_formalDerivative lambda) fun derivative _ => ?_
        refine Ends.bind (ends_forEach (fun (done : List ℕ) (w : Str) => w.length = codeword.length ∧
          mismatches w codeword ≤ done.length) positions ⟨rfl, (mismatches_self _).le⟩ ?_) ?_
        · rintro done j rest rfl w ⟨hlen, hmis⟩
          have hj : j < w.length := hlen ▸ hlt j (by simp)
          refine (ends_forneyStep omega derivative w hj).weaken ?_ fun _ h => h
          rintro q ⟨hq, hqmis⟩
          refine ⟨hq.trans hlen, ?_⟩
          rw [List.length_append, List.length_singleton]
          exact (hqmis codeword).trans (Nat.succ_le_succ hmis)
        · rintro w ⟨hlen, hmis⟩
          rw [syndromes_eq w rfl, ok_bind]
          split_ifs with hcheck
          · exact .fail rfl
          · refine .ok ⟨hlen, ?_, ?_⟩
            · rw [← all_zero_iff]
              simpa using hcheck
            · omega

section Complete
variable {codeword c : Str} {parity : ℕ}

/-- The error of the received word in the coefficient of degree `i`. -/
def errorAt (codeword c : Str) (i : ℕ) : GF256 := coeff (elems codeword) i - coeff (elems c) i

lemma Near.card_places (h : Near parity codeword c) :
    (places codeword.length (errorAt codeword c)).card ≤ parity / 2 := by
  have hcard := mismatches_eq_card (v := elems codeword) (w := elems c)
    (by rw [length_elems, length_elems, h.length])
  rw [length_elems, elems, elems, mismatches_map mk_injective, mismatches_comm] at hcard
  exact hcard.symm.trans_le h.mismatches

/-- The syndromes of the received word are those of its errors. -/
lemma Near.toPoly_syndromes (h : Near parity codeword c) :
    toPoly ((List.range parity).map fun j => (value (GF256.alpha ^ j) (elems codeword)).byte) =
      ReedSolomon.syndromes GF256.alpha codeword.length (errorAt codeword c) parity := by
  ext j
  rw [coeff_toPoly_syndromes, coeff_syndromes]
  split_ifs with hj
  · have hc := h.inCode j hj
    rw [value_pow, length_elems, h.length] at hc
    rw [value_pow, length_elems, ← sub_zero (syndrome _ _ (coeff (elems codeword)) _), ← hc]
    simp only [syndrome, errorAt, sub_mul, Finset.sum_sub_distrib]
  · rfl

lemma Near.eq_of_places_eq_empty (h : Near parity codeword c)
    (hplaces : places codeword.length (errorAt codeword c) = ∅) : codeword = c := by
  apply List.map_injective_iff.mpr mk_injective
  apply eq_of_coeff_eq (by rw [List.length_map, List.length_map, h.length])
  intro i hi
  rw [List.length_map] at hi
  by_contra hne
  have : i ∈ places codeword.length (errorAt codeword c) :=
    mem_places.mpr ⟨hi, sub_ne_zero.mpr hne⟩
  rw [hplaces] at this
  exact absurd this (Finset.notMem_empty i)

/-- A word of the received length that has the error added is the word of the code. -/
lemma Near.eq_of_coeff (h : Near parity codeword c) {w : Str} (hw : w.length = codeword.length)
    (hcoeff : ∀ i < codeword.length,
      coeff (elems w) i = coeff (elems codeword) i + errorAt codeword c i) : w = c := by
  apply List.map_injective_iff.mpr mk_injective
  apply eq_of_coeff_eq (by rw [List.length_map, List.length_map, hw, h.length])
  intro i hi
  rw [List.length_map, hw] at hi
  change coeff (elems w) i = coeff (elems c) i
  rw [hcoeff i hi, errorAt, CharTwo.sub_eq_add, CharTwo.add_cancel_left]

/-- The roots of the locator are the places of the errors, each found once. -/
lemma roots_places {n : ℕ} {e : ℕ → GF256} (hn : n ≤ 255) {positions : List ℕ}
    (h : positions = (List.range n).filter fun j =>
      (locator GF256.alpha n e).eval (GF256.alpha ^ j)⁻¹ = 0) :
    (∀ j, j ∈ positions ↔ j ∈ places n e) ∧ positions.Nodup ∧
      positions.length = (places n e).card := by
  have hinj : Set.InjOn (fun i => GF256.alpha ^ i) (Set.Iio n) :=
    GF256.alpha_pow_injOn.mono (Set.Iio_subset_Iio hn)
  have hmem : ∀ j, j ∈ positions ↔ j ∈ places n e := by
    intro j
    rw [h, List.mem_filter, List.mem_range, decide_eq_true_eq]
    constructor
    · rintro ⟨hj, hroot⟩
      exact (eval_locator GF256.alpha_ne_zero hinj hj).mp hroot
    · intro hj
      have hlt := (mem_places.mp hj).1
      exact ⟨hlt, (eval_locator GF256.alpha_ne_zero hinj hlt).mpr hj⟩
  have hnodup : positions.Nodup := h ▸ List.nodup_range.filter _
  refine ⟨hmem, hnodup, ?_⟩
  rw [← List.toFinset_card_of_nodup hnodup]
  congr 1
  ext j
  rw [List.mem_toFinset, hmem]

/-- With the locator and the evaluator, Forney's formula takes every error away. -/
lemma gives_corrections {omega derivative : Str} {n : ℕ} {e : ℕ → GF256} {positions : List ℕ}
    (homega : toPoly omega = evaluator GF256.alpha n e)
    (hderivative : toPoly derivative = Polynomial.derivative (locator GF256.alpha n e))
    (hn : n ≤ 255) (hlen : codeword.length = n) (hmem : ∀ j, j ∈ positions ↔ j ∈ places n e)
    (hnodup : positions.Nodup) :
    Gives (fun w : Str => w.length = codeword.length ∧
        ∀ i < n, coeff (elems w) i = coeff (elems codeword) i + e i)
      (forEach (forneyStep omega derivative) positions codeword) := by
  refine Ends.weaken (ends_forEach (fun (done : List ℕ) (w : Str) => w.length = codeword.length ∧
    ∀ i, coeff (elems w) i = coeff (elems codeword) i + if i ∈ done then e i else 0)
    positions ⟨rfl, fun i => by simp⟩ ?_) ?_ fun _ he => he
  · rintro done j rest hsplit w ⟨hw, hcoeff⟩
    have hj : j ∈ places n e := (hmem j).mp (by simp [hsplit])
    have hnew : j ∉ done := by
      rw [hsplit] at hnodup
      intro hdone
      exact (List.nodup_append.mp hnodup).2.2 j hdone j (List.mem_cons_self ..) rfl
    refine (gives_forneyStep homega hderivative hn (hw.trans hlen) hj).ends ?_
    rintro q ⟨hq, hqcoeff⟩
    refine ⟨hq.trans hw, fun i => ?_⟩
    rw [hqcoeff, hcoeff]
    rcases eq_or_ne i j with rfl | hij
    · simp [hnew]
    · simp [hij]
  · rintro w ⟨hw, hcoeff⟩
    refine ⟨hw, fun i hi => ?_⟩
    rw [hcoeff i]
    split_ifs with hi'
    · rfl
    · rw [hmem, mem_places, not_and, not_not] at hi'
      rw [hi' hi]

/-- A word near one of the code is corrected to it. -/
lemma gives_correct (hpos : 0 < parity) (hlt : parity < codeword.length)
    (hlen : codeword.length ≤ 255) (h : Near parity codeword c) :
    Gives (· = c) (correct codeword parity) := by
  have hinj : Set.InjOn (fun i => GF256.alpha ^ i) (Set.Iio codeword.length) :=
    GF256.alpha_pow_injOn.mono (Set.Iio_subset_Iio hlen)
  have hcard := h.card_places
  have hsynd := h.toPoly_syndromes
  rw [correct, if_neg (by omega), syndromes_eq codeword rfl, ok_bind]
  split_ifs with hclean
  · have hin : InCode parity codeword := by
      rw [← all_zero_iff]
      simpa using hclean
    exact .ok (Near.unique hlen ⟨rfl, hin, by rw [mismatches_self]; exact Nat.zero_le _⟩ h)
  · refine Gives.bind (gives_berlekampMassey _) ?_
    rintro lambda ⟨l, hl, hleast⟩
    rw [hsynd, List.length_map, List.length_range] at hl hleast
    have hlocator : toPoly lambda =
        locator GF256.alpha codeword.length (errorAt codeword c) :=
      eq_locator GF256.alpha_ne_zero hinj (by omega) hl (hleast _ _ recurs_locator)
    refine Gives.bind (gives_findErrorPositions (ne_nil_of_recurs hl) codeword.length) ?_
    rintro ⟨positions, found⟩ hpositions
    have hnonempty : (places codeword.length (errorAt codeword c)).card ≠ 0 := by
      intro hzero
      have heq := h.eq_of_places_eq_empty (Finset.card_eq_zero.mp hzero)
      have hin := h.inCode
      rw [← heq, ← all_zero_iff] at hin
      exact hclean (by simpa using hin)
    rw [hlocator, natDegree_locator GF256.alpha_ne_zero, if_neg hnonempty] at hpositions
    obtain ⟨hpositions, hfound⟩ := hpositions
    dsimp only at hpositions hfound ⊢
    obtain ⟨hmem, hnodup, hlength⟩ := roots_places hlen hpositions
    have hhalf : (parity : ℤ).tdiv 2 = (parity / 2 : ℕ) := rfl
    rw [hfound, hlength, beq_self_eq_true, if_neg (by simp), if_neg hnonempty,
      if_neg (by rw [hhalf]; omega)]
    refine Gives.bind (gives_polyMul _ _) fun product hproduct => ?_
    refine Gives.bind (gives_truncated product parity) fun omega homega => ?_
    have hevaluator : toPoly omega =
        evaluator GF256.alpha codeword.length (errorAt codeword c) := by
      apply Polynomial.ext
      intro k
      rw [homega, hproduct, hsynd, hlocator, mul_comm]
      split_ifs with hk
      · exact coeff_locator_mul_syndromes hk
      · rw [coeff_evaluator_of_le (by omega)]
    refine Gives.bind (gives_formalDerivative lambda) fun derivative hderivative => ?_
    rw [hlocator] at hderivative
    refine Gives.bind (gives_corrections hevaluator hderivative hlen rfl hmem hnodup) ?_
    rintro w ⟨hw, hcoeff⟩
    obtain rfl := h.eq_of_coeff hw hcoeff
    rw [syndromes_eq w rfl, ok_bind, if_neg]
    · exact .ok rfl
    · have hin := h.inCode
      rw [← all_zero_iff] at hin
      simpa using hin

end Complete

/-- Correction is decoding up to half the parity: it succeeds exactly on the received words that
are that near to a word of the code, of which there is then only one, and returns it. It never
divides by zero, looks outside a slice or runs on, whatever it is given. -/
theorem correct_bounded_distance (codeword : Str) (eccLen : ℤ) :
    (∀ p, correct codeword eccLen ≠ .error (.panic p)) ∧
      (1 ≤ eccLen → eccLen < codeword.length → codeword.length ≤ 255 →
        ((∃ w, correct codeword eccLen = .ok w) ↔ ∃ w, Near eccLen.toNat codeword w) ∧
        ∀ w, correct codeword eccLen = .ok w → ∀ v, Near eccLen.toNat codeword v ↔ v = w) := by
  refine ⟨(ends_correct codeword eccLen).ne_panic, fun hpos hlt hlen => ?_⟩
  have hsound : ∀ w, correct codeword eccLen = .ok w → Near eccLen.toNat codeword w := by
    intro w hw
    have h := ends_correct codeword eccLen
    rw [hw] at h
    exact h.of_ok
  refine ⟨⟨fun ⟨w, hw⟩ => ⟨w, hsound w hw⟩, fun ⟨w, hw⟩ => ?_⟩, fun w hw v => ⟨fun hv => ?_, ?_⟩⟩
  · have h := gives_eq_iff.mp (gives_correct (by omega) (by omega) hlen hw)
    rw [Int.toNat_of_nonneg (by omega)] at h
    exact ⟨w, h⟩
  · exact hv.unique hlen (hsound w hw)
  · rintro rfl
    exact hsound v hw

theorem correct_bounded_distance_of_one_error : correct [0, 0, 1] 2 = .ok [0, 0, 0] := by
  have hnear : Near 2 [0, 0, 1] [0, 0, 0] := ⟨rfl, by decide +kernel, by decide⟩
  obtain ⟨hiff, hunique⟩ :=
    (correct_bounded_distance [0, 0, 1] 2).2 (by decide) (by decide) (by decide)
  obtain ⟨w, hw⟩ := hiff.mpr ⟨_, hnear⟩
  rw [hw, (hunique w hw _).mp hnear]

end Correction
end Dhow.Qr
