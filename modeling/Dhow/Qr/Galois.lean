import Dhow.Lib.Bytes
import Dhow.Lib.Checked
import Dhow.Lib.GF256
import Mathlib.Algebra.Polynomial.Derivative
import Mathlib.Algebra.Polynomial.Degree.Lemmas
import Mathlib.Tactic.Ring

/-!
# Field arithmetic of the QR decoder

The tables of `rs.go` and the operations on bytes and on polynomials that look up in them. Each
operation is that of the field of 256 elements.
-/

namespace Dhow.Qr
open Bytes Checked

variable {ε : Type}

def gfPrimitive : ℕ := 0x11d

/-- One pass of the loop that fills the tables: `x` is the power of the generator it is at. -/
def initStep (i : ℕ) : ℕ × Str × Str → Checked ε (ℕ × Str × Str)
  | (x, exp, log) => do
    let exp ← store exp i (UInt8.ofNat x)
    let log ← store log x (UInt8.ofNat i)
    let x := x <<< 1
    return (if x &&& 0x100 ≠ 0 then x ^^^ gfPrimitive else x, exp, log)

/-- The second half of the antilogarithms repeats the first. -/
def doubleStep (i : ℕ) (exp : Str) : Checked ε Str := do
  let v ← index exp ((255 + i : ℤ) - 255)
  store exp (255 + i) v

def gfInit : Checked ε (Str × Str) := do
  let (_, exp, log) ← repeatFor initStep (1, List.replicate 512 0, List.replicate 256 0) 255
  let exp ← repeatFor doubleStep exp (512 - 255)
  return (exp, log)

def gfExp : Str := ((gfInit : Checked Empty _).map Prod.fst).toOption.getD []

def gfLog : Str := ((gfInit : Checked Empty _).map Prod.snd).toOption.getD []

def gfMul (a b : UInt8) : Checked ε UInt8 := do
  if a = 0 ∨ b = 0 then return 0
  let la ← index gfLog a.toNat
  let lb ← index gfLog b.toNat
  index gfExp (la.toNat + lb.toNat)

/-- It is for the callers to see that `b` is not zero, and a panic here if they do not. -/
def gfDiv (a b : UInt8) : Checked ε UInt8 := do
  if b = 0 then .error (.panic .division)
  if a = 0 then return 0
  let la ← index gfLog a.toNat
  let lb ← index gfLog b.toNat
  index gfExp (la.toNat - lb.toNat + 255)

def gfPow (e : ℤ) : Checked ε UInt8 := do
  let e ← rem e 255
  index gfExp (if e < 0 then e + 255 else e)

/-- `out[i] ^= v`. -/
def xorAt (out : Str) (i : ℤ) (v : UInt8) : Checked ε Str := do
  let old ← index out i
  store out i (old ^^^ v)

/-- Polynomials are slices with the constant term first. -/
def polyEval (p : Str) (x : UInt8) : Checked ε UInt8 :=
  repeatFor (fun k acc => do
    let acc ← gfMul acc x
    let c ← index p ((p.length : ℤ) - 1 - k)
    return acc ^^^ c) 0 p.length

def polyMul (a b : Str) : Checked ε Str := do
  if a.length = 0 ∨ b.length = 0 then return []
  let out ← make ((a.length : ℤ) + b.length - 1) 0
  repeatFor (fun i out => do
    let av ← index a i
    if av = 0 then return out
    repeatFor (fun j out => do
      let bv ← index b j
      let v ← gfMul av bv
      xorAt out (i + j) v) out b.length) out a.length

/-- `a + scale * x ^ shift * b`. -/
def polyAddShifted (a b : Str) (shift : ℤ) (scale : UInt8) : Checked ε Str := do
  let out ← make (max (a.length : ℤ) (b.length + shift)) 0
  repeatFor (fun i out => do
    let bv ← index b i
    let v ← gfMul bv scale
    xorAt out (i + shift) v) (copy out a) b.length

def formalDerivative (p : Str) : Checked ε Str := do
  if p.length ≤ 1 then return [0]
  let out ← make ((p.length : ℤ) - 1) 0
  -- pass `k` is the one for the coefficient of degree `k + 1`
  repeatFor (fun k out =>
    if (k + 1) % 2 = 1 then do
      let c ← index p (k + 1)
      store out k c
    else .ok out) out (p.length - 1)

/-! ### The tables -/

lemma initStep_double : ∀ n : Fin 256,
    (if n.val <<< 1 &&& 0x100 ≠ 0 then n.val <<< 1 ^^^ gfPrimitive else n.val <<< 1) =
      (GF256.double ⟨UInt8.ofFin n⟩).byte.toNat := by
  decide +kernel

/-- The tables after `i` passes. -/
structure Filled (i : ℕ) (s : ℕ × Str × Str) : Prop where
  power : s.1 = (GF256.alpha ^ i).byte.toNat
  length_exp : s.2.1.length = 512
  length_log : s.2.2.length = 256
  exp : ∀ k < i, s.2.1[k]? = some (GF256.alpha ^ k).byte
  log : ∀ k < i, s.2.2[(GF256.alpha ^ k).byte.toNat]? = some (UInt8.ofNat k)

lemma filled_start : Filled 0 (1, List.replicate 512 0, List.replicate 256 0) where
  power := rfl
  length_exp := List.length_replicate
  length_log := List.length_replicate
  exp _ h := absurd h (Nat.not_lt_zero _)
  log _ h := absurd h (Nat.not_lt_zero _)

lemma initStep_filled {i : ℕ} (hi : i < 255) (s : ℕ × Str × Str) (h : Filled i s) :
    Gives (Filled (i + 1)) (initStep i s : Checked ε _) := by
  obtain ⟨x, exp, log⟩ := s
  obtain ⟨hx, hexp, hlog, he, hl⟩ := h
  simp only at hx hexp hlog he hl
  have hlt := (GF256.alpha ^ i).byte.toNat_lt
  rw [initStep, store_eq rfl (by omega), ok_bind, store_eq rfl (by omega), ok_bind]
  refine .ok ⟨?_, ?_, ?_, ?_, ?_⟩
  · rw [pow_succ', GF256.alpha_mul, hx]
    exact initStep_double (GF256.alpha ^ i).byte.toFin
  · rw [List.length_set, hexp]
  · rw [List.length_set, hlog]
  · intro k hk
    rcases Nat.lt_succ_iff_lt_or_eq.mp hk with hk | rfl
    · rw [List.getElem?_set_ne (by omega)]
      exact he k hk
    · rw [List.getElem?_set_self (by omega), hx, UInt8.ofNat_toNat]
  · intro k hk
    rcases Nat.lt_succ_iff_lt_or_eq.mp hk with hk | rfl
    · rw [List.getElem?_set_ne]
      · exact hl k hk
      · rw [hx]
        intro heq
        have hpow : GF256.alpha ^ i = GF256.alpha ^ k := GF256.ext (UInt8.toNat_inj.mp heq)
        have := GF256.alpha_pow_injOn (Set.mem_Iio.mpr hi) (Set.mem_Iio.mpr (by omega)) hpow
        omega
    · rw [hx, List.getElem?_set_self (by omega)]

/-- Every index that an operation looks up holds the power of its exponent. -/
structure Tabulated (exp log : Str) : Prop where
  exp : ∀ k < 510, exp[k]? = some (GF256.alpha ^ k).byte
  log : ∀ k < 255, log[(GF256.alpha ^ k).byte.toNat]? = some (UInt8.ofNat k)

lemma gfInit_tabulated : Gives (fun t => Tabulated t.1 t.2) (gfInit : Checked ε _) := by
  unfold gfInit
  refine Gives.bind (ends_repeatFor Filled 255 filled_start fun i hi s => initStep_filled hi s) ?_
  rintro ⟨x, exp, log⟩ h
  obtain ⟨-, hexp, -, he, hl⟩ := h
  simp only at hexp he hl
  refine Gives.bind (P := fun exp : Str => exp.length = 512 ∧
    ∀ k < 255 + (512 - 255), exp[k]? = some (GF256.alpha ^ k).byte) ?_ ?_
  · apply ends_repeatFor (fun n exp => exp.length = 512 ∧
      ∀ k < 255 + n, exp[k]? = some (GF256.alpha ^ k).byte) _ ⟨hexp, he⟩
    rintro i hi exp ⟨hlen, he⟩
    rw [doubleStep, index_eq (k := i) (by omega) (he i (by omega)), ok_bind,
      store_eq (k := 255 + i) (by omega) (by omega)]
    refine .ok ⟨by rw [List.length_set, hlen], fun k hk => ?_⟩
    rcases (show k < 255 + i ∨ k = 255 + i by omega) with hk | rfl
    · rw [List.getElem?_set_ne (by omega)]
      exact he k hk
    · rw [List.getElem?_set_self (by omega), pow_add, GF256.alpha_pow_255, one_mul]
  · rintro exp ⟨-, he⟩
    exact .ok ⟨fun k hk => he k (by omega), hl⟩

lemma tabulated : Tabulated gfExp gfLog := by
  obtain ⟨t, h, ht⟩ := gives_iff.mp (gfInit_tabulated (ε := Empty))
  rw [gfExp, gfLog, h]
  exact ht

lemma index_gfExp {i : ℤ} {k : ℕ} (hi : i = k) (hk : k < 510) :
    (index gfExp i : Checked ε _) = .ok (GF256.alpha ^ k).byte :=
  index_eq hi (tabulated.exp k hk)

/-- The logarithm that the table has for a nonzero byte. -/
lemma index_gfLog {a : UInt8} (ha : a ≠ 0) : ∃ k < 255, GF256.alpha ^ k = ⟨a⟩ ∧
    ∃ l : UInt8, l.toNat = k ∧ (index gfLog a.toNat : Checked ε _) = .ok l := by
  obtain ⟨k, hk, h⟩ := GF256.exists_alpha_pow (a := ⟨a⟩) fun h => ha (congrArg GF256.byte h)
  refine ⟨k, hk, h, UInt8.ofNat k, UInt8.toNat_ofNat_of_lt' (by change k < 256; omega), ?_⟩
  have hlog := tabulated.log k hk
  rw [h] at hlog
  exact index_eq rfl hlog

/-! ### The operations -/

lemma gfMul_eq (a b : UInt8) : (gfMul a b : Checked ε _) = .ok (⟨a⟩ * ⟨b⟩ : GF256).byte := by
  rw [gfMul]
  split_ifs with h
  · rcases h with rfl | rfl
    · rw [show (⟨0⟩ : GF256) = 0 from rfl, zero_mul]
      rfl
    · rw [show (⟨0⟩ : GF256) = 0 from rfl, mul_zero]
      rfl
  · obtain ⟨ha, hb⟩ := not_or.mp h
    obtain ⟨i, hi, hpa, la, rfl, hla⟩ := index_gfLog (ε := ε) ha
    obtain ⟨j, hj, hpb, lb, rfl, hlb⟩ := index_gfLog (ε := ε) hb
    rw [hla, ok_bind, hlb, ok_bind, index_gfExp (Nat.cast_add ..).symm (by omega), pow_add, hpa,
      hpb]

lemma gfDiv_eq (a : UInt8) {b : UInt8} (hb : b ≠ 0) :
    (gfDiv a b : Checked ε _) = .ok (⟨a⟩ / ⟨b⟩ : GF256).byte := by
  rw [gfDiv, if_neg hb]
  split_ifs with ha
  · subst ha
    rw [show (⟨0⟩ : GF256) = 0 from rfl, zero_div]
    rfl
  · obtain ⟨i, hi, hpa, la, rfl, hla⟩ := index_gfLog (ε := ε) ha
    obtain ⟨j, hj, hpb, lb, rfl, hlb⟩ := index_gfLog (ε := ε) hb
    have hpow : GF256.alpha ^ (la.toNat + 255 - lb.toNat) = (⟨a⟩ / ⟨b⟩ : GF256) := by
      rw [eq_div_iff (hpb ▸ pow_ne_zero _ GF256.alpha_ne_zero), ← hpb, ← pow_add,
        Nat.sub_add_cancel (by omega), pow_add, GF256.alpha_pow_255, mul_one, hpa]
    change (index gfLog a.toNat >>= fun la => _) = _
    rw [hla, ok_bind, hlb, ok_bind, index_gfExp (k := la.toNat + 255 - lb.toNat) (by omega) (by omega),
      hpow]

lemma gfPow_eq (e : ℤ) : (gfPow e : Checked ε _) = .ok (GF256.alpha ^ e).byte := by
  have hz : GF256.alpha ^ (255 : ℤ) = 1 := by exact_mod_cast GF256.alpha_pow_255
  have hmod : GF256.alpha ^ (e % 255) = GF256.alpha ^ e := by
    conv_rhs => rw [← Int.mul_ediv_add_emod e 255, zpow_add₀ GF256.alpha_ne_zero, zpow_mul, hz,
      one_zpow, one_mul]
  have hnat : GF256.alpha ^ (e % 255).toNat = GF256.alpha ^ e := by
    rw [← hmod, ← zpow_natCast, Int.toNat_of_nonneg (Int.emod_nonneg e (by decide))]
  have hrem : (if e.tmod 255 < 0 then e.tmod 255 + 255 else e.tmod 255) = e % 255 := by
    rw [Int.tmod_eq_emod]
    split_ifs <;> omega
  rw [gfPow, rem, if_neg (by decide), ok_bind, hrem,
    index_gfExp (k := (e % 255).toNat) (by omega) (by omega), hnat]

/-! ### Polynomials -/

section Polynomial
open Polynomial

noncomputable def toPoly : Str → GF256[X]
  | [] => 0
  | a :: p => C ⟨a⟩ + X * toPoly p

lemma toPoly_one : toPoly [1] = 1 := by
  change C 1 + X * 0 = 1
  rw [C_1, mul_zero, add_zero]

lemma toPoly_append (p q : Str) : toPoly (p ++ q) = toPoly p + X ^ p.length * toPoly q := by
  induction p with
  | nil => simp [toPoly]
  | cons a p ih =>
    rw [List.cons_append, toPoly, ih, toPoly, List.length_cons]
    ring

lemma toPoly_replicate (n : ℕ) : toPoly (List.replicate n 0) = 0 := by
  induction n with
  | zero => rfl
  | succ n ih => rw [List.replicate_succ, toPoly, ih, mul_zero, add_zero]; exact C_0

lemma toPoly_take_succ (p : Str) {i : ℕ} (hi : i < p.length) :
    toPoly (p.take (i + 1)) = toPoly (p.take i) + C ⟨p[i]⟩ * X ^ i := by
  rw [List.take_add_one, List.getElem?_eq_getElem hi, toPoly_append, List.length_take_of_le hi.le,
    Option.toList_some, toPoly, toPoly]
  ring

lemma toPoly_xor_set (p : Str) {i : ℕ} (hi : i < p.length) (v : UInt8) :
    toPoly (p.set i (p[i] ^^^ v)) = toPoly p + C ⟨v⟩ * X ^ i := by
  induction p generalizing i with
  | nil => exact absurd hi (Nat.not_lt_zero i)
  | cons a p ih =>
    cases i with
    | zero =>
      have hadd : (⟨a ^^^ v⟩ : GF256) = ⟨a⟩ + ⟨v⟩ := rfl
      simp only [List.set_cons_zero, List.getElem_cons_zero, toPoly, hadd, C_add]
      ring
    | succ i =>
      simp only [List.set_cons_succ, List.getElem_cons_succ, toPoly]
      rw [ih (Nat.lt_of_succ_lt_succ hi)]
      ring

lemma coeff_toPoly (p : Str) (i : ℕ) : (toPoly p).coeff i = ⟨p.getD i 0⟩ := by
  induction p generalizing i with
  | nil => rfl
  | cons a p ih =>
    rw [toPoly, coeff_add]
    cases i with
    | zero => rw [coeff_C_zero, coeff_X_mul_zero, add_zero]; rfl
    | succ i => rw [coeff_C_succ, coeff_X_mul, zero_add, ih]; rfl

lemma natDegree_toPoly_le (p : Str) : (toPoly p).natDegree ≤ p.length - 1 := by
  apply natDegree_le_iff_coeff_eq_zero.mpr
  intro i hi
  rw [coeff_toPoly, List.getD_eq_getElem?_getD, List.getElem?_eq_none (by omega)]
  rfl

lemma gives_xorAt {out : Str} {i : ℤ} {k : ℕ} (hi : i = k) (hk : k < out.length) (v : UInt8) :
    Gives (fun q : Str => q.length = out.length ∧ toPoly q = toPoly out + C ⟨v⟩ * X ^ k)
      (xorAt out i v : Checked ε _) := by
  rw [xorAt, index_eq hi (List.getElem?_eq_getElem hk), ok_bind, store_eq hi hk]
  exact .ok ⟨List.length_set .., toPoly_xor_set out hk v⟩

/-- Horner's rule evaluates the polynomial. -/
lemma polyEval_eq (p : Str) (x : UInt8) :
    (polyEval p x : Checked ε _) = .ok ((toPoly p).eval ⟨x⟩).byte := by
  have h : Gives (fun acc => acc = ((toPoly (p.drop (p.length - p.length))).eval ⟨x⟩).byte)
      (polyEval p x : Checked ε _) := by
    apply ends_repeatFor (fun k acc => acc = ((toPoly (p.drop (p.length - k))).eval ⟨x⟩).byte)
    · rw [Nat.sub_zero, List.drop_length, toPoly, eval_zero]
      rfl
    · rintro k hk acc rfl
      have hlt : p.length - (k + 1) < p.length := by omega
      rw [gfMul_eq, ok_bind, index_eq (k := p.length - (k + 1)) (by omega)
        (List.getElem?_eq_getElem hlt), List.drop_eq_getElem_cons hlt,
        show p.length - (k + 1) + 1 = p.length - k by omega, toPoly, eval_add, eval_C, eval_mul,
        eval_X, mul_comm (⟨x⟩ : GF256), add_comm]
      exact .ok rfl
  rw [Nat.sub_self, List.drop_zero] at h
  exact gives_eq_iff.mp h

/-- The inner loop of the product adds one row. -/
lemma gives_row (b out : Str) (v : UInt8) (i : ℕ) (hlen : i + b.length ≤ out.length) :
    Gives (fun q : Str => q.length = out.length ∧
      toPoly q = toPoly out + C (GF256.mk v) * X ^ i * toPoly b)
      (repeatFor (fun j out => do
        let bv ← index b j
        let w ← gfMul v bv
        xorAt out (i + j) w) out b.length : Checked ε _) := by
  refine Ends.weaken (ends_repeatFor (fun j q => q.length = out.length ∧
    toPoly q = toPoly out + C (GF256.mk v) * X ^ i * toPoly (b.take j)) b.length ?_ ?_) ?_
    fun _ h => h
  · rw [List.take_zero, toPoly, mul_zero, add_zero]
    exact ⟨rfl, rfl⟩
  · rintro j hj q ⟨hq, hpoly⟩
    rw [index_eq rfl (List.getElem?_eq_getElem hj), ok_bind, gfMul_eq, ok_bind]
    refine (gives_xorAt (k := i + j) (by omega) (by omega) _).ends ?_
    rintro r ⟨hr, hrpoly⟩
    refine ⟨hr.trans hq, ?_⟩
    rw [hrpoly, hpoly, toPoly_take_succ b hj]
    change _ + C (GF256.mk v * GF256.mk b[j]) * X ^ (i + j) = _
    rw [C_mul, pow_add]
    ring
  · rintro q ⟨hq, hpoly⟩
    rw [List.take_length] at hpoly
    exact ⟨hq, hpoly⟩

lemma gives_polyMul (a b : Str) :
    Gives (fun q : Str => toPoly q = toPoly a * toPoly b) (polyMul a b : Checked ε _) := by
  rw [polyMul]
  split_ifs with hnil
  · refine .ok ?_
    rcases hnil with h | h
    · rw [List.eq_nil_of_length_eq_zero h, toPoly, zero_mul]
    · rw [List.eq_nil_of_length_eq_zero h, toPoly, mul_zero]
  · obtain ⟨ha, hb⟩ := not_or.mp hnil
    rw [make_eq (k := a.length + b.length - 1) (by omega), ok_bind]
    refine Ends.weaken (ends_repeatFor (fun i out => out.length = a.length + b.length - 1 ∧
      toPoly out = toPoly (a.take i) * toPoly b) a.length ?_ ?_) ?_ fun _ h => h
    · rw [List.take_zero, toPoly, zero_mul]
      exact ⟨List.length_replicate, toPoly_replicate _⟩
    · rintro i hi out ⟨hlen, hout⟩
      rw [index_eq rfl (List.getElem?_eq_getElem hi), ok_bind]
      split_ifs with hzero
      · refine .ok ⟨hlen, ?_⟩
        rw [hout, toPoly_take_succ a hi, hzero]
        change _ = (_ + C 0 * X ^ i) * _
        rw [C_0, zero_mul, add_zero]
      · refine (gives_row b out a[i] i (by omega)).ends ?_
        rintro q ⟨hq, hpoly⟩
        refine ⟨hq.trans hlen, ?_⟩
        rw [hpoly, hout, toPoly_take_succ a hi]
        ring
    · rintro q ⟨-, hq⟩
      rwa [List.take_length] at hq

lemma toPoly_copy {n : ℕ} {a : Str} (h : a.length ≤ n) :
    toPoly (copy (List.replicate n 0) a) = toPoly a := by
  rw [copy, List.length_replicate, List.take_of_length_le h, List.drop_replicate, toPoly_append,
    toPoly_replicate, mul_zero, add_zero]

lemma gives_polyAddShifted (a b : Str) (shift : ℕ) (scale : UInt8) :
    Gives (fun q : Str => q.length = max a.length (b.length + shift) ∧
      toPoly q = toPoly a + C (GF256.mk scale) * (X ^ shift * toPoly b))
      (polyAddShifted a b shift scale : Checked ε _) := by
  rw [polyAddShifted, make_eq (k := max a.length (b.length + shift)) (by omega), ok_bind]
  refine Ends.weaken (ends_repeatFor (fun i out => out.length = max a.length (b.length + shift) ∧
    toPoly out = toPoly a + C (GF256.mk scale) * (X ^ shift * toPoly (b.take i))) b.length ?_ ?_) ?_
    fun _ h => h
  · rw [List.take_zero, toPoly, mul_zero, mul_zero, add_zero, toPoly_copy (by omega)]
    simp [copy]
  · rintro i hi out ⟨hlen, hout⟩
    rw [index_eq rfl (List.getElem?_eq_getElem hi), ok_bind, gfMul_eq, ok_bind]
    refine (gives_xorAt (k := i + shift) (by omega) (by omega) _).ends ?_
    rintro q ⟨hq, hpoly⟩
    refine ⟨hq.trans hlen, ?_⟩
    rw [hpoly, hout, toPoly_take_succ b hi]
    change _ + C (GF256.mk b[i] * GF256.mk scale) * X ^ (i + shift) = _
    rw [C_mul, pow_add]
    ring
  · rintro q ⟨hlen, hq⟩
    rw [List.take_length] at hq
    exact ⟨hlen, hq⟩

/-- Where two is zero the terms of even degree have no derivative. -/
lemma gives_formalDerivative (p : Str) :
    Gives (fun q : Str => toPoly q = derivative (toPoly p))
      (formalDerivative p : Checked ε _) := by
  rw [formalDerivative]
  split_ifs with hp
  · refine .ok ?_
    rw [eq_C_of_natDegree_le_zero ((natDegree_toPoly_le p).trans (by omega)), derivative_C]
    change C 0 + X * 0 = 0
    rw [C_0, mul_zero, add_zero]
  · rw [make_eq (k := p.length - 1) (by omega), ok_bind]
    refine Ends.weaken (ends_repeatFor (fun k out => out.length = p.length - 1 ∧
      ∀ m, out.getD m 0 = if m < k ∧ m % 2 = 0 then p.getD (m + 1) 0 else 0) (p.length - 1) ?_ ?_) ?_
      fun _ h => h
    · refine ⟨List.length_replicate, fun m => ?_⟩
      rw [if_neg (by omega), List.getD_eq_getElem?_getD, List.getElem?_replicate]
      split_ifs <;> rfl
    · rintro k hk out ⟨hlen, hout⟩
      split_ifs with hodd
      · have hget : p[k + 1]? = some (p.getD (k + 1) 0) := by
          simp [List.getD_eq_getElem?_getD, show k + 1 < p.length by omega]
        rw [index_eq (k := k + 1) (by omega) hget, ok_bind, store_eq (k := k) (by omega) (by omega)]
        refine .ok ⟨by rw [List.length_set, hlen], fun m => ?_⟩
        rw [List.getD_eq_getElem?_getD, List.getElem?_set]
        split_ifs with hm h h
        · rw [hm]
          rfl
        · omega
        · omega
        · omega
        · rw [← List.getD_eq_getElem?_getD, hout m, if_pos (by omega)]
        · rw [← List.getD_eq_getElem?_getD, hout m, if_neg (by omega)]
      · refine .ok ⟨hlen, fun m => ?_⟩
        rw [hout m]
        congr 1
        apply propext
        omega
    · rintro q ⟨hlen, hq⟩
      ext i
      have hcast : ((i : GF256) + 1) = if (i + 1) % 2 = 0 then 0 else 1 := by
        rw [← Nat.cast_add_one, CharTwo.natCast_eq_ite]
        simp only [Nat.even_iff]
      rw [coeff_toPoly, coeff_derivative, coeff_toPoly, hq i, hcast]
      rcases Nat.mod_two_eq_zero_or_one i with hi | hi
      · rw [if_neg (show ¬(i + 1) % 2 = 0 by omega), mul_one]
        split_ifs with h
        · rfl
        · rw [List.getD_eq_getElem?_getD, List.getElem?_eq_none (by omega)]
          rfl
      · rw [if_pos (show (i + 1) % 2 = 0 by omega), if_neg (by omega), mul_zero]
        rfl

end Polynomial

end Dhow.Qr
