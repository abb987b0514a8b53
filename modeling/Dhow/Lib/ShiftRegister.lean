import Mathlib.Data.List.GetD
import Mathlib.Logic.Function.Iterate

/-!
# Feedback shift registers

A register of `w` bits that shifts towards its low end. A bit enters by exclusive or with the low
bit, and the polynomial is added to the shifted register when the sum is one. The register is
linear in its content and the bits that enter, and it never forgets: with the top bit set in the
polynomial, two runs over bits that differ within `w` places end in different registers.
-/

namespace ShiftRegister
variable {w : ℕ} (poly : BitVec w)

/-- The register after one bit. -/
def feed (c : BitVec w) (bit : Bool) : BitVec w :=
  if c.getLsbD 0 ^^ bit then (c >>> 1) ^^^ poly else c >>> 1

/-- The register after a sequence of bits. -/
def run (c : BitVec w) (bits : List Bool) : BitVec w := bits.foldl (feed poly) c

/-- The register after `n` zeros. -/
def shifts (n : ℕ) (c : BitVec w) : BitVec w := (fun c => feed poly c false)^[n] c

/-- The bits of a sequence at the low end of a register, the first one lowest. -/
def word (w : ℕ) : List Bool → BitVec w
  | [] => 0
  | b :: bits => (word w bits <<< 1) ^^^ BitVec.setWidth w (BitVec.ofBool b)

variable {poly}

lemma getLsbD_feed (c : BitVec w) (bit : Bool) (i : ℕ) : (feed poly c bit).getLsbD i =
    (c.getLsbD (i + 1) ^^ ((c.getLsbD 0 ^^ bit) && poly.getLsbD i)) := by
  unfold feed
  split
  next h => rw [h, Bool.true_and, BitVec.getLsbD_xor, BitVec.getLsbD_ushiftRight, Nat.add_comm]
  next h =>
    rw [Bool.not_eq_true] at h
    rw [h, Bool.false_and, Bool.xor_false, BitVec.getLsbD_ushiftRight, Nat.add_comm]

/-! ### Linearity -/

lemma feed_xor (c d : BitVec w) (a b : Bool) :
    feed poly (c ^^^ d) (a ^^ b) = feed poly c a ^^^ feed poly d b := by
  apply BitVec.eq_of_getLsbD_eq
  intro i _
  rw [BitVec.getLsbD_xor, getLsbD_feed, getLsbD_feed, getLsbD_feed, BitVec.getLsbD_xor,
    BitVec.getLsbD_xor]
  cases poly.getLsbD i
  · simp
  · simp only [Bool.and_true, Bool.xor_left_comm, Bool.xor_assoc]

@[simp] lemma shifts_zero (c : BitVec w) : shifts poly 0 c = c := rfl

lemma shifts_succ (n : ℕ) (c : BitVec w) :
    shifts poly (n + 1) c = shifts poly n (feed poly c false) := rfl

lemma shifts_add (m n : ℕ) (c : BitVec w) :
    shifts poly (m + n) c = shifts poly m (shifts poly n c) :=
  Function.iterate_add_apply _ m n c

lemma shifts_xor (n : ℕ) (c d : BitVec w) :
    shifts poly n (c ^^^ d) = shifts poly n c ^^^ shifts poly n d := by
  induction n generalizing c d with
  | zero => rfl
  | succ n ih =>
    have h : feed poly (c ^^^ d) (false ^^ false) = _ := feed_xor c d false false
    rw [Bool.xor_false] at h
    rw [shifts_succ, h, ih, shifts_succ, shifts_succ]

/-- Zeros move a register down as long as its low bit stays clear. -/
lemma shifts_of_low {n : ℕ} {c : BitVec w} (h : ∀ i < n, c.getLsbD i = false) :
    shifts poly n c = c >>> n := by
  induction n generalizing c with
  | zero => rw [shifts_zero, BitVec.ushiftRight_zero]
  | succ n ih =>
    have hfeed : feed poly c false = c >>> 1 := by
      rw [feed, h 0 (Nat.succ_pos n)]
      rfl
    rw [shifts_succ, hfeed, ih, ← BitVec.shiftRight_add, Nat.add_comm]
    intro i hi
    rw [BitVec.getLsbD_ushiftRight]
    exact h (1 + i) (by omega)

@[simp] lemma shifts_of_zero (n : ℕ) : shifts poly n 0#w = 0#w := by
  rw [shifts_of_low fun i _ => BitVec.getLsbD_zero, BitVec.zero_ushiftRight]

/-- Zeros undo a shift up that lost nothing. -/
lemma shifts_shiftLeft {n : ℕ} {c : BitVec w} (h : ∀ i, w ≤ i + n → c.getLsbD i = false) :
    shifts poly n (c <<< n) = c := by
  rw [shifts_of_low]
  · apply BitVec.eq_of_getLsbD_eq
    intro i _
    rw [BitVec.getLsbD_ushiftRight, BitVec.getLsbD_shiftLeft, Nat.add_sub_cancel_left]
    by_cases hi : n + i < w
    · simp [hi]
    · rw [h i (by omega), Bool.and_false]
  · intro i hi
    simp [BitVec.getLsbD_shiftLeft, hi]

/-- The low bits and the rest of a register go their own ways. -/
lemma shifts_eq_xor {n : ℕ} {c low : BitVec w}
    (h : ∀ i, low.getLsbD i = (decide (i < n) && c.getLsbD i)) :
    shifts poly n c = shifts poly n low ^^^ (c >>> n) := by
  have hhigh : shifts poly n (c ^^^ low) = c >>> n := by
    rw [shifts_of_low]
    · apply BitVec.eq_of_getLsbD_eq
      intro i _
      rw [BitVec.getLsbD_ushiftRight, BitVec.getLsbD_ushiftRight, BitVec.getLsbD_xor, h,
        decide_eq_false (by omega), Bool.false_and, Bool.xor_false]
    · intro i hi
      rw [BitVec.getLsbD_xor, h, decide_eq_true hi, Bool.true_and, Bool.xor_self]
  rw [← hhigh, shifts_xor, BitVec.xor_comm (shifts poly n c), ← BitVec.xor_assoc, BitVec.xor_self,
    BitVec.zero_xor]

/-! ### Runs -/

@[simp] lemma run_nil (c : BitVec w) : run poly c [] = c := rfl

@[simp] lemma run_cons (c : BitVec w) (b : Bool) (bits : List Bool) :
    run poly c (b :: bits) = run poly (feed poly c b) bits := rfl

lemma run_append (c : BitVec w) (a b : List Bool) :
    run poly c (a ++ b) = run poly (run poly c a) b := List.foldl_append

lemma getLsbD_word (bits : List Bool) (i : ℕ) :
    (word w bits).getLsbD i = (decide (i < w) && bits.getD i false) := by
  induction bits generalizing i with
  | nil => simp [word]
  | cons b bits ih =>
    rw [word, BitVec.getLsbD_xor, BitVec.getLsbD_shiftLeft, BitVec.getLsbD_setWidth, ih]
    cases i with
    | zero => cases b <;> simp
    | succ i =>
      have hi : i + 1 < w → i < w := Nat.lt_of_succ_lt
      by_cases hw : i + 1 < w <;> simp [hw, hi]

/-- Bits that fit may all enter before the register moves. -/
lemma run_eq_shifts (c : BitVec w) {bits : List Bool} (h : bits.length ≤ w) :
    run poly c bits = shifts poly bits.length (c ^^^ word w bits) := by
  induction bits generalizing c with
  | nil => simp [word]
  | cons b bits ih =>
    rw [List.length_cons] at h
    have hrest : shifts poly 1 (word w bits <<< 1) = word w bits := by
      apply shifts_shiftLeft
      intro i hi
      rw [getLsbD_word, List.getD_eq_default _ _ (by omega), Bool.and_false]
    have hfirst : feed poly (c ^^^ BitVec.setWidth w (BitVec.ofBool b)) false = feed poly c b := by
      apply BitVec.eq_of_getLsbD_eq
      intro i hi
      simp [getLsbD_feed, show 0 < w by omega]
    have hxor : feed poly (c ^^^ BitVec.setWidth w (BitVec.ofBool b) ^^^ word w bits <<< 1)
        (false ^^ false) = _ := feed_xor _ _ false false
    change _ = _ ^^^ shifts poly 1 (word w bits <<< 1) at hxor
    rw [Bool.xor_false, hrest, hfirst] at hxor
    rw [run_cons, ih _ (by omega), List.length_cons, shifts_succ, word, ← hxor]
    congr 2
    ac_rfl

/-! ### Bursts -/

/-- The top bit tells what was fed back. -/
lemma getLsbD_feed_top (htop : poly.getLsbD (w - 1) = true) (c : BitVec w) (bit : Bool) :
    (feed poly c bit).getLsbD (w - 1) = (c.getLsbD 0 ^^ bit) := by
  rw [getLsbD_feed, htop, Bool.and_true, BitVec.getLsbD_of_ge c _ (by omega), Bool.false_xor]

/-- Two runs of at most `w` bits that end alike began in registers as different as the bits. -/
lemma getLsbD_xor_of_run_eq (htop : poly.getLsbD (w - 1) = true) {a b : List Bool}
    (hlen : a.length = b.length) (hw : a.length ≤ w) {c d : BitVec w}
    (h : run poly c a = run poly d b) {i : ℕ} (hi : i < w) :
    (c.getLsbD i ^^ a.getD i false) = (d.getLsbD i ^^ b.getD i false) := by
  induction a generalizing b c d i with
  | nil =>
    obtain rfl : b = [] := List.eq_nil_of_length_eq_zero hlen.symm
    rw [run_nil, run_nil] at h
    rw [h]
  | cons x a ih =>
    cases b with
    | nil => simp at hlen
    | cons y b =>
      rw [List.length_cons] at hw
      have hab : a.length = b.length := Nat.succ.inj hlen
      -- Neither rest reaches the top place, so there the registers agree.
      have hfed : (c.getLsbD 0 ^^ x) = (d.getLsbD 0 ^^ y) := by
        have hlast := ih hab (by omega) h (i := w - 1) (by omega)
        rwa [List.getD_eq_default _ _ (by omega), List.getD_eq_default _ _ (by omega),
          Bool.xor_false, Bool.xor_false, getLsbD_feed_top htop, getLsbD_feed_top htop] at hlast
      cases i with
      | zero => exact hfed
      | succ i =>
        have hnext := ih hab (by omega) h (i := i) (by omega)
        rw [getLsbD_feed, getLsbD_feed, hfed, Bool.xor_right_comm,
          Bool.xor_right_comm (d.getLsbD (i + 1)), Bool.xor_left_inj] at hnext
        exact hnext

/-- Bits that fit in the register are told by where they take it. -/
lemma eq_of_run_eq (htop : poly.getLsbD (w - 1) = true) {a b : List Bool}
    (hlen : a.length = b.length) (hw : a.length ≤ w) {c : BitVec w}
    (h : run poly c a = run poly c b) : a = b := by
  apply List.ext_getElem hlen
  intro i ha hb
  have hbit := getLsbD_xor_of_run_eq htop hlen hw h (i := i) (by omega)
  rwa [Bool.xor_right_inj, List.getD_eq_getElem _ _ ha, List.getD_eq_getElem _ _ hb] at hbit

lemma feed_injective (htop : poly.getLsbD (w - 1) = true) (bit : Bool) :
    Function.Injective fun c => feed poly c bit := by
  intro c d h
  apply BitVec.eq_of_getLsbD_eq
  intro i hi
  have hbit := getLsbD_xor_of_run_eq htop (a := [bit]) (b := [bit]) rfl
    (by rw [List.length_singleton]; omega) h hi
  rwa [Bool.xor_left_inj] at hbit

lemma run_injective (htop : poly.getLsbD (w - 1) = true) (bits : List Bool) :
    Function.Injective fun c => run poly c bits := by
  induction bits with
  | nil => exact Function.injective_id
  | cons b bits ih => exact ih.comp (feed_injective htop b)

/-- A burst of differences no longer than the register is seen at the end. -/
theorem eq_of_run_eq_of_burst (htop : poly.getLsbD (w - 1) = true) {a b : List Bool}
    (hlen : a.length = b.length) {start : ℕ}
    (hburst : ∀ i, a[i]? ≠ b[i]? → start ≤ i ∧ i < start + w) {c : BitVec w}
    (h : run poly c a = run poly c b) : a = b := by
  have hhead : a.take start = b.take start := by
    apply List.ext_getElem?
    intro i
    rw [List.getElem?_take, List.getElem?_take]
    split
    · by_contra hne
      have := hburst i hne
      omega
    · rfl
  have htail : (a.drop start).drop w = (b.drop start).drop w := by
    apply List.ext_getElem?
    intro i
    rw [List.drop_drop, List.drop_drop, List.getElem?_drop, List.getElem?_drop]
    by_contra hne
    have := hburst _ hne
    omega
  rw [← List.take_append_drop start a, ← List.take_append_drop start b, hhead, run_append,
    run_append, ← List.take_append_drop w (a.drop start), ← List.take_append_drop w (b.drop start),
    htail, run_append, run_append] at h
  have hmiddle : (a.drop start).take w = (b.drop start).take w :=
    eq_of_run_eq htop (by simp [hlen]) (List.length_take_le _ _) (run_injective htop _ h)
  rw [← List.take_append_drop start a, ← List.take_append_drop w (a.drop start), hhead, hmiddle,
    htail, List.take_append_drop, List.take_append_drop]

end ShiftRegister
