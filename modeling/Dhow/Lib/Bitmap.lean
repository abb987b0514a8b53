import Dhow.Lib.Bytes
import Mathlib.Algebra.Order.BigOperators.Group.List
import Mathlib.Data.Nat.Bitwise
import Mathlib.Tactic.IntervalCases

/-!
# Bitmaps

A bitmap is a byte string read as one bit per index, the least significant bit of byte zero
being index zero. The laws below relate setting a bit, reading a bit, and counting the set
bits byte by byte.
-/

namespace Bitmap
open Bytes

/-- Bit `i`; false past the end. -/
def bit (bm : Str) (i : ℕ) : Bool := (u8At bm (i / 8)).toNat.testBit (i % 8)

/-- The byte with only bit `i % 8` set. -/
def mask (i : ℕ) : UInt8 := 1 <<< UInt8.ofNat (i % 8)

/-- Sets bit `i` of a bitmap long enough to hold it. -/
def set (bm : Str) (i : ℕ) : Str := bm.modify (i / 8) (· ||| mask i)

/-- The number of set bits of a byte. -/
def countOnes (b : UInt8) : ℕ := (List.range 8).countP (fun k => b.toNat.testBit k)

/-- The number of set bits, byte by byte. -/
def popcount (bm : Str) : ℕ := (bm.map countOnes).sum

/-! ### One byte -/

lemma toNat_mask (i : ℕ) : (mask i).toNat = 2 ^ (i % 8) := by
  have h : i % 8 < 8 := Nat.mod_lt _ (by omega)
  unfold mask
  generalize i % 8 = k at h
  interval_cases k <;> rfl

lemma and_mask_ne_zero_iff (b : UInt8) (i : ℕ) :
    b &&& mask i ≠ 0 ↔ b.toNat.testBit (i % 8) = true := by
  rw [ne_eq, ← UInt8.toNat_inj, UInt8.toNat_and, toNat_mask, UInt8.toNat_zero, Nat.and_two_pow]
  cases b.toNat.testBit (i % 8) <;> simp

lemma testBit_or_mask (b : UInt8) (i k : ℕ) :
    (b ||| mask i).toNat.testBit k = (b.toNat.testBit k || decide (i % 8 = k)) := by
  rw [UInt8.toNat_or, toNat_mask, Nat.testBit_lor, Nat.testBit_two_pow]

lemma testBit_eq_false_of_le (b : UInt8) {k : ℕ} (h : 8 ≤ k) : b.toNat.testBit k = false :=
  Nat.testBit_lt_two_pow (b.toNat_lt.trans_le (Nat.pow_le_pow_right (by omega) h))

@[simp] lemma countOnes_zero : countOnes 0 = 0 := by decide

lemma countOnes_or_mask (b : UInt8) (i : ℕ) (h : b.toNat.testBit (i % 8) = false) :
    countOnes (b ||| mask i) = countOnes b + 1 := by
  have hk : i % 8 < 8 := Nat.mod_lt _ (by omega)
  simp only [countOnes, testBit_or_mask]
  generalize i % 8 = k at h hk
  have hr : List.range 8 = [0, 1, 2, 3, 4, 5, 6, 7] := rfl
  rw [hr]
  interval_cases k <;> simp [List.countP_cons, h] <;> omega

lemma byte_ext {a b : UInt8} (h : ∀ k < 8, a.toNat.testBit k = b.toNat.testBit k) : a = b := by
  apply UInt8.toNat_inj.mp
  apply Nat.eq_of_testBit_eq
  intro k
  by_cases hk : k < 8
  · exact h k hk
  · rw [testBit_eq_false_of_le a (by omega), testBit_eq_false_of_le b (by omega)]

/-! ### Whole bitmaps -/

@[simp] lemma length_set (bm : Str) (i : ℕ) : (set bm i).length = bm.length := by simp [set]

lemma bit_eq_false_of_le {bm : Str} {i : ℕ} (h : 8 * bm.length ≤ i) : bit bm i = false := by
  have hi : bm.length ≤ i / 8 := by omega
  simp [bit, u8At, List.getD_eq_getElem?_getD, List.getElem?_eq_none hi]

@[simp] lemma bit_replicate_zero (n i : ℕ) : bit (List.replicate n 0) i = false := by
  simp only [bit, u8At, List.getD_eq_getElem?_getD, List.getElem?_replicate]
  split <;> simp

lemma u8At_set (bm : Str) {i : ℕ} (hi : i < 8 * bm.length) (n : ℕ) :
    u8At (set bm i) n = if i / 8 = n then u8At bm n ||| mask i else u8At bm n := by
  simp only [u8At, set, List.getD_eq_getElem?_getD, List.getElem?_modify]
  by_cases hn : i / 8 = n
  · have hlt : n < bm.length := by omega
    simp [hn, List.getElem?_eq_getElem hlt]
  · cases bm[n]? <;> simp [hn]

lemma bit_set {bm : Str} {i : ℕ} (hi : i < 8 * bm.length) (j : ℕ) :
    bit (set bm i) j = (bit bm j || decide (i = j)) := by
  rw [bit, u8At_set bm hi]
  by_cases hq : i / 8 = j / 8
  · have hij : i % 8 = j % 8 ↔ i = j := by omega
    simp only [hq, if_true, testBit_or_mask, bit, hij]
  · have hij : ¬i = j := by
      rintro rfl
      exact hq rfl
    simp [hq, hij, bit]

lemma popcount_set {bm : Str} {i : ℕ} (hi : i < 8 * bm.length) (h : bit bm i = false) :
    popcount (set bm i) = popcount bm + 1 := by
  have hb : (u8At bm (i / 8)).toNat.testBit (i % 8) = false := h
  have hlt : i / 8 < bm.length := by omega
  have key : ∀ (bs : Str) (n : ℕ), n < bs.length → (u8At bs n).toNat.testBit (i % 8) = false →
      popcount (bs.modify n (· ||| mask i)) = popcount bs + 1 := by
    intro bs
    induction bs with
    | nil => intro n hn; simp at hn
    | cons b bs ih =>
      intro n hn hbit
      cases n with
      | zero =>
        have := countOnes_or_mask b i hbit
        simp only [popcount, List.modify_zero_cons, List.map_cons, List.sum_cons, this]
        omega
      | succ n =>
        have := ih n (by simpa using hn) hbit
        simp only [popcount, List.modify_succ_cons, List.map_cons, List.sum_cons] at this ⊢
        omega
  exact key bm (i / 8) hlt hb

@[simp] lemma popcount_replicate_zero (n : ℕ) : popcount (List.replicate n 0) = 0 := by
  simp [popcount]

lemma countOnes_le (b : UInt8) : countOnes b ≤ 8 := List.countP_le_length

lemma countOnes_eq_eight_iff (b : UInt8) : countOnes b = 8 ↔ b = 0xFF := by
  constructor
  · intro h
    have hall : ∀ k ∈ List.range 8, b.toNat.testBit k = true := List.countP_eq_length.mp h
    apply byte_ext
    intro k hk
    rw [hall k (List.mem_range.mpr hk)]
    interval_cases k <;> rfl
  · rintro rfl
    decide

lemma popcount_le_length (bm : Str) : popcount bm ≤ 8 * bm.length := by
  induction bm with
  | nil => exact le_rfl
  | cons b bm ih =>
    have hb := countOnes_le b
    simp only [popcount, List.map_cons, List.sum_cons, List.length_cons] at ih ⊢
    omega

/-- Every bit is set where every byte is full. -/
lemma popcount_eq_iff (bm : Str) : popcount bm = 8 * bm.length ↔ ∀ b ∈ bm, b = 0xFF := by
  induction bm with
  | nil => exact ⟨fun _ => List.forall_mem_nil _, fun _ => rfl⟩
  | cons b bm ih =>
    have hb := countOnes_le b
    have hbm := popcount_le_length bm
    rw [List.forall_mem_cons, ← ih, ← countOnes_eq_eight_iff b]
    simp only [popcount, List.map_cons, List.sum_cons, List.length_cons] at hbm ⊢
    omega

lemma popcount_eq_countP (bm : Str) :
    popcount bm = (List.range (8 * bm.length)).countP (fun i => bit bm i) := by
  induction bm with
  | nil => rfl
  | cons b bs ih =>
    have hsplit : List.range (8 * (b :: bs).length) =
        List.range 8 ++ (List.range (8 * bs.length)).map (8 + ·) := by
      rw [List.length_cons, Nat.mul_succ, Nat.add_comm, List.range_add]
    have hhead : (List.range 8).countP (fun i => bit (b :: bs) i) = countOnes b := by
      apply List.countP_congr
      intro k hk
      have hk8 : k < 8 := List.mem_range.mp hk
      have h0 : k / 8 = 0 := by omega
      have h1 : k % 8 = k := by omega
      simp [bit, h0, h1]
    have htail : ∀ k, bit (b :: bs) (8 + k) = bit bs k := by
      intro k
      have h0 : (8 + k) / 8 = k / 8 + 1 := by omega
      have h1 : (8 + k) % 8 = k % 8 := by omega
      simp only [bit, h0, h1, u8At, List.getD_cons_succ]
    rw [hsplit, List.countP_append, hhead, List.countP_map]
    simp only [Function.comp_def, htail]
    rw [← ih]
    simp [popcount]

/-- A bitmap with no bit set at or beyond `n` has at most `n` bits set. -/
lemma popcount_le {bm : Str} {n : ℕ} (h : ∀ i, n ≤ i → bit bm i = false) : popcount bm ≤ n := by
  rw [popcount_eq_countP]
  have hmono : (List.range (8 * bm.length)).countP (fun i => bit bm i) ≤
      (List.range (8 * bm.length)).countP (fun i => decide (i < n)) := by
    apply List.countP_mono_left
    intro i _ hi
    by_contra hn
    rw [h i (by simpa using hn)] at hi
    exact Bool.noConfusion hi
  have hcount : ∀ m, (List.range m).countP (fun i => decide (i < n)) ≤ n := by
    intro m
    induction m with
    | zero => simp
    | succ m ih =>
      rw [List.range_succ, List.countP_append]
      by_cases hm : m < n
      · have hle := List.countP_le_length (p := fun i => decide (i < n)) (l := List.range m)
        simp only [List.length_range] at hle
        simp [hm]
        omega
      · simpa [hm] using ih
  exact hmono.trans (hcount _)

/-- Bitmaps of one length with the same bits are equal. -/
lemma ext {a b : Str} (hl : a.length = b.length) (h : ∀ i, bit a i = bit b i) : a = b := by
  apply List.ext_getElem hl
  intro n ha hb
  apply byte_ext
  intro k hk
  have hi := h (8 * n + k)
  have h0 : (8 * n + k) / 8 = n := by omega
  have h1 : (8 * n + k) % 8 = k := by omega
  simpa [bit, h0, h1, u8At, List.getD_eq_getElem?_getD, List.getElem?_eq_getElem ha,
    List.getElem?_eq_getElem hb] using hi

/-- The last byte of a bitmap of `n` bits has nothing past them. -/
lemma getLast_shiftRight_eq_zero {bm : Str} {n : ℕ} (hl : bm.length = (n + 7) / 8)
    (h : ∀ i, n ≤ i → bit bm i = false) (hn : n % 8 ≠ 0) {last : UInt8}
    (hlast : bm.getLast? = some last) : last.toNat >>> (n % 8) = 0 := by
  apply Nat.eq_of_testBit_eq
  intro j
  rw [Nat.testBit_shiftRight, Nat.zero_testBit]
  by_cases hj : n % 8 + j < 8
  · have hi := h (8 * (n / 8) + (n % 8 + j)) (by omega)
    have h0 : (8 * (n / 8) + (n % 8 + j)) / 8 = n / 8 := by omega
    have h1 : (8 * (n / 8) + (n % 8 + j)) % 8 = n % 8 + j := by omega
    have hlen : bm.length - 1 = n / 8 := by omega
    rw [List.getLast?_eq_getElem?, hlen] at hlast
    rwa [bit, h0, h1, u8At, List.getD_eq_getElem?_getD, hlast] at hi
  · exact testBit_eq_false_of_le _ (by omega)

/-- A bitmap of `n` bits with nothing past them in its last byte. -/
lemma bit_eq_false_of_getLast {bm : Str} {n : ℕ} (hl : bm.length = (n + 7) / 8)
    (h : ∀ last, bm.getLast? = some last → n % 8 ≠ 0 → last.toNat >>> (n % 8) = 0) {i : ℕ}
    (hi : n ≤ i) : bit bm i = false := by
  by_cases hin : 8 * bm.length ≤ i
  · exact bit_eq_false_of_le hin
  · have hn : n % 8 ≠ 0 := by omega
    have hlen : bm.length - 1 = i / 8 := by omega
    have hlt : i / 8 < bm.length := by omega
    have hlast : bm.getLast? = some (u8At bm (i / 8)) := by
      rw [List.getLast?_eq_getElem?, hlen, u8At, List.getD_eq_getElem?_getD,
        List.getElem?_eq_getElem hlt, Option.getD_some]
    have hz := congrArg (Nat.testBit · (i % 8 - n % 8)) (h _ hlast hn)
    rw [Nat.testBit_shiftRight, Nat.zero_testBit, Nat.add_sub_cancel' (by omega)] at hz
    exact hz

end Bitmap
