import Dhow.Lib.Bytes
import Mathlib.Algebra.Group.Nat.Defs
import Mathlib.Data.List.GetD
import Mathlib.Data.List.Induction

/-!
# Bits in the order of their weight

Numbers and byte strings as lists of bits, the highest first, and byte strings with every byte
reflected.
-/

namespace BitList
open Bytes

/-- The lowest `w` bits of a number. -/
def ofNat : ℕ → ℕ → List Bool
  | 0, _ => []
  | w + 1, n => ofNat w (n / 2) ++ [n.testBit 0]

def toNat (bits : List Bool) : ℕ := bits.foldl (fun n b => 2 * n + b.toNat) 0

def ofBytes (s : Str) : List Bool := s.flatMap fun b => ofNat 8 b.toNat

@[simp] lemma length_ofNat (w n : ℕ) : (ofNat w n).length = w := by
  induction w generalizing n with
  | zero => rfl
  | succ w ih => rw [ofNat, List.length_append, ih, List.length_singleton]

lemma toNat_concat (bits : List Bool) (b : Bool) :
    toNat (bits ++ [b]) = 2 * toNat bits + b.toNat := by
  rw [toNat, List.foldl_append]
  rfl

lemma toNat_lt (bits : List Bool) : toNat bits < 2 ^ bits.length := by
  induction bits using List.reverseRecOn with
  | nil => exact Nat.one_pos
  | append_singleton bits b ih =>
    rw [toNat_concat, List.length_append, List.length_singleton, pow_succ]
    have hb := b.toNat_le
    omega

lemma toNat_ofNat {w n : ℕ} (h : n < 2 ^ w) : toNat (ofNat w n) = n := by
  induction w generalizing n with
  | zero =>
    obtain rfl : n = 0 := by omega
    rfl
  | succ w ih =>
    rw [pow_succ] at h
    rw [ofNat, toNat_concat, ih (by omega), Nat.testBit_zero]
    rcases Nat.mod_two_eq_zero_or_one n with hn | hn
    · simp only [hn, Nat.zero_ne_one, decide_false, Bool.toNat_false]
      omega
    · simp only [hn, decide_true, Bool.toNat_true]
      omega

lemma ofNat_inj {w m n : ℕ} (hm : m < 2 ^ w) (hn : n < 2 ^ w) (h : ofNat w m = ofNat w n) :
    m = n := by
  rw [← toNat_ofNat hm, h, toNat_ofNat hn]

lemma ofNat_toNat (bits : List Bool) : ofNat bits.length (toNat bits) = bits := by
  induction bits using List.reverseRecOn with
  | nil => rfl
  | append_singleton bits b ih =>
    rw [toNat_concat, List.length_append, List.length_singleton, ofNat]
    have hb := b.toNat_le
    have hhalf : (2 * toNat bits + b.toNat) / 2 = toNat bits := by omega
    rw [hhalf, ih, Nat.testBit_zero]
    cases b <;> simp

lemma ofNat_concat {w n : ℕ} (b : Bool) : ofNat w n ++ [b] = ofNat (w + 1) (2 * n + b.toNat) := by
  have hb := b.toNat_le
  have hhalf : (2 * n + b.toNat) / 2 = n := by omega
  rw [ofNat, hhalf, Nat.testBit_zero]
  cases b <;> simp

lemma getElem?_ofNat {w n i : ℕ} (h : i < w) : (ofNat w n)[i]? = some (n.testBit (w - 1 - i)) := by
  induction w generalizing n i with
  | zero => omega
  | succ w ih =>
    rw [ofNat]
    rcases Nat.lt_succ_iff_lt_or_eq.mp h with hi | rfl
    · rw [List.getElem?_append_left (by simpa using hi), ih hi, Nat.testBit_div_two]
      congr 2
      omega
    · rw [List.getElem?_append_right (by simp)]
      simp

/-! ### Bytes -/

@[simp] lemma ofBytes_nil : ofBytes [] = [] := rfl

@[simp] lemma ofBytes_cons (b : UInt8) (s : Str) : ofBytes (b :: s) = ofNat 8 b.toNat ++ ofBytes s :=
  rfl

@[simp] lemma ofBytes_append (s t : Str) : ofBytes (s ++ t) = ofBytes s ++ ofBytes t :=
  List.flatMap_append

@[simp] lemma length_ofBytes (s : Str) : (ofBytes s).length = 8 * s.length := by
  induction s with
  | nil => rfl
  | cons b s ih =>
    rw [ofBytes_cons, List.length_append, ih, length_ofNat, List.length_cons]
    omega

lemma ofBytes_injective : Function.Injective ofBytes := by
  intro s t h
  induction s generalizing t with
  | nil =>
    cases t with
    | nil => rfl
    | cons c t =>
      have hlen := congrArg List.length h
      rw [length_ofBytes, length_ofBytes, List.length_cons, List.length_nil] at hlen
      omega
  | cons b s ih =>
    cases t with
    | nil =>
      have hlen := congrArg List.length h
      rw [length_ofBytes, length_ofBytes, List.length_cons, List.length_nil] at hlen
      omega
    | cons c t =>
      obtain ⟨hbyte, hrest⟩ := List.append_inj h (by rw [length_ofNat, length_ofNat])
      have hn := congrArg toNat hbyte
      rw [toNat_ofNat b.toNat_lt, toNat_ofNat c.toNat_lt] at hn
      rw [UInt8.toNat_inj.mp hn, ih hrest]

lemma drop_ofBytes (s : Str) (k : ℕ) : (ofBytes s).drop (8 * k) = ofBytes (s.drop k) := by
  induction k generalizing s with
  | zero => rfl
  | succ k ih =>
    cases s with
    | nil => simp
    | cons b s =>
      rw [ofBytes_cons, List.drop_succ_cons, ← ih s, Nat.mul_succ, Nat.add_comm, List.drop_append,
        length_ofNat, Nat.add_sub_cancel_left, List.drop_of_length_le (by simp), List.nil_append]

lemma getElem?_ofBytes {s : Str} {k i : ℕ} (hi : i < 8) {b : UInt8} (hb : s[k]? = some b) :
    (ofBytes s)[8 * k + i]? = some (b.toNat.testBit (7 - i)) := by
  have hdrop : (ofBytes s)[8 * k + i]? = ((ofBytes s).drop (8 * k))[i]? := by
    rw [List.getElem?_drop]
  obtain ⟨hk, rfl⟩ := List.getElem?_eq_some_iff.mp hb
  rw [hdrop, drop_ofBytes, List.drop_eq_getElem_cons hk, ofBytes_cons,
    List.getElem?_append_left (by simpa using hi), getElem?_ofNat hi]

/-- The whole bytes that the bits make up. -/
def toBytes (bits : List Bool) : Str :=
  (List.range (bits.length / 8)).map fun k => UInt8.ofNat (toNat ((bits.drop (8 * k)).take 8))

@[simp] lemma length_toBytes (bits : List Bool) : (toBytes bits).length = bits.length / 8 := by
  rw [toBytes, List.length_map, List.length_range]

/-- The bits of a byte. -/
lemma take_drop_ofBytes {s : Str} {k : ℕ} {b : UInt8} (hb : s[k]? = some b) :
    ((ofBytes s).drop (8 * k)).take 8 = ofNat 8 b.toNat := by
  obtain ⟨hk, rfl⟩ := List.getElem?_eq_some_iff.mp hb
  rw [drop_ofBytes, List.drop_eq_getElem_cons hk, ofBytes_cons,
    List.take_append_of_le_length (by rw [length_ofNat]), List.take_of_length_le (by simp)]

lemma ofBytes_toBytes {bits : List Bool} (h : 8 ∣ bits.length) : ofBytes (toBytes bits) = bits := by
  obtain ⟨n, hn⟩ := h
  induction n generalizing bits with
  | zero =>
    obtain rfl := List.eq_nil_of_length_eq_zero hn
    rfl
  | succ n ih =>
    have hfirst : (bits.take 8).length = 8 := by
      rw [List.length_take]
      omega
    have hdrop : (bits.drop 8).length = 8 * n := by
      rw [List.length_drop]
      omega
    have hlt := toNat_lt (bits.take 8)
    have hbyte := ofNat_toNat (bits.take 8)
    rw [hfirst] at hlt hbyte
    have hsplit : toBytes bits = UInt8.ofNat (toNat (bits.take 8)) :: toBytes (bits.drop 8) := by
      rw [toBytes, toBytes, hn, hdrop, Nat.mul_div_cancel_left _ (by decide),
        Nat.mul_div_cancel_left _ (by decide), List.range_succ_eq_map, List.map_cons, List.map_map]
      congr 1
      apply List.map_congr_left
      intro k _
      rw [Function.comp_apply, List.drop_drop, Nat.mul_succ, Nat.add_comm]
    rw [hsplit, ofBytes_cons, ih hdrop, UInt8.toNat_ofNat_of_lt' hlt, hbyte, List.take_append_drop]

/-! ### Reflected bytes -/

/-- The bits of a byte string, every byte with its lowest bit first. -/
def reflected (s : Str) : List Bool := s.flatMap fun b => (List.range 8).map b.toNat.testBit

@[simp] lemma reflected_nil : reflected [] = [] := rfl

lemma reflected_cons (b : UInt8) (s : Str) :
    reflected (b :: s) = (List.range 8).map b.toNat.testBit ++ reflected s := rfl

@[simp] lemma reflected_append (s t : Str) : reflected (s ++ t) = reflected s ++ reflected t :=
  List.flatMap_append

@[simp] lemma length_reflected (s : Str) : (reflected s).length = 8 * s.length := by
  induction s with
  | nil => rfl
  | cons b s ih =>
    rw [reflected_cons, List.length_append, ih, List.length_map, List.length_range,
      List.length_cons]
    omega

/-- They are the bits of the little-endian number. -/
lemma getD_reflected (s : Str) (i : ℕ) : (reflected s).getD i false = (leDecode s).testBit i := by
  induction s generalizing i with
  | nil => simp [leDecode]
  | cons b s ih =>
    have hbyte : b.toNat + 256 * leDecode s = 2 ^ 8 * leDecode s + b.toNat := by omega
    rw [reflected_cons, leDecode, hbyte, Nat.testBit_two_pow_mul_add _ b.toNat_lt]
    split
    next hi => rw [List.getD_append _ _ _ _ (by simpa using hi)]; simp [hi]
    next hi => rw [List.getD_append_right _ _ _ _ (by simpa using hi), ih]; simp

lemma reflected_injective : Function.Injective reflected := by
  intro s t h
  have hlen := congrArg List.length h
  rw [length_reflected, length_reflected] at hlen
  have hnum : leDecode s = leDecode t := by
    apply Nat.eq_of_testBit_eq
    intro i
    rw [← getD_reflected, ← getD_reflected, h]
  have hst : s.length = t.length := by omega
  rw [← leEncode_leDecode s, ← leEncode_leDecode t, hnum, hst]

end BitList
