import Dhow.Lib.Bytes
import Mathlib.Data.List.Sort
import Mathlib.Data.Nat.Digits.Lemmas

/-!
# Decimals of a least width

A number in decimal, with zeros before it up to a width, as `%0*d` prints it. Every number can be
read back from its text, and the numbers that fit in the width stand in the order of their texts.
-/

namespace Bytes

def digitByte (d : ℕ) : UInt8 := UInt8.ofNat (0x30 + d)

/-- The digits of a number, the highest first, with zeros before them up to a width. -/
def paddedDigits (width n : ℕ) : List ℕ := (Nat.digits 10 n).reverse.leftpad width 0

/-- What `%0*d` makes of a number, for a width that is not zero. -/
def paddedDecimal (width n : ℕ) : Str := (paddedDigits width n).map digitByte

lemma toNat_digitByte {d : ℕ} (h : d < 10) : (digitByte d).toNat = 0x30 + d := by
  rw [digitByte, UInt8.toNat_ofNat']
  omega

section Digits
variable {width m n d : ℕ}

lemma lt_ten_of_mem_paddedDigits (h : d ∈ paddedDigits width n) : d < 10 := by
  rw [paddedDigits, List.leftpad, List.mem_append, List.mem_reverse] at h
  rcases h with h | h
  · rw [List.eq_of_mem_replicate h]
    decide
  · exact Nat.digits_lt_base (by decide) h

/-- The number, read from its digits. -/
lemma ofDigits_paddedDigits (width n : ℕ) :
    Nat.ofDigits 10 (paddedDigits width n).reverse = n := by
  rw [paddedDigits, List.leftpad, List.reverse_append, List.reverse_reverse, List.reverse_replicate,
    Nat.ofDigits_append_replicate_zero, Nat.ofDigits_digits]

lemma length_paddedDigits (h : n < 10 ^ width) : (paddedDigits width n).length = width := by
  rw [paddedDigits, List.leftpad, List.length_append, List.length_replicate, List.length_reverse]
  exact Nat.sub_add_cancel ((Nat.digits_length_le_iff (by decide) n).mpr h)

/-- Of two lists of digits of one length, that of the smaller number is the smaller text, whatever
follows them. -/
lemma map_digitByte_append_lt {l l' : List ℕ} (hlen : l.length = l'.length)
    (hl : ∀ d ∈ l, d < 10) (hl' : ∀ d ∈ l', d < 10)
    (h : Nat.ofDigits 10 l.reverse < Nat.ofDigits 10 l'.reverse) (s t : Str) :
    l.map digitByte ++ s < l'.map digitByte ++ t := by
  induction l generalizing l' with
  | nil =>
    rw [List.length_eq_zero_iff.mp hlen.symm] at h
    exact absurd h (lt_irrefl _)
  | cons d l ih =>
    cases l' with
    | nil => cases hlen
    | cons d' l' =>
      obtain ⟨hd, hds⟩ := List.forall_mem_cons.mp hl
      obtain ⟨hd', hds'⟩ := List.forall_mem_cons.mp hl'
      have htail : l.length = l'.length := Nat.succ.inj hlen
      rw [List.reverse_cons, List.reverse_cons, Nat.ofDigits_append, Nat.ofDigits_append,
        Nat.ofDigits_singleton, Nat.ofDigits_singleton, List.length_reverse, List.length_reverse,
        htail] at h
      have hbound : Nat.ofDigits 10 l'.reverse < 10 ^ l'.length := by
        have hlt := Nat.ofDigits_lt_base_pow_length (by decide : 1 < 10)
          (l := l'.reverse) fun x hx => hds' x (List.mem_reverse.mp hx)
        rwa [List.length_reverse] at hlt
      rw [List.map_cons, List.map_cons, List.cons_append, List.cons_append,
        List.cons_lt_cons_iff, UInt8.lt_iff_toNat_lt, toNat_digitByte hd, toNat_digitByte hd']
      rcases lt_trichotomy d d' with hlt | rfl | hgt
      · exact .inl (by omega)
      · exact .inr ⟨rfl, ih htail hds hds' (by omega)⟩
      · have hle : 10 ^ l'.length * (d' + 1) ≤ 10 ^ l'.length * d := Nat.mul_le_mul_left _ hgt
        rw [Nat.mul_succ] at hle
        omega

/-- The numbers that fit in the width stand in the order of their texts, whatever follows them. -/
lemma paddedDecimal_append_lt (h : m < n) (hn : n < 10 ^ width) (s t : Str) :
    paddedDecimal width m ++ s < paddedDecimal width n ++ t := by
  apply map_digitByte_append_lt
  · rw [length_paddedDigits (h.trans hn), length_paddedDigits hn]
  · exact fun _ => lt_ten_of_mem_paddedDigits
  · exact fun _ => lt_ten_of_mem_paddedDigits
  · rwa [ofDigits_paddedDigits, ofDigits_paddedDigits]

end Digits

lemma paddedDecimal_injective (width : ℕ) : Function.Injective (paddedDecimal width) := by
  have hread : ∀ n, (paddedDecimal width n).map (fun b => b.toNat - 0x30) =
      paddedDigits width n := by
    intro n
    have hdigit : ∀ d ∈ paddedDigits width n, (digitByte d).toNat - 0x30 = d := by
      intro d hd
      rw [toNat_digitByte (lt_ten_of_mem_paddedDigits hd), Nat.add_sub_cancel_left]
    rw [paddedDecimal, List.map_map]
    exact (List.map_congr_left hdigit).trans (List.map_id _)
  intro m n h
  rw [← ofDigits_paddedDigits width m, ← hread, h, hread, ofDigits_paddedDigits]

end Bytes
