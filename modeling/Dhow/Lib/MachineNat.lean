import Dhow.Lib.Checked
import Mathlib.Algebra.Order.BigOperators.Group.List
import Mathlib.Algebra.Order.Ring.Nat

/-!
# Arithmetic that stops at an overflow

Naturals of a bounded width, as they are checked where overflow is not let through: what does not
fit stops the code.
-/

namespace MachineNat
open Checked

/-- What stops the code short, beside a panic of another kind. -/
inductive Fault (ε : Type)
  | overflow
  | error (e : ε)
  deriving DecidableEq

variable {ε α : Type} {m : ℕ}

/-- Addition of naturals below `m`. -/
def add (m a b : ℕ) : Checked (Fault ε) ℕ := if a + b < m then .ok (a + b) else fail .overflow

def sub (a b : ℕ) : Checked (Fault ε) ℕ := if b ≤ a then .ok (a - b) else fail .overflow

/-- A shift of `w` bits, which is not made by all of them. -/
def shiftRight (w a k : ℕ) : Checked (Fault ε) ℕ := if k < w then .ok (a >>> k) else fail .overflow

/-- A sum from the left. -/
def sum (m : ℕ) (f : α → ℕ) (xs : List α) : Checked (Fault ε) ℕ :=
  forEach (fun a s => add m s (f a)) xs 0

lemma add_eq {a b : ℕ} (h : a + b < m) : (add m a b : Checked (Fault ε) ℕ) = .ok (a + b) := if_pos h

lemma sub_eq {a b : ℕ} (h : b ≤ a) : (sub a b : Checked (Fault ε) ℕ) = .ok (a - b) := if_pos h

lemma shiftRight_eq {w a k : ℕ} (h : k < w) :
    (shiftRight w a k : Checked (Fault ε) ℕ) = .ok (a >>> k) := if_pos h

/-- A sum overflows where it does as a whole, since it only grows. -/
lemma sum_eq (f : α → ℕ) (xs : List α) (hm : 0 < m) : (sum m f xs : Checked (Fault ε) ℕ) =
    if (xs.map f).sum < m then .ok (xs.map f).sum else fail .overflow := by
  suffices h : ∀ s < m, (forEach (fun a s => add m s (f a)) xs s : Checked (Fault ε) ℕ) =
      if s + (xs.map f).sum < m then .ok (s + (xs.map f).sum) else fail .overflow by
    rw [sum, h 0 hm, Nat.zero_add]
  induction xs with
  | nil =>
    intro s hs
    rw [forEach, List.map_nil, List.sum_nil, Nat.add_zero, if_pos hs]
  | cons a xs ih =>
    intro s hs
    rw [forEach, List.map_cons, List.sum_cons, ← Nat.add_assoc]
    by_cases hadd : s + f a < m
    · rw [add_eq hadd, ok_bind, ih _ hadd]
    · rw [add, if_neg hadd, fail_bind, if_neg (by omega)]

end MachineNat
