import Dhow.Lib.ReedSolomon

/-!
# Systematic encoding

The word whose roots are the first powers of an element, and the remainder of a message by it in a
shift register. A message with its remainder taken off is a word of the code.
-/

namespace ReedSolomon
variable {F : Type} [Field F]

/-- `a` times the second word taken from the first. -/
def subScaled (a : F) (v w : List F) : List F := List.zipWith (fun c d => c - a * d) v w

/-- The product of `X - α ^ i` for the `i` below `n`. -/
def generator (α : F) : ℕ → List F
  | 0 => [1]
  | n + 1 => subScaled (α ^ n) (generator α n ++ [0]) (0 :: generator α n)

/-- The register takes in one more symbol; `g` is the divisor without its leading one. -/
def shiftIn (g r : List F) (c : F) : List F := subScaled (c + r.headD 0) (r.tail ++ [0]) g

def remainder (g w : List F) : List F := w.foldl (shiftIn g) (List.replicate g.length 0)

/-- A message with its error correction. -/
def encode (α : F) (parity : ℕ) (w : List F) : List F :=
  w ++ (remainder (generator α parity).tail w).map Neg.neg

/-! ### Values -/

lemma value_concat (x : F) (w : List F) (c : F) : value x (w ++ [c]) = value x w * x + c := by
  rw [value, List.foldl_concat, ← value]

lemma value_append (x : F) (v w : List F) :
    value x (v ++ w) = value x v * x ^ w.length + value x w := by
  induction w using List.reverseRecOn with
  | nil =>
    rw [List.append_nil, List.length_nil, pow_zero, mul_one]
    exact (add_zero _).symm
  | append_singleton w c ih =>
    rw [← List.append_assoc, value_concat, value_concat, ih, List.length_append,
      List.length_singleton, pow_succ]
    ring

lemma value_cons (x c : F) (w : List F) : value x (c :: w) = c * x ^ w.length + value x w := by
  have h := value_append x [c] w
  have hone : value x [c] = c := by simp [value]
  rwa [hone] at h

lemma value_replicate_zero (x : F) (n : ℕ) : value x (List.replicate n 0) = 0 := by
  induction n with
  | zero => rfl
  | succ n ih => rw [List.replicate_succ, value_cons, ih, zero_mul, zero_add]

lemma length_subScaled {a : F} {v w : List F} (h : v.length = w.length) :
    (subScaled a v w).length = w.length := by
  rw [subScaled, List.length_zipWith, h, Nat.min_self]

lemma value_subScaled (x a : F) {v w : List F} (h : v.length = w.length) :
    value x (subScaled a v w) = value x v - a * value x w := by
  induction v generalizing w with
  | nil =>
    obtain rfl := List.eq_nil_of_length_eq_zero h.symm
    simp [subScaled, value]
  | cons c v ih =>
    cases w with
    | nil => cases h
    | cons d w =>
      have hlen := Nat.succ.inj h
      rw [subScaled, List.zipWith_cons_cons, ← subScaled, value_cons, value_cons, value_cons,
        ih hlen, length_subScaled hlen, hlen]
      ring

lemma value_neg (x : F) (w : List F) : value x (w.map Neg.neg) = -value x w := by
  induction w with
  | nil => simp [value]
  | cons c w ih =>
    rw [List.map_cons, value_cons, value_cons, ih, List.length_map]
    ring

/-! ### The generator -/

/-- The generator is monic, of degree `n`. -/
lemma generator_eq_cons (α : F) (n : ℕ) :
    generator α n = 1 :: (generator α n).tail ∧ (generator α n).tail.length = n := by
  induction n with
  | zero => exact ⟨rfl, rfl⟩
  | succ n ih =>
    obtain ⟨hcons, hlen⟩ := ih
    rw [generator]
    generalize (generator α n).tail = t at hcons hlen
    rw [hcons, List.cons_append, subScaled, List.zipWith_cons_cons, mul_zero, sub_zero]
    refine ⟨rfl, ?_⟩
    rw [List.tail_cons, List.length_zipWith]
    simp [hlen]

lemma value_generator (α : F) {j n : ℕ} (h : j < n) : value (α ^ j) (generator α n) = 0 := by
  induction n with
  | zero => omega
  | succ n ih =>
    rw [generator, value_subScaled _ _ (by simp), value_concat, value_cons, zero_mul, zero_add,
      add_zero]
    rcases Nat.lt_succ_iff_lt_or_eq.mp h with hlt | rfl
    · rw [ih hlt]
      ring
    · ring

/-! ### The register -/

variable {g r : List F}

lemma length_shiftIn (h : r.length = g.length) (c : F) : (shiftIn g r c).length = g.length := by
  cases r with
  | nil =>
    obtain rfl := List.eq_nil_of_length_eq_zero h.symm
    rfl
  | cons a r =>
    apply length_subScaled
    rw [List.tail_cons, List.length_append, List.length_singleton, ← h, List.length_cons]

/-- At a root of the divisor a register with one more symbol has the value of the message with it,
moved up by the degree. -/
lemma value_shiftIn {x : F} (hroot : value x (1 :: g) = 0) (h : r.length = g.length) (c : F) :
    value x (shiftIn g r c) = value x r * x + c * x ^ g.length := by
  rw [value_cons, one_mul] at hroot
  cases r with
  | nil =>
    obtain rfl := List.eq_nil_of_length_eq_zero h.symm
    simp [value] at hroot
  | cons a r =>
    have hlen : (r ++ [0]).length = g.length := by
      rw [← h, List.length_append, List.length_singleton, List.length_cons]
    rw [shiftIn, List.tail_cons, value_subScaled _ _ hlen, value_concat, List.headD_cons, value_cons,
      eq_neg_of_add_eq_zero_right hroot, ← h, List.length_cons, pow_succ]
    ring

lemma remainder_spec (g w : List F) : (remainder g w).length = g.length ∧
    ∀ x, value x (1 :: g) = 0 → value x (remainder g w) = value x w * x ^ g.length := by
  induction w using List.reverseRecOn with
  | nil =>
    refine ⟨List.length_replicate, fun x _ => ?_⟩
    rw [remainder, List.foldl_nil, value_replicate_zero]
    exact (zero_mul _).symm
  | append_singleton w c ih =>
    obtain ⟨hlen, hvalue⟩ := ih
    have hstep : remainder g (w ++ [c]) = shiftIn g (remainder g w) c := by
      rw [remainder, List.foldl_concat, ← remainder]
    rw [hstep]
    refine ⟨length_shiftIn hlen c, fun x hroot => ?_⟩
    rw [value_shiftIn hroot hlen, hvalue x hroot, value_concat]
    ring

lemma length_encode (α : F) (parity : ℕ) (w : List F) :
    (encode α parity w).length = w.length + parity := by
  rw [encode, List.length_append, List.length_map, (remainder_spec _ w).1,
    (generator_eq_cons α parity).2]

/-- What is encoded is a word of the code. -/
theorem isCodeword_encode (α : F) (parity : ℕ) (w : List F) :
    IsCodeword α parity (encode α parity w) := by
  intro j hj
  obtain ⟨hcons, hdegree⟩ := generator_eq_cons α parity
  have hroot := value_generator α hj
  rw [hcons] at hroot
  obtain ⟨hlen, hvalue⟩ := remainder_spec (generator α parity).tail w
  rw [encode, value_append, value_neg, hvalue _ hroot, List.length_map, hlen, add_neg_cancel]

end ReedSolomon
