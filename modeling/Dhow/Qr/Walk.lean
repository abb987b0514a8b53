import Dhow.Lib.BitList
import Dhow.Qr.Modules

/-!
# The walk over the data modules

The codewords are read two columns at a time, up and down in turn from the right, with the mask
undone. What is read is the unmasked data modules in the order of the standard.
-/

namespace Dhow.Qr
open Bytes Checked

/-- Whether the mask inverts a module. -/
def maskBit (mask : ℕ) (x y : ℤ) : Bool :=
  match mask with
  | 0 => (x + y).tmod 2 = 0
  | 1 => y.tmod 2 = 0
  | 2 => x.tmod 3 = 0
  | 3 => (x + y).tmod 3 = 0
  | 4 => (x.tdiv 3 + y.tdiv 2).tmod 2 = 0
  | 5 => (x * y).tmod 2 + (x * y).tmod 3 = 0
  | 6 => ((x * y).tmod 2 + (x * y).tmod 3).tmod 2 = 0
  | 7 => ((x + y).tmod 2 + (x * y).tmod 3).tmod 2 = 0
  | _ => false

/-- The bytes so far and the bits of the next one. -/
structure Packing where
  out : Str
  current : UInt8
  bits : ℕ

namespace Packing

def push (s : Packing) (dark : Bool) : Packing :=
  let current := s.current <<< 1
  let current := if dark then current ||| 1 else current
  if s.bits + 1 = 8 then ⟨s.out ++ [current], 0, 0⟩ else ⟨s.out, current, s.bits + 1⟩

end Packing

/-- One module of the two columns `right` and `right - 1`. -/
def readModule (g : Grid) (fn : List Bool) (mask : ℕ) (size total right : ℤ) (vert j : ℕ)
    (s : Packing) : Checked QrError Packing := do
  let x := right - j
  let upward := (right + 1).toNat &&& 2 = 0
  let y := if upward then size - 1 - vert else vert
  let structural ← index fn (y * size + x)
  if structural ∨ s.out.length ≥ total then return s
  let dark ← g.darkAt x y
  return s.push (if maskBit mask x y then !dark else dark)

def readCodewords (g : Grid) (version : ℤ) (mask : ℕ) (total : ℤ) : Checked QrError Str := do
  let size := sizeForVersion version
  let fn ← functionModules version
  let out ← makeEmpty total
  let (_, s) ← whileLoop (fun s : ℤ × Packing => .ok (decide (s.1 ≥ 1)))
    (fun (right, s) => do
      let right := if right = 6 then 5 else right
      let s ← repeatFor (fun vert s =>
        repeatFor (readModule g fn mask size total right vert) s 2) s size.toNat
      return (right - 2, s))
    (size.toNat + 1) (size - 1, ⟨out, 0, 0⟩)
  return s.out ++ List.replicate (total - s.out.length).toNat 0

/-! ### The order of the standard -/

/-- Whether a mask of the standard inverts the module in column `p.1` of row `p.2`. -/
def inverts (mask : ℕ) (p : ℕ × ℕ) : Bool :=
  let i := p.2
  let j := p.1
  match mask with
  | 0 => (i + j) % 2 = 0
  | 1 => i % 2 = 0
  | 2 => j % 3 = 0
  | 3 => (i + j) % 3 = 0
  | 4 => (i / 2 + j / 3) % 2 = 0
  | 5 => i * j % 2 + i * j % 3 = 0
  | 6 => (i * j % 2 + i * j % 3) % 2 = 0
  | 7 => ((i + j) % 2 + i * j % 3) % 2 = 0
  | _ => false

def Grid.unmasked (g : Grid) (mask : ℕ) (p : ℕ × ℕ) : Bool := g.moduleAt p ^^ inverts mask p

/-- The right one of the pair `k` of columns, which are counted from the right without the timing
pattern. -/
def rightColumn (version k : ℕ) : ℕ :=
  if side version ≤ 2 * k + 7 then side version - 2 * k - 2 else side version - 2 * k - 1

def columnPair (version k : ℕ) : List (ℕ × ℕ) :=
  (List.range (side version)).flatMap fun vert => (List.range 2).map fun j =>
    (rightColumn version k - j, if k % 2 = 0 then side version - 1 - vert else vert)

/-- All modules but those of the timing pattern in column six. -/
def walk (version : ℕ) : List (ℕ × ℕ) :=
  (List.range (2 * version + 8)).flatMap (columnPair version)

/-- The data modules in the order that the bits of the codewords are placed in. -/
def dataModules (version : ℕ) : List (ℕ × ℕ) :=
  (walk version).filter fun p => ¬IsFunction version p.1 p.2

/-! ### One pass -/

lemma maskBit_eq (mask x y : ℕ) : maskBit mask x y = inverts mask (x, y) := by
  have hmod : ∀ a b : ℕ, (a : ℤ).tmod b = (a % b : ℕ) := fun a b => rfl
  have hdiv : ∀ a b : ℕ, (a : ℤ).tdiv b = (a / b : ℕ) := fun a b => rfl
  have h2 : (2 : ℤ) = (2 : ℕ) := rfl
  have h3 : (3 : ℤ) = (3 : ℕ) := rfl
  unfold maskBit inverts
  dsimp only
  rw [← Nat.cast_mul, ← Nat.cast_add, h2, h3, Nat.add_comm y x, Nat.mul_comm y x]
  simp only [hmod, hdiv, ← Nat.cast_add, Nat.cast_eq_zero, Nat.add_comm (y / 2)]

/-- A bit more, unless there are bytes enough. -/
def Packing.pushUpTo (total : ℕ) (s : Packing) (dark : Bool) : Packing :=
  if total ≤ s.out.length then s else s.push dark

/-- The function modules of the version, as the code has them. -/
def Marked (version : ℕ) (fn : List Bool) : Prop :=
  ∀ x < side version, ∀ y < side version,
    fn[y * side version + x]? = some (decide (IsFunction version x y))

section Pass
variable {g : Grid} {version mask total : ℕ} {fn : List Bool}

lemma and_two_eq_zero (n : ℕ) : n &&& 2 = 0 ↔ n / 2 % 2 = 0 := by
  have hhalf : (n &&& 2) / 2 = n / 2 % 2 := by rw [Nat.and_div_two, Nat.and_one_is_mod]
  have hlow : (n &&& 2) % 2 ≠ 1 := fun h => absurd (Nat.and_mod_two_eq_one.mp h).2 (by decide)
  omega

lemma rightColumn_pos {k : ℕ} (hk : k < 2 * version + 8) :
    1 ≤ rightColumn version k ∧ rightColumn version k < side version := by
  unfold rightColumn side
  split_ifs <;> omega

/-- The direction alternates from pair to pair. -/
lemma upward_iff {k : ℕ} (hk : k < 2 * version + 8) :
    ((rightColumn version k : ℤ) + 1).toNat &&& 2 = 0 ↔ k % 2 = 0 := by
  have hcast : ((rightColumn version k : ℤ) + 1).toNat = rightColumn version k + 1 := by omega
  rw [hcast, and_two_eq_zero]
  unfold rightColumn side
  split_ifs <;> omega

lemma readModule_eq (h : g.Square (side version)) (hfn : Marked version fn) {k vert j : ℕ}
    (hk : k < 2 * version + 8) (hvert : vert < side version) (hj : j < 2) (s : Packing) :
    readModule g fn mask (side version) total (rightColumn version k) vert j s =
      let p := (rightColumn version k - j, if k % 2 = 0 then side version - 1 - vert else vert)
      .ok (if IsFunction version p.1 p.2 then s else s.pushUpTo total (g.unmasked mask p)) := by
  obtain ⟨hpos, hlt⟩ := rightColumn_pos hk
  have hx : rightColumn version k - j < side version := by omega
  have hy : (if k % 2 = 0 then side version - 1 - vert else vert) < side version := by
    split_ifs <;> omega
  have hxcast : (rightColumn version k : ℤ) - j = (rightColumn version k - j : ℕ) := by omega
  have hycast : (if k % 2 = 0 then (side version : ℤ) - 1 - vert else vert) =
      ((if k % 2 = 0 then side version - 1 - vert else vert : ℕ) : ℤ) := by
    split_ifs <;> omega
  rw [readModule]
  simp only [upward_iff hk, hycast, hxcast]
  generalize rightColumn version k - j = x at hx ⊢
  generalize (if k % 2 = 0 then side version - 1 - vert else vert) = y at hy ⊢
  rw [index_eq (k := y * side version + x) (by push_cast; rfl) (hfn x hx y hy), ok_bind,
    h.darkAt_eq hx hy, maskBit_eq]
  unfold Packing.pushUpTo Grid.unmasked
  simp only [ok_bind, decide_eq_true_eq, ge_iff_le, Nat.cast_le]
  by_cases hf : IsFunction version x y
  · rw [if_pos (.inl hf), if_pos hf]
    rfl
  · rw [if_neg hf]
    by_cases hlen : total ≤ s.out.length
    · rw [if_pos (.inr hlen), if_pos hlen]
      rfl
    · rw [if_neg (not_or.mpr ⟨hf, hlen⟩), if_neg hlen]
      cases g.moduleAt (x, y) <;> cases inverts mask (x, y) <;> rfl

/-- A pass takes in the data modules of its two columns. -/
lemma pass_eq (h : g.Square (side version)) (hfn : Marked version fn) {k : ℕ}
    (hk : k < 2 * version + 8) (s : Packing) :
    repeatFor (fun vert s => repeatFor (readModule g fn mask (side version) total
      (rightColumn version k) vert) s 2) s (side version) =
    .ok ((((columnPair version k).filter fun p => ¬IsFunction version p.1 p.2).map
      (g.unmasked mask)).foldl (Packing.pushUpTo total) s) := by
  rw [List.foldl_map, ← forEach_ok, forEach_filter, columnPair, forEach_flatMap,
    repeatFor_eq_forEach]
  apply forEach_congr
  intro vert hvert s
  rw [forEach_map, repeatFor_eq_forEach]
  apply forEach_congr
  intro j hj s
  rw [readModule_eq h hfn hk (List.mem_range.mp hvert) (List.mem_range.mp hj)]
  dsimp only
  generalize rightColumn version k - j = x
  generalize (if k % 2 = 0 then side version - 1 - vert else vert) = y
  by_cases hf : IsFunction version x y
  · rw [if_pos hf, if_neg (by simp [hf])]
  · rw [if_neg hf, if_pos (by simp [hf])]

end Pass

/-! ### All passes -/

/-- The bytes hold the first bits, as many as they need, and the rest waits for its byte. -/
structure Packs (total : ℕ) (bits : List Bool) (s : Packing) : Prop where
  bits_lt : s.bits < 8
  current_lt : s.current.toNat < 2 ^ s.bits
  length_le : s.out.length ≤ total
  bits_eq : BitList.ofBytes s.out ++ BitList.ofNat s.bits s.current.toNat = bits.take (8 * total)

namespace Packs
variable {total : ℕ} {bits : List Bool} {s : Packing}

lemma start (total : ℕ) : Packs total [] ⟨[], 0, 0⟩ := by
  refine ⟨by decide, by decide, Nat.zero_le _, ?_⟩
  rw [List.take_nil]
  rfl

lemma toNat_shift_cases : ∀ n < 128, ∀ dark : Bool,
    (if dark then UInt8.ofNat n <<< 1 ||| 1 else UInt8.ofNat n <<< 1).toNat =
      2 * n + dark.toNat := by
  decide +kernel

lemma toNat_shift {current : UInt8} {n : ℕ} (h : current.toNat < 2 ^ n) (hn : n < 8) (dark : Bool) :
    (if dark then current <<< 1 ||| 1 else current <<< 1).toNat =
      2 * current.toNat + dark.toNat := by
  have hle : 2 ^ n ≤ 2 ^ 7 := Nat.pow_le_pow_right (by decide) (Nat.le_of_lt_succ hn)
  have hcases := toNat_shift_cases current.toNat (by omega) dark
  rwa [UInt8.ofNat_toNat] at hcases

lemma pushUpTo (h : Packs total bits s) (dark : Bool) :
    Packs total (bits ++ [dark]) (s.pushUpTo total dark) := by
  have hlen := congrArg List.length h.bits_eq
  rw [List.length_append, BitList.length_ofBytes, BitList.length_ofNat, List.length_take] at hlen
  have hbits := h.bits_lt
  have hle := h.length_le
  rw [Packing.pushUpTo]
  split_ifs with hfull
  · refine ⟨h.bits_lt, h.current_lt, h.length_le, ?_⟩
    rw [h.bits_eq, List.take_append_of_le_length (by omega)]
  · have hcurrent := toNat_shift h.current_lt hbits dark
    have hnew : BitList.ofBytes s.out ++ BitList.ofNat (s.bits + 1)
        (if dark then s.current <<< 1 ||| 1 else s.current <<< 1).toNat =
        (bits ++ [dark]).take (8 * total) := by
      rw [hcurrent, ← BitList.ofNat_concat, ← List.append_assoc, h.bits_eq,
        List.take_of_length_le (by omega), List.take_of_length_le (by simp; omega)]
    rw [Packing.push]
    generalize (if dark then s.current <<< 1 ||| 1 else s.current <<< 1) = next at hcurrent hnew ⊢
    by_cases h8 : s.bits + 1 = 8
    · rw [if_pos h8]
      refine ⟨by dsimp only; omega, Nat.one_pos, ?_, ?_⟩
      · rw [List.length_append, List.length_singleton]
        omega
      · rw [← hnew, h8, BitList.ofBytes_append, BitList.ofBytes_cons, BitList.ofBytes_nil,
          List.append_nil]
        exact List.append_nil _
    · rw [if_neg h8]
      refine ⟨show s.bits + 1 < 8 by omega, ?_, h.length_le, hnew⟩
      have hd := dark.toNat_le
      have hlt := h.current_lt
      rw [hcurrent, pow_succ]
      omega

lemma foldl (h : Packs total bits s) (more : List Bool) :
    Packs total (bits ++ more) (more.foldl (Packing.pushUpTo total) s) := by
  induction more generalizing bits s with
  | nil => rwa [List.append_nil]
  | cons dark more ih =>
    have hrest := ih (h.pushUpTo dark)
    rwa [List.append_assoc] at hrest

end Packs

/-- The walk after `k` pairs of columns. -/
def walked (version k : ℕ) : List (ℕ × ℕ) :=
  ((List.range k).flatMap (columnPair version)).filter fun p => ¬IsFunction version p.1 p.2

lemma walked_succ (version k : ℕ) : walked version (k + 1) = walked version k ++
    (columnPair version k).filter fun p => ¬IsFunction version p.1 p.2 := by
  rw [walked, List.range_succ, List.flatMap_append, List.filter_append, List.flatMap_singleton,
    walked]

/-- The right column before the step over the timing pattern. -/
def nextColumn (version k : ℕ) : ℤ :=
  if side version < 2 * k + 7 then (side version : ℤ) - 2 * k - 2 else side version - 2 * k - 1

lemma nextColumn_skip (version k : ℕ) : (if nextColumn version k = 6 then 5 else nextColumn version k) =
    if side version ≤ 2 * k + 7 then (side version : ℤ) - 2 * k - 2 else side version - 2 * k - 1 := by
  unfold nextColumn side
  split_ifs <;> omega

/-- The codewords are the unmasked data modules in order, as far as there are modules. -/
lemma Grid.Square.gives_readCodewords {g : Grid} {version : ℕ} (h : g.Square (side version))
    (h1 : 1 ≤ version) (h40 : version ≤ 40) (mask : ℕ) {total : ℕ}
    (htotal : 8 * total ≤ (dataModules version).length) :
    Gives (fun out => out.length = total ∧
        BitList.ofBytes out = ((dataModules version).map (g.unmasked mask)).take (8 * total))
      (readCodewords g version mask total) := by
  have hsize : sizeForVersion version = (side version : ℕ) := by
    unfold sizeForVersion side
    omega
  rw [readCodewords, hsize]
  refine Gives.bind (gives_functionModules h1 h40) fun fn hfn => ?_
  rw [makeEmpty, if_pos (Int.natCast_nonneg _), ok_bind, Int.toNat_natCast]
  refine Gives.bind (P := fun s : ℤ × Packing =>
    Packs total ((dataModules version).map (g.unmasked mask)) s.2) ?_ ?_
  · apply ends_whileLoop (fun s : ℤ × Packing => ∃ k ≤ 2 * version + 8,
      s.1 = nextColumn version k ∧ Packs total ((walked version k).map (g.unmasked mask)) s.2)
      (fun s => (s.1 + 1).toNat)
    · rintro ⟨right, s⟩ ⟨k, hk, hright, hs⟩
      dsimp only at hright hs ⊢
      refine .ok ?_
      by_cases hgo : right ≥ 1
      · rw [if_pos (decide_eq_true hgo)]
        have hlt : k < 2 * version + 8 := by
          unfold nextColumn side at hright
          split_ifs at hright <;> omega
        have hcolumn : (if right = 6 then 5 else right) = (rightColumn version k : ℤ) := by
          rw [hright, nextColumn_skip]
          unfold rightColumn side
          split_ifs <;> omega
        rw [hcolumn, pass_eq h hfn hlt, ok_bind]
        refine .ok ⟨⟨k + 1, hlt, ?_, ?_⟩, ?_⟩
        · unfold rightColumn nextColumn side
          split_ifs <;> omega
        · rw [walked_succ, List.map_append]
          exact hs.foldl _
        · dsimp only
          rw [← hcolumn]
          split_ifs <;> omega
      · rw [if_neg (by simpa using hgo)]
        have hlast : k = 2 * version + 8 := by
          unfold nextColumn side at hright
          split_ifs at hright <;> omega
        rw [hlast] at hs
        exact hs
    · refine ⟨0, Nat.zero_le _, ?_, Packs.start total⟩
      unfold nextColumn side
      split_ifs <;> omega
    · dsimp only
      omega
  · rintro ⟨right, s⟩ hs
    have hlen := congrArg List.length hs.bits_eq
    rw [List.length_append, BitList.length_ofBytes, BitList.length_ofNat, List.length_take,
      List.length_map, Nat.min_eq_left htotal] at hlen
    have hbits := hs.bits_lt
    have hle := hs.length_le
    dsimp only at hlen hbits hle ⊢
    have hout : s.out.length = total := by omega
    have hzero : s.bits = 0 := by omega
    have hpad : (total - s.out.length : ℤ).toNat = 0 := by omega
    rw [hpad, List.replicate_zero, List.append_nil]
    refine .ok ⟨hout, ?_⟩
    rw [← hs.bits_eq, hzero]
    exact (List.append_nil _).symm

end Dhow.Qr
