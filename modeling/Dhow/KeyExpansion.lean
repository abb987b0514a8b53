import Dhow.Encryption
import Mathlib.Algebra.Order.Floor.Div
import Mathlib.GroupTheory.GroupAction.Ring

/-!
# Key expansion

What `expand` derives is the output of HKDF as RFC 5869 has it, with the keyed hash for its
function.
-/

namespace Dhow
open Bytes

section
variable (b3 : Blake3) (prk : Arr 32) (info : Str)

/-- `T(i)` of the standard. -/
def okmBlock : ℕ → Str
  | 0 => []
  | i + 1 => (b3.keyedHash prk (okmBlock i ++ (info ++ [UInt8.ofNat (i + 1)]))).toList

/-- `T(1)` to `T(n)`, one after the other. -/
def okmBlocks (n : ℕ) : Str := (List.range n).flatMap fun i => okmBlock b3 prk info (i + 1)

lemma length_okmBlock_succ (i : ℕ) : (okmBlock b3 prk info (i + 1)).length = 32 :=
  List.Vector.toList_length _

lemma okmBlocks_succ (n : ℕ) : okmBlocks b3 prk info (n + 1) =
    okmBlocks b3 prk info n ++ okmBlock b3 prk info (n + 1) := by
  rw [okmBlocks, List.range_succ, List.flatMap_append, List.flatMap_singleton, okmBlocks]

lemma length_okmBlocks (n : ℕ) : (okmBlocks b3 prk info n).length = 32 * n := by
  induction n with
  | zero => rfl
  | succ n ih => rw [okmBlocks_succ, List.length_append, ih, length_okmBlock_succ, Nat.mul_succ]

/-- More blocks do not change what is taken, once there are enough. -/
lemma take_okmBlocks_add {outLen n : ℕ} (h : outLen ≤ 32 * n) (m : ℕ) :
    (okmBlocks b3 prk info (n + m)).take outLen = (okmBlocks b3 prk info n).take outLen := by
  induction m with
  | zero => rfl
  | succ m ih =>
    rw [← Nat.add_assoc, okmBlocks_succ, List.take_append_of_le_length, ih]
    rw [length_okmBlocks]
    omega

/-- What a pass of the loop adds to the output so far. -/
lemma take_okmBlocks_succ {outLen k : ℕ} (h : 32 * k < outLen) :
    (okmBlocks b3 prk info k).take outLen ++ (okmBlock b3 prk info (k + 1)).take
        (min (outLen - ((okmBlocks b3 prk info k).take outLen).length)
          (okmBlock b3 prk info (k + 1)).length) =
      (okmBlocks b3 prk info (k + 1)).take outLen := by
  rw [List.length_take, okmBlocks_succ, List.take_append, length_okmBlocks, Nat.min_eq_right h.le,
    ← List.take_take, List.take_length]

/-- After `k` passes the loop goes on as long as the output is not full. -/
lemma le_length_take_iff (outLen k : ℕ) :
    outLen ≤ ((okmBlocks b3 prk info k).take outLen).length ↔ outLen ≤ 32 * k := by
  rw [List.length_take, length_okmBlocks]
  omega

/-- After `k` passes the loop has what it needs of the first `k` blocks, and the last one of
them. -/
lemma expandFrom_eq (outLen m k : ℕ) :
    expandFrom b3 prk info outLen ((List.range' (k + 1) m).map UInt8.ofNat)
      (okmBlock b3 prk info k) ((okmBlocks b3 prk info k).take outLen) =
      (okmBlocks b3 prk info (k + m)).take outLen := by
  induction m generalizing k with
  | zero => rfl
  | succ m ih =>
    rw [List.range'_succ, List.map_cons, expandFrom]
    split_ifs with hfull
    · rw [le_length_take_iff] at hfull
      exact (take_okmBlocks_add b3 prk info hfull (m + 1)).symm
    · have hblock : (b3.keyedHash prk (okmBlock b3 prk info k ++
          (info ++ [UInt8.ofNat (k + 1)]))).toList = okmBlock b3 prk info (k + 1) := rfl
      rw [le_length_take_iff, not_le] at hfull
      dsimp only
      rw [hblock, take_okmBlocks_succ b3 prk info hfull, ih (k + 1), Nat.add_right_comm,
        Nat.add_assoc]

/-- The counters of the blocks that `expandFrom` computes. -/
def countersUsed (outLen : ℕ) : (counters previous okm : Str) → Str
  | [], _, _ => []
  | counter :: counters, previous, okm =>
    if outLen ≤ okm.length then []
    else
      let block := (b3.keyedHash prk (previous ++ (info ++ [counter]))).toList
      counter :: countersUsed outLen counters block
        (okm ++ block.take (min (outLen - okm.length) block.length))

/-- After `k` passes one counter is used for each block that is still to come. -/
lemma countersUsed_eq (outLen m k : ℕ) :
    countersUsed b3 prk info outLen ((List.range' (k + 1) m).map UInt8.ofNat)
      (okmBlock b3 prk info k) ((okmBlocks b3 prk info k).take outLen) =
      (List.range' (k + 1) (min m (outLen ⌈/⌉ 32 - k))).map UInt8.ofNat := by
  induction m generalizing k with
  | zero => rw [Nat.zero_min]; rfl
  | succ m ih =>
    rw [List.range'_succ, List.map_cons, countersUsed]
    split_ifs with hfull
    · rw [le_length_take_iff] at hfull
      have hdone : outLen ⌈/⌉ 32 - k = 0 := by
        rw [Nat.ceilDiv_eq_add_pred_div]
        omega
      rw [hdone, Nat.min_zero]
      rfl
    · have hblock : (b3.keyedHash prk (okmBlock b3 prk info k ++
          (info ++ [UInt8.ofNat (k + 1)]))).toList = okmBlock b3 prk info (k + 1) := rfl
      rw [le_length_take_iff, not_le] at hfull
      have hmore : min (m + 1) (outLen ⌈/⌉ 32 - k) = min m (outLen ⌈/⌉ 32 - (k + 1)) + 1 := by
        rw [Nat.ceilDiv_eq_add_pred_div]
        omega
      dsimp only
      rw [hblock, take_okmBlocks_succ b3 prk info hfull, ih (k + 1), hmore, List.range'_succ,
        List.map_cons]

end

lemma expand_eq_ok (b3 : Blake3) (prk : Arr 32) (info : Str) {outLen : ℕ} (hle : outLen ≤ 8160) :
    expand b3 prk info outLen = .ok ((okmBlocks b3 prk info 255).take outLen) := by
  have hmax : maxOkmLen = 8160 := rfl
  have hrun := expandFrom_eq b3 prk info outLen 255 0
  rw [show okmBlocks b3 prk info 0 = [] from rfl, List.take_nil, Nat.zero_add, Nat.zero_add] at hrun
  rw [expand, if_neg (by omega)]
  exact congrArg _ hrun

lemma expand_eq_error (b3 : Blake3) (prk : Arr 32) (info : Str) {outLen : ℕ} (hlt : 8160 < outLen) :
    ∃ e, expand b3 prk info outLen = .error e := by
  have hmax : maxOkmLen = 8160 := rfl
  rw [expand, if_pos (by omega)]
  exact ⟨_, rfl⟩

/-- The counters of the blocks are their numbers: none of them has wrapped. -/
lemma toNat_countersUsed (b3 : Blake3) (prk : Arr 32) (info : Str) {outLen : ℕ}
    (hle : outLen ≤ 8160) :
    (countersUsed b3 prk info outLen ((List.range' 1 255).map UInt8.ofNat) [] []).map UInt8.toNat =
      List.range' 1 (outLen ⌈/⌉ 32) := by
  have hblocks : outLen ⌈/⌉ 32 ≤ 255 := by
    rw [Nat.ceilDiv_eq_add_pred_div]
    omega
  have hused := countersUsed_eq b3 prk info outLen 255 0
  rw [show okmBlocks b3 prk info 0 = [] from rfl, List.take_nil, Nat.zero_add, Nat.sub_zero,
    Nat.min_eq_right hblocks] at hused
  rw [show countersUsed b3 prk info outLen ((List.range' 1 255).map UInt8.ofNat) [] [] =
    (List.range' 1 (outLen ⌈/⌉ 32)).map UInt8.ofNat from hused, List.map_map]
  refine (List.map_congr_left fun i hi => ?_).trans (List.map_id _)
  have hlt := (List.mem_range'_1.mp hi).2
  rw [Function.comp_apply, UInt8.toNat_ofNat', id_eq, Nat.mod_eq_of_lt (by omega)]

/-- Expansion fails exactly past 255 blocks, and otherwise it is that of RFC 5869: as many blocks as
the length takes, cut to it. The counters of these blocks are their numbers, and a shorter output
begins a longer one. -/
theorem expand_rfc5869 (b3 : Blake3) (prk : Arr 32) (info : Str) :
    (∀ outLen, (∃ e, expand b3 prk info outLen = .error e) ↔ 8160 < outLen) ∧
    (∀ outLen ≤ 8160, expand b3 prk info outLen =
        .ok ((okmBlocks b3 prk info (outLen ⌈/⌉ 32)).take outLen) ∧
      (countersUsed b3 prk info outLen ((List.range' 1 255).map UInt8.ofNat) [] []).map UInt8.toNat =
        List.range' 1 (outLen ⌈/⌉ 32)) ∧
    ∀ short long okm okm', short ≤ long → expand b3 prk info short = .ok okm →
      expand b3 prk info long = .ok okm' → okm <+: okm' := by
  refine ⟨fun outLen => ⟨fun he => ?_, expand_eq_error b3 prk info⟩,
    fun outLen hle => ⟨?_, toNat_countersUsed b3 prk info hle⟩,
    fun short long okm okm' hsl hshort hlong => ?_⟩
  · obtain ⟨e, he⟩ := he
    by_contra hle
    rw [expand_eq_ok b3 prk info (Nat.le_of_not_lt hle)] at he
    cases he
  · have hblocks : outLen ⌈/⌉ 32 + (255 - outLen ⌈/⌉ 32) = 255 := by
      rw [Nat.ceilDiv_eq_add_pred_div]
      omega
    have henough : outLen ≤ 32 * (outLen ⌈/⌉ 32) := by
      rw [Nat.ceilDiv_eq_add_pred_div]
      omega
    have htake := take_okmBlocks_add b3 prk info henough (255 - outLen ⌈/⌉ 32)
    rw [hblocks] at htake
    rw [expand_eq_ok b3 prk info hle, htake]
  · have hle : long ≤ 8160 := by
      by_contra hlt
      obtain ⟨e, he⟩ := expand_eq_error b3 prk info (Nat.lt_of_not_le hlt)
      rw [hlong] at he
      cases he
    rw [expand_eq_ok b3 prk info (hsl.trans hle), Except.ok.injEq] at hshort
    rw [expand_eq_ok b3 prk info hle, Except.ok.injEq] at hlong
    rw [← hshort, ← hlong]
    exact List.take_prefix_take_left hsl

end Dhow
