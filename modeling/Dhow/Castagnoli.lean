import Dhow.Crc32c
import Dhow.Lib.BitList
import Dhow.Lib.ShiftRegister

/-!
# CRC-32C, a bit at a time

The reflected Castagnoli register takes a byte string bit by bit. The slicing tables are what the
register does to a byte, so the fold over eight bytes at a time is the register from every start;
a string cut into chunks has the checksum of the whole, and a burst of at most 32 bits changes it.
-/

namespace Dhow
open Bytes

namespace Castagnoli

/-- The reflected polynomial. -/
def poly : BitVec 32 := 0x82F63B78

/-- The register after a byte string, a bit at a time. -/
def update (crc : UInt32) (data : Str) : UInt32 :=
  .ofBitVec (ShiftRegister.run poly crc.toBitVec (BitList.reflected data))

/-- The checksum: all ones at first, and inverted at the end. -/
def checksum (data : Str) : UInt32 := update 0xFFFFFFFF data ^^^ 0xFFFFFFFF

/-- Bit `i` of a byte string in the order it enters the register. -/
def bitAt (data : Str) (i : ℕ) : Bool := (u8At data (i / 8)).toNat.testBit (i % 8)

end Castagnoli

open ShiftRegister (feed run shifts)
open Castagnoli (poly)

/-! ### The tables -/

lemma toBitVec_crcShift (crc : UInt32) : (crcShift crc).toBitVec = feed poly crc.toBitVec false := by
  have hlow : crc &&& 1 ≠ 0 ↔ crc.toBitVec.getLsbD 0 = true := by
    rw [ne_eq, ← UInt32.toBitVec_inj, UInt32.toBitVec_and]
    change ¬(crc.toBitVec &&& 1#32 = 0#32) ↔ _
    rw [BitVec.and_one_eq_setWidth_ofBool_getLsbD]
    cases crc.toBitVec.getLsbD 0 <;> decide
  unfold crcShift feed
  rw [Bool.xor_false]
  by_cases h : crc.toBitVec.getLsbD 0 = true
  · rw [if_pos (hlow.mpr h), if_pos h, UInt32.toBitVec_xor]
    rfl
  · rw [if_neg (mt hlow.mp h), if_neg h]
    rfl

lemma toBitVec_makeTable (n : UInt32) : (makeTable n).toBitVec = shifts poly 8 n.toBitVec := by
  simp only [makeTable, toBitVec_crcShift, ShiftRegister.shifts_succ, ShiftRegister.shifts_zero]

/-- The low byte of a register goes through the table, the rest moves down. -/
lemma shifts_eight (c : BitVec 32) :
    shifts poly 8 c = shifts poly 8 (c &&& 0xFF#32) ^^^ (c >>> 8) := by
  apply ShiftRegister.shifts_eq_xor
  intro i
  have hmask : (0xFF#32).getLsbD i = decide (i < 8) := by
    rw [BitVec.getLsbD_ofNat, Nat.testBit_two_pow_sub_one (n := 8)]
    by_cases hi : i < 8 <;> simp [hi]
    omega
  rw [BitVec.getLsbD_and, hmask, Bool.and_comm]

lemma toBitVec_crcTable (k : ℕ) (n : UInt32) :
    (crcTable k n).toBitVec = shifts poly (8 * k + 8) n.toBitVec := by
  induction k with
  | zero => exact toBitVec_makeTable n
  | succ k ih =>
    have hsum : 8 * (k + 1) + 8 = 8 + (8 * k + 8) := by omega
    rw [hsum, ShiftRegister.shifts_add, ← ih, shifts_eight, BitVec.xor_comm, crcTable,
      UInt32.toBitVec_xor, toBitVec_makeTable]
    rfl

lemma toBitVec_foldByte (crc : UInt32) (byte : UInt8) : (foldByte crc byte).toBitVec =
    shifts poly 8 (crc.toBitVec ^^^ byte.toUInt32.toBitVec) := by
  have hbyte : byte.toUInt32.toBitVec >>> 8 = 0#32 := by
    apply BitVec.eq_of_toNat_eq
    rw [BitVec.toNat_ushiftRight, Nat.shiftRight_eq_div_pow]
    exact Nat.div_eq_of_lt byte.toNat_lt
  rw [shifts_eight, BitVec.ushiftRight_xor_distrib, hbyte, BitVec.xor_zero, foldByte,
    UInt32.toBitVec_xor, toBitVec_crcTable]
  rfl

/-! ### The fold -/

/-- A word of bytes may enter the register at once. -/
lemma run_reflected (c : BitVec 32) {s : Str} (h : s.length ≤ 4) :
    run poly c (BitList.reflected s) =
      shifts poly (8 * s.length) (c ^^^ BitVec.ofNat 32 (leDecode s)) := by
  have hlen := BitList.length_reflected s
  have hword : ShiftRegister.word 32 (BitList.reflected s) = BitVec.ofNat 32 (leDecode s) := by
    apply BitVec.eq_of_getLsbD_eq
    intro i hi
    rw [ShiftRegister.getLsbD_word, BitList.getD_reflected, BitVec.getLsbD_ofNat]
  rw [ShiftRegister.run_eq_shifts c (by omega), hword, hlen]

lemma toBitVec_foldl_foldByte (crc : UInt32) (data : Str) :
    (data.foldl foldByte crc).toBitVec = run poly crc.toBitVec (BitList.reflected data) := by
  induction data generalizing crc with
  | nil => rfl
  | cons b data ih =>
    have hbyte : b.toUInt32.toBitVec = BitVec.ofNat 32 (leDecode [b]) := by
      apply BitVec.eq_of_toNat_eq
      have hb := b.toNat_lt
      rw [BitVec.toNat_ofNat, leDecode, leDecode, Nat.mod_eq_of_lt (by omega)]
      rfl
    have hone : [b].length ≤ 4 := Nat.le_of_ble_eq_true rfl
    rw [List.foldl_cons, ih, toBitVec_foldByte, ← List.singleton_append, BitList.reflected_append,
      ShiftRegister.run_append, run_reflected _ hone, hbyte]
    rfl

/-- The first four bytes enter the register together, and each of the eight goes through the
table of its distance from the end. -/
lemma slices_eq (crc : UInt32) (b₀ b₁ b₂ b₃ b₄ b₅ b₆ b₇ : UInt8) :
    let c := crc ^^^ u32At [b₀, b₁, b₂, b₃] 0
    crcTable 7 (c &&& 0xFF) ^^^ crcTable 6 ((c >>> 8) &&& 0xFF) ^^^
        crcTable 5 ((c >>> 16) &&& 0xFF) ^^^ crcTable 4 ((c >>> 24) &&& 0xFF) ^^^
        crcTable 3 b₄.toUInt32 ^^^ crcTable 2 b₅.toUInt32 ^^^
        crcTable 1 b₆.toUInt32 ^^^ crcTable 0 b₇.toUInt32 =
      [b₀, b₁, b₂, b₃, b₄, b₅, b₆, b₇].foldl foldByte crc := by
  intro c
  apply UInt32.toBitVec_inj.mp
  have hfirst : ([b₀, b₁, b₂, b₃].foldl foldByte crc).toBitVec = shifts poly 32 c.toBitVec := by
    rw [toBitVec_foldl_foldByte, run_reflected _ (by simp)]
    rfl
  have hlast : [b₀, b₁, b₂, b₃, b₄, b₅, b₆, b₇].foldl foldByte crc =
      [b₄, b₅, b₆, b₇].foldl foldByte ([b₀, b₁, b₂, b₃].foldl foldByte crc) := by
    rw [← List.foldl_append]
    rfl
  have hsplit (n : ℕ) (x : BitVec 32) : shifts poly (n + 8) x =
      shifts poly (n + 8) (x &&& 0xFF#32) ^^^ shifts poly n (x >>> 8) := by
    rw [ShiftRegister.shifts_add, shifts_eight, ShiftRegister.shifts_xor,
      ← ShiftRegister.shifts_add]
  have hdown : shifts poly 64 c.toBitVec = shifts poly 64 (c.toBitVec &&& 0xFF#32) ^^^
      (shifts poly 56 (c.toBitVec >>> 8 &&& 0xFF#32) ^^^
        (shifts poly 48 (c.toBitVec >>> 16 &&& 0xFF#32) ^^^
          (shifts poly 40 (c.toBitVec >>> 24 &&& 0xFF#32) ^^^
            shifts poly 32 (c.toBitVec >>> 32)))) := by
    rw [hsplit 56, hsplit 48, hsplit 40, hsplit 32, ← BitVec.shiftRight_add,
      ← BitVec.shiftRight_add, ← BitVec.shiftRight_add]
  have hgone : c.toBitVec >>> 32 = 0#32 := by
    apply BitVec.eq_of_getLsbD_eq
    intro i _
    rw [BitVec.getLsbD_ushiftRight, BitVec.getLsbD_of_ge _ _ (Nat.le_add_right 32 i),
      BitVec.getLsbD_zero]
  rw [hlast]
  simp only [List.foldl_cons, List.foldl_nil, toBitVec_foldByte, UInt32.toBitVec_xor,
    toBitVec_crcTable] at hfirst ⊢
  rw [hfirst]
  simp only [ShiftRegister.shifts_xor, ← ShiftRegister.shifts_add]
  rw [hdown, hgone, ShiftRegister.shifts_of_zero, BitVec.xor_zero, ← BitVec.xor_assoc,
    ← BitVec.xor_assoc]
  rfl

lemma fold_eq_foldl (crc : UInt32) (data : Str) : fold crc data = data.foldl foldByte crc := by
  fun_induction fold crc data with
  | case1 crc b₀ b₁ b₂ b₃ b₄ b₅ b₆ b₇ rest c ih =>
    have hslices : _ = [b₀, b₁, b₂, b₃, b₄, b₅, b₆, b₇].foldl foldByte crc :=
      slices_eq crc b₀ b₁ b₂ b₃ b₄ b₅ b₆ b₇
    rw [ih, hslices, ← List.foldl_append]
    rfl
  | case2 crc rest => rfl

/-- The fold is the register, from every start. -/
lemma fold_eq_update (crc : UInt32) (data : Str) : fold crc data = Castagnoli.update crc data := by
  apply UInt32.toBitVec_inj.mp
  rw [fold_eq_foldl, toBitVec_foldl_foldByte]
  rfl

lemma fold_append (crc : UInt32) (a b : Str) : fold crc (a ++ b) = fold (fold crc a) b := by
  rw [fold_eq_foldl, fold_eq_foldl, fold_eq_foldl, List.foldl_append]

lemma crc32cDigest_eq_checksum (data : Str) : crc32cDigest data = Castagnoli.checksum data := by
  rw [crc32cDigest, fold_eq_update, Castagnoli.checksum]

/-! ### Chunks -/

namespace Crc32cHasher

/-- The inversion at the end of one chunk is undone at the start of the next. -/
lemma state_foldl_update (hasher : Crc32cHasher) (chunks : List Str) :
    (chunks.foldl update hasher).state = crc32cAppend hasher.state chunks.flatten := by
  induction chunks generalizing hasher with
  | nil =>
    rw [List.foldl_nil, List.flatten_nil, crc32cAppend, fold, List.foldl_nil, UInt32.xor_assoc,
      UInt32.xor_self, UInt32.xor_zero]
    rintro _ _ _ _ _ _ _ _ _ ⟨⟩
  | cons chunk chunks ih =>
    rw [List.foldl_cons, ih, List.flatten_cons, crc32cAppend, crc32cAppend, fold_append, update,
      crc32cAppend, UInt32.xor_assoc, UInt32.xor_self, UInt32.xor_zero]

lemma finalize_foldl_update (chunks : List Str) :
    (chunks.foldl update new).finalize = crc32cDigest chunks.flatten := by
  rw [finalize, state_foldl_update]
  rfl

end Crc32cHasher

/-- The sliced, the streaming and the bit-at-a-time checksum agree. -/
theorem crc32c_standard :
    (∀ crc data, fold crc data = Castagnoli.update crc data) ∧
      (∀ crc a b, fold (fold crc a) b = fold crc (a ++ b)) ∧
      (∀ data, crc32cDigest data = Castagnoli.checksum data) ∧
      ∀ chunks : List Str, crc32cDigest chunks.flatten = Castagnoli.checksum chunks.flatten ∧
        (chunks.foldl Crc32cHasher.update .new).finalize =
          Castagnoli.checksum chunks.flatten := by
  refine ⟨fold_eq_update, fun crc a b => (fold_append crc a b).symm, crc32cDigest_eq_checksum,
    fun chunks => ⟨crc32cDigest_eq_checksum _, ?_⟩⟩
  rw [Crc32cHasher.finalize_foldl_update, crc32cDigest_eq_checksum]

/-! ### Bursts -/

namespace Castagnoli

/-- The bits in which the strings differ lie within 32 consecutive ones. -/
def BitBurst (a b : Str) : Prop :=
  ∃ start, ∀ i, bitAt a i ≠ bitAt b i → start ≤ i ∧ i < start + 32

/-- The bytes in which the strings differ lie within four consecutive ones. -/
def ByteBurst (a b : Str) : Prop :=
  ∃ start, ∀ i, u8At a i ≠ u8At b i → start ≤ i ∧ i < start + 4

lemma ByteBurst.bitBurst {a b : Str} (h : ByteBurst a b) : BitBurst a b := by
  obtain ⟨start, h⟩ := h
  refine ⟨8 * start, fun i hi => ?_⟩
  have hbyte : u8At a (i / 8) ≠ u8At b (i / 8) := by
    intro he
    rw [bitAt, bitAt, he] at hi
    exact hi rfl
  have := h _ hbyte
  omega

lemma getD_reflected_eq_bitAt (s : Str) (i : ℕ) :
    (BitList.reflected s).getD i false = bitAt s i := by
  rw [BitList.getD_reflected, bitAt]
  induction s generalizing i with
  | nil => simp [leDecode, u8At]
  | cons b s ih =>
    have hbyte : b.toNat + 256 * leDecode s = 2 ^ 8 * leDecode s + b.toNat := by omega
    rw [leDecode, hbyte, Nat.testBit_two_pow_mul_add _ b.toNat_lt]
    split
    next hi => rw [Nat.div_eq_of_lt hi, Nat.mod_eq_of_lt hi, u8At_cons_zero]
    next hi =>
      have hdiv : i / 8 = (i - 8) / 8 + 1 := by omega
      have hmod : i % 8 = (i - 8) % 8 := by omega
      rw [ih, hdiv, hmod, u8At_cons_succ]

/-- A burst never leaves the register as it was. -/
lemma eq_of_update_eq {a b : Str} (hlen : a.length = b.length) (hburst : BitBurst a b)
    {crc : UInt32} (h : update crc a = update crc b) : a = b := by
  obtain ⟨start, hburst⟩ := hburst
  have hbits : (BitList.reflected a).length = (BitList.reflected b).length := by
    rw [BitList.length_reflected, BitList.length_reflected, hlen]
  apply BitList.reflected_injective
  have hrun : ShiftRegister.run poly _ (BitList.reflected a) =
      ShiftRegister.run poly _ (BitList.reflected b) := congrArg UInt32.toBitVec h
  refine ShiftRegister.eq_of_run_eq_of_burst rfl hbits (fun i hi => (?_ : start ≤ i ∧ _)) hrun
  apply hburst
  intro he
  rw [← getD_reflected_eq_bitAt, ← getD_reflected_eq_bitAt] at he
  apply hi
  by_cases hin : i < (BitList.reflected a).length
  · rw [List.getD_eq_getElem _ _ hin, List.getD_eq_getElem _ _ (hbits ▸ hin)] at he
    rw [List.getElem?_eq_getElem hin, List.getElem?_eq_getElem (hbits ▸ hin), he]
  · rw [List.getElem?_eq_none (by omega), List.getElem?_eq_none (by omega)]

end Castagnoli

lemma eq_of_crc32cDigest_eq {a b : Str} (hlen : a.length = b.length)
    (hburst : Castagnoli.BitBurst a b) (h : crc32cDigest a = crc32cDigest b) : a = b := by
  rw [crc32cDigest, crc32cDigest, fold_eq_update, fold_eq_update] at h
  exact Castagnoli.eq_of_update_eq hlen hburst ((UInt32.xor_left_inj _).mp h)

/-- A burst of at most 32 bits, or within four bytes, changes the checksum. -/
theorem crc32cDigest_ne_of_burst {a b : Str} (hlen : a.length = b.length) (hne : a ≠ b)
    (hburst : Castagnoli.BitBurst a b ∨ Castagnoli.ByteBurst a b) :
    crc32cDigest a ≠ crc32cDigest b := by
  intro h
  exact hne (eq_of_crc32cDigest_eq hlen (hburst.elim id Castagnoli.ByteBurst.bitBurst) h)

-- The last byte of three.
theorem crc32cDigest_ne_of_burst_last :
    crc32cDigest [0x44, 0x68, 0x6F] ≠ crc32cDigest [0x44, 0x68, 0x90] := by
  have hburst : Castagnoli.ByteBurst [0x44, 0x68, 0x6F] [0x44, 0x68, 0x90] := by
    refine ⟨0, fun i hi => ⟨Nat.zero_le i, ?_⟩⟩
    by_contra hge
    apply hi
    obtain ⟨j, rfl⟩ : ∃ j, i = j + 3 := ⟨i - 3, by omega⟩
    rfl
  exact crc32cDigest_ne_of_burst rfl (by decide) (.inr hburst)

end Dhow
