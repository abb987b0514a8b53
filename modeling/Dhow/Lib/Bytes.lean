import Mathlib.Data.Vector.Basic
import Mathlib.Tactic.Ring

/-!
# Byte strings

Byte strings are lists of `UInt8`. This file has the fixed-width little-endian encoding of
naturals, the reads a parser makes at fixed offsets (`u8At`, `natAt`, `arrAt`) and the laws
that turn a serialization followed by such a read back into the field: a read is total, and
is exact below a length check.
-/

namespace Bytes

/-- A byte string. -/
abbrev Str := List UInt8

/-- A fixed-width byte array. -/
abbrev Arr (n : ℕ) := List.Vector UInt8 n

/-- The all-zero array. -/
def zeros (n : ℕ) : Arr n := List.Vector.replicate n 0

/-! ### Little-endian naturals -/

/-- The `w` little-endian bytes of `n`; what does not fit is dropped. -/
def leEncode : ℕ → ℕ → Str
  | 0, _ => []
  | w + 1, n => UInt8.ofNat (n % 256) :: leEncode w (n / 256)

/-- The natural with the given little-endian bytes. -/
def leDecode : Str → ℕ
  | [] => 0
  | b :: bs => b.toNat + 256 * leDecode bs

@[simp] lemma length_leEncode (w n : ℕ) : (leEncode w n).length = w := by
  induction w generalizing n with
  | zero => rfl
  | succ w ih => simp [leEncode, ih]

lemma leDecode_leEncode (w n : ℕ) : leDecode (leEncode w n) = n % 256 ^ w := by
  induction w generalizing n with
  | zero => simp [leEncode, leDecode, Nat.mod_one]
  | succ w ih =>
    have hb : (UInt8.ofNat (n % 256)).toNat = n % 256 := by
      rw [UInt8.toNat_ofNat']
      omega
    rw [leEncode, leDecode, hb, ih, pow_succ', Nat.mod_mul]

lemma leDecode_lt (bs : Str) : leDecode bs < 256 ^ bs.length := by
  induction bs with
  | nil => simp [leDecode]
  | cons b bs ih =>
    have hb : b.toNat < 2 ^ 8 := b.toNat_lt
    rw [leDecode, List.length_cons, pow_succ]
    omega

lemma leEncode_leDecode (bs : Str) : leEncode bs.length (leDecode bs) = bs := by
  induction bs with
  | nil => rfl
  | cons b bs ih =>
    have hb : b.toNat < 2 ^ 8 := b.toNat_lt
    have hm : (b.toNat + 256 * leDecode bs) % 256 = b.toNat := by omega
    have hd : (b.toNat + 256 * leDecode bs) / 256 = leDecode bs := by omega
    rw [List.length_cons, leEncode, leDecode, hm, hd, ih, UInt8.ofNat_toNat]

/-! ### Reads at an offset -/

/-- The `n` bytes at offset `off`, fewer when the string ends before. -/
def slice (bs : Str) (off n : ℕ) : Str := (bs.drop off).take n

/-- The byte at offset `i`. Zero past the end, where no caller reads. -/
def u8At (bs : Str) (i : ℕ) : UInt8 := bs.getD i 0

/-- The `n`-byte array at offset `off`. Padded past the end, where no caller reads. -/
def arrAt (n : ℕ) (bs : Str) (off : ℕ) : Arr n :=
  ⟨(slice bs off n).takeD n 0, List.takeD_length n _ _⟩

/-- The `w`-byte little-endian natural at offset `off`. -/
def natAt (w : ℕ) (bs : Str) (off : ℕ) : ℕ := leDecode (slice bs off w)

lemma length_slice (bs : Str) (off n : ℕ) : (slice bs off n).length = min n (bs.length - off) := by
  simp [slice]

lemma length_slice_of_le {bs : Str} {off n : ℕ} (h : off + n ≤ bs.length) :
    (slice bs off n).length = n := by
  rw [length_slice]
  omega

lemma slice_zero_length (bs : Str) : slice bs 0 bs.length = bs := by
  simp [slice]

/-- Adjacent slices join. -/
lemma slice_append_slice (bs : Str) (off m n : ℕ) :
    slice bs off m ++ slice bs (off + m) n = slice bs off (m + n) := by
  simp only [slice]
  rw [List.take_add, List.drop_drop]

lemma slice_append_left {as bs : Str} {off n : ℕ} (h : off + n ≤ as.length) :
    slice (as ++ bs) off n = slice as off n := by
  simp only [slice]
  rw [List.drop_append_of_le_length (by omega), List.take_append_of_le_length (by simp; omega)]

lemma slice_append_right {as bs : Str} {off n : ℕ} (h : as.length ≤ off) :
    slice (as ++ bs) off n = slice bs (off - as.length) n := by
  simp only [slice]
  rw [List.drop_append, List.drop_eq_nil_of_le h, List.nil_append]

lemma slice_eq_singleton {bs : Str} {i : ℕ} (h : i < bs.length) : slice bs i 1 = [u8At bs i] := by
  rw [slice, u8At, List.getD_eq_getElem?_getD, List.getElem?_eq_getElem h, Option.getD_some,
    List.drop_eq_getElem_cons h, List.take_succ_cons, List.take_zero]

lemma arrAt_toList {n : ℕ} {bs : Str} {off : ℕ} (h : off + n ≤ bs.length) :
    (arrAt n bs off).toList = slice bs off n := by
  change (slice bs off n).takeD n 0 = _
  rw [List.takeD_eq_take _ (by rw [length_slice_of_le h]), List.take_of_length_le]
  rw [length_slice_of_le h]

lemma arrAt_eq_iff {n : ℕ} {bs : Str} {off : ℕ} (h : off + n ≤ bs.length) (a : Arr n) :
    arrAt n bs off = a ↔ slice bs off n = a.toList := by
  rw [← arrAt_toList h]
  exact ⟨congrArg _, fun e => Subtype.ext e⟩

lemma leEncode_natAt {w : ℕ} {bs : Str} {off : ℕ} (h : off + w ≤ bs.length) :
    leEncode w (natAt w bs off) = slice bs off w := by
  have he := leEncode_leDecode (slice bs off w)
  rwa [length_slice_of_le h] at he

lemma natAt_lt {w : ℕ} {bs : Str} {off : ℕ} : natAt w bs off < 256 ^ w := by
  refine (leDecode_lt _).trans_le (Nat.pow_le_pow_right (by omega) ?_)
  rw [length_slice]
  omega

/-! ### Machine words -/

/-- The little-endian bytes of a `u16`, a `u32` and a `u64`. -/
def u16le (x : UInt16) : Str := leEncode 2 x.toNat
def u32le (x : UInt32) : Str := leEncode 4 x.toNat
def u64le (x : UInt64) : Str := leEncode 8 x.toNat

/-- The little-endian words at an offset. -/
def u16At (bs : Str) (off : ℕ) : UInt16 := UInt16.ofNat (natAt 2 bs off)
def u32At (bs : Str) (off : ℕ) : UInt32 := UInt32.ofNat (natAt 4 bs off)
def u64At (bs : Str) (off : ℕ) : UInt64 := UInt64.ofNat (natAt 8 bs off)

@[simp] lemma length_u16le (x : UInt16) : (u16le x).length = 2 := length_leEncode _ _
@[simp] lemma length_u32le (x : UInt32) : (u32le x).length = 4 := length_leEncode _ _
@[simp] lemma length_u64le (x : UInt64) : (u64le x).length = 8 := length_leEncode _ _

lemma u16le_u16At {bs : Str} {off : ℕ} (h : off + 2 ≤ bs.length) :
    u16le (u16At bs off) = slice bs off 2 := by
  have hlt : natAt 2 bs off < 256 ^ 2 := natAt_lt
  rw [u16le, u16At, UInt16.toNat_ofNat_of_lt' (by simpa using hlt), leEncode_natAt h]

lemma u32le_u32At {bs : Str} {off : ℕ} (h : off + 4 ≤ bs.length) :
    u32le (u32At bs off) = slice bs off 4 := by
  have hlt : natAt 4 bs off < 256 ^ 4 := natAt_lt
  rw [u32le, u32At, UInt32.toNat_ofNat_of_lt' (by simpa using hlt), leEncode_natAt h]

lemma u64le_u64At {bs : Str} {off : ℕ} (h : off + 8 ≤ bs.length) :
    u64le (u64At bs off) = slice bs off 8 := by
  have hlt : natAt 8 bs off < 256 ^ 8 := natAt_lt
  rw [u64le, u64At, UInt64.toNat_ofNat_of_lt' (by simpa using hlt), leEncode_natAt h]

/-! ### Reading a serialization back

The reads commute with a prefix they lie beyond and see only what they cover, so `simp` walks
a right-nested serialization field by field. -/

lemma natAt_append_right {w : ℕ} {as bs : Str} {off : ℕ} (h : as.length ≤ off) :
    natAt w (as ++ bs) off = natAt w bs (off - as.length) := by
  rw [natAt, slice_append_right h, natAt]

lemma natAt_leEncode_append (w n : ℕ) (bs : Str) :
    natAt w (leEncode w n ++ bs) 0 = n % 256 ^ w := by
  have hs : slice (leEncode w n ++ bs) 0 w = leEncode w n := by
    rw [slice_append_left (by simp)]
    simpa using slice_zero_length (leEncode w n)
  rw [natAt, hs, leDecode_leEncode]

lemma u8At_append_right {as bs : Str} {i : ℕ} (h : as.length ≤ i) :
    u8At (as ++ bs) i = u8At bs (i - as.length) := by
  simp only [u8At, List.getD_eq_getElem?_getD, List.getElem?_append_right h]

@[simp] lemma u8At_cons_zero (x : UInt8) (bs : Str) : u8At (x :: bs) 0 = x := rfl

lemma arrAt_append_right {n : ℕ} {as bs : Str} {off : ℕ} (h : as.length ≤ off) :
    arrAt n (as ++ bs) off = arrAt n bs (off - as.length) := by
  apply Subtype.ext
  simp only [arrAt, slice_append_right h]

@[simp] lemma arrAt_append_zero {n : ℕ} (a : Arr n) (bs : Str) :
    arrAt n (a.toList ++ bs) 0 = a := by
  rw [arrAt_eq_iff (by simp), slice_append_left (by simp)]
  simpa using slice_zero_length a.toList

@[simp] lemma arrAt_toList_zero {n : ℕ} (a : Arr n) : arrAt n a.toList 0 = a := by
  simpa using arrAt_append_zero a []

lemma u16At_append_right {as bs : Str} {off : ℕ} (h : as.length ≤ off) :
    u16At (as ++ bs) off = u16At bs (off - as.length) := by
  rw [u16At, natAt_append_right h, u16At]

lemma u32At_append_right {as bs : Str} {off : ℕ} (h : as.length ≤ off) :
    u32At (as ++ bs) off = u32At bs (off - as.length) := by
  rw [u32At, natAt_append_right h, u32At]

lemma u64At_append_right {as bs : Str} {off : ℕ} (h : as.length ≤ off) :
    u64At (as ++ bs) off = u64At bs (off - as.length) := by
  rw [u64At, natAt_append_right h, u64At]

@[simp] lemma u16At_u16le_append (x : UInt16) (bs : Str) : u16At (u16le x ++ bs) 0 = x := by
  have hlt : x.toNat < 256 ^ 2 := by simpa using x.toNat_lt
  rw [u16At, u16le, natAt_leEncode_append, Nat.mod_eq_of_lt hlt, UInt16.ofNat_toNat]

@[simp] lemma u32At_u32le_append (x : UInt32) (bs : Str) : u32At (u32le x ++ bs) 0 = x := by
  have hlt : x.toNat < 256 ^ 4 := by simpa using x.toNat_lt
  rw [u32At, u32le, natAt_leEncode_append, Nat.mod_eq_of_lt hlt, UInt32.ofNat_toNat]

@[simp] lemma u64At_u64le_append (x : UInt64) (bs : Str) : u64At (u64le x ++ bs) 0 = x := by
  have hlt : x.toNat < 256 ^ 8 := by simpa using x.toNat_lt
  rw [u64At, u64le, natAt_leEncode_append, Nat.mod_eq_of_lt hlt, UInt64.ofNat_toNat]

@[simp] lemma u8At_cons_succ (x : UInt8) (bs : Str) (i : ℕ) :
    u8At (x :: bs) (i + 1) = u8At bs i := rfl

@[simp] lemma arrAt_cons_succ {n : ℕ} (x : UInt8) (bs : Str) (off : ℕ) :
    arrAt n (x :: bs) (off + 1) = arrAt n bs off := rfl

@[simp] lemma u16At_cons_succ (x : UInt8) (bs : Str) (off : ℕ) :
    u16At (x :: bs) (off + 1) = u16At bs off := rfl

@[simp] lemma u32At_cons_succ (x : UInt8) (bs : Str) (off : ℕ) :
    u32At (x :: bs) (off + 1) = u32At bs off := rfl

@[simp] lemma u64At_cons_succ (x : UInt8) (bs : Str) (off : ℕ) :
    u64At (x :: bs) (off + 1) = u64At bs off := rfl

@[simp] lemma u32At_u32le (x : UInt32) : u32At (u32le x) 0 = x := by
  simpa using u32At_u32le_append x []

lemma slice_drop (bs : Str) (a b n : ℕ) : slice (bs.drop a) b n = slice bs (a + b) n := by
  rw [slice, slice, List.drop_drop]

lemma u32At_drop (bs : Str) (a b : ℕ) : u32At (bs.drop a) b = u32At bs (a + b) := by
  rw [u32At, u32At, natAt, natAt, slice_drop]

end Bytes
