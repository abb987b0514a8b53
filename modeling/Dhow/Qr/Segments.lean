import Dhow.Lib.BitList
import Dhow.Lib.Checked
import Dhow.Qr.Tables

/-!
# Segments

The data codewords are a list of segments, of which only those of whole bytes are read. What is
returned is what the grammar of the segments gives to the bits, and no other string has a grammar;
an error names the first place where there is none.
-/

namespace Dhow.Qr
open Bytes Checked

/-- Bit fields of a slice, the highest bit first. -/
structure BitReader where
  data : Str
  pos : ℕ

namespace BitReader

def remaining (r : BitReader) : ℤ := (r.data.length : ℤ) * 8 - r.pos

/-- The next bit, after those of `s.1`. -/
def readBit (data : Str) (s : ℕ × ℕ) : Checked QrError (ℕ × ℕ) := do
  let b ← index data (s.2 >>> 3 : ℕ)
  let bit := (b >>> UInt8.ofNat (7 - (s.2 &&& 7))) &&& 1
  return (s.1 <<< 1 ||| bit.toNat, s.2 + 1)

/-- The next `n` bits, if there are so many. -/
def read (r : BitReader) (n : ℤ) : Checked QrError (Option ℕ × BitReader) := do
  if n < 0 ∨ n > 32 ∨ r.remaining < n then return (none, r)
  else
    let (v, pos) ← repeatFor (fun _ => readBit r.data) (0, r.pos) n.toNat
    return (some v, { r with pos := pos })

end BitReader

def modeTerminator : ℕ := 0x0

def modeByte : ℕ := 0x4

/-- The next byte of a segment. -/
def readByte (s : BitReader × Str) : Checked QrError (BitReader × Str) := do
  let (b, r) ← s.1.read 8
  match b with
  | none => fail .truncated
  | some b => return (r, s.2 ++ [UInt8.ofNat b])

def parseLoop (version : ℤ) : ℕ → BitReader → Str → Checked QrError Str
  | 0, _, _ => .error (.panic .endless)
  | fuel + 1, r, out => do
    if r.remaining < 4 then return out
    else
      let (mode, r) ← r.read 4
      match mode with
      | none => return out
      | some mode =>
        if mode = modeTerminator then return out
        else if mode ≠ modeByte then fail (.unsupportedMode mode)
        else
          let (count, r) ← r.read (charCountBits version)
          match count with
          | none => fail .countTruncated
          | some count =>
            if (count : ℤ) * 8 > r.remaining then fail (.bodyTruncated count r.remaining)
            else
              let (r, out) ← repeatFor (fun _ => readByte) (r, out) count
              parseLoop version fuel r out

/-- A pass of the loop takes four bits at least. -/
def parseSegments (data : Str) (version : ℤ) : Checked QrError Str :=
  parseLoop version (8 * data.length + 1) ⟨data, 0⟩ []

/-! ### The grammar -/

/-- The bits are a list of segments with whole bytes, which are `out` altogether. Each has its mode,
the count of its bytes in so many bits, and them. -/
inductive Segments (width : ℕ) : List Bool → Str → Prop
  | exhausted {bits} (h : bits.length < 4) : Segments width bits []
  | terminator (rest : List Bool) : Segments width (BitList.ofNat 4 modeTerminator ++ rest) []
  | bytes {payload rest out} (hcount : payload.length < 2 ^ width) (h : Segments width rest out) :
    Segments width (BitList.ofNat 4 modeByte ++ (BitList.ofNat width payload.length ++
      (BitList.ofBytes payload ++ rest))) (payload ++ out)

namespace Segments
variable {width : ℕ} {bits : List Bool} {out out' : Str}

/-- There is no room for more bytes than there are. -/
lemma length_le (h : Segments width bits out) : 8 * out.length ≤ bits.length := by
  induction h with
  | exhausted _ => exact Nat.zero_le _
  | terminator _ => exact Nat.zero_le _
  | bytes _ _ ih =>
    rw [List.length_append, List.length_append, List.length_append, List.length_append,
      BitList.length_ofBytes]
    omega

/-- What the mode tells of the rest. -/
lemma of_mode {mode : ℕ} (hmode : mode < 2 ^ 4)
    (h : Segments width (BitList.ofNat 4 mode ++ bits) out) :
    mode = modeTerminator ∧ out = [] ∨
    mode = modeByte ∧ ∃ payload rest tail, bits =
      BitList.ofNat width payload.length ++ (BitList.ofBytes payload ++ rest) ∧
        payload.length < 2 ^ width ∧ out = payload ++ tail ∧ Segments width rest tail := by
  generalize hall : BitList.ofNat 4 mode ++ bits = all at h
  cases h with
  | exhausted hlt =>
    rw [← hall, List.length_append, BitList.length_ofNat] at hlt
    omega
  | terminator rest =>
    left
    obtain ⟨hfield, -⟩ := List.append_inj hall (by simp)
    exact ⟨BitList.ofNat_inj hmode (by decide) hfield, rfl⟩
  | @bytes payload rest tail hcount h =>
    right
    obtain ⟨hfield, hbits⟩ := List.append_inj hall (by simp)
    exact ⟨BitList.ofNat_inj hmode (by decide) hfield, payload, rest, tail, hbits, hcount, rfl, h⟩

lemma unique (h : Segments width bits out) (h' : Segments width bits out') : out = out' := by
  induction h generalizing out' with
  | exhausted hlt =>
    have hle := h'.length_le
    obtain rfl : out' = [] := List.eq_nil_of_length_eq_zero (by omega)
    rfl
  | terminator rest =>
    rcases of_mode (by decide) h' with ⟨-, rfl⟩ | ⟨hmode, -⟩
    · rfl
    · exact absurd hmode (by decide)
  | @bytes payload rest out hcount _ ih =>
    rcases of_mode (by decide) h' with
      ⟨hmode, -⟩ | ⟨-, payload', rest', tail, hbits, hcount', rfl, htail⟩
    · exact absurd hmode (by decide)
    · obtain ⟨hfield, hbits⟩ := List.append_inj hbits (by simp)
      have hlen := BitList.ofNat_inj hcount hcount' hfield
      obtain ⟨hbytes, rfl⟩ := List.append_inj hbits (by simp [hlen])
      rw [BitList.ofBytes_injective hbytes, ih htail]

end Segments

/-- Where the bits are no list of segments: behind whole segments comes another mode, or less than
a count, or less than the bytes that are counted. -/
inductive Fault (width : ℕ) : List Bool → QrError → Prop
  | mode {mode} (rest : List Bool) (hmode : mode < 2 ^ 4) (hterminator : mode ≠ modeTerminator)
    (hbyte : mode ≠ modeByte) : Fault width (BitList.ofNat 4 mode ++ rest) (.unsupportedMode mode)
  | count {rest} (h : rest.length < width) :
    Fault width (BitList.ofNat 4 modeByte ++ rest) .countTruncated
  | body {count rest} (hcount : count < 2 ^ width) (h : rest.length < 8 * count) :
    Fault width (BitList.ofNat 4 modeByte ++ (BitList.ofNat width count ++ rest))
      (.bodyTruncated count rest.length)
  | bytes {payload rest e} (hcount : payload.length < 2 ^ width) (h : Fault width rest e) :
    Fault width (BitList.ofNat 4 modeByte ++ (BitList.ofNat width payload.length ++
      (BitList.ofBytes payload ++ rest))) e

namespace Fault
variable {width : ℕ} {bits : List Bool} {e e' : QrError}

/-- What the mode tells of the rest. -/
lemma of_mode {mode : ℕ} (hmode : mode < 2 ^ 4) (h : Fault width (BitList.ofNat 4 mode ++ bits) e) :
    (mode ≠ modeTerminator ∧ mode ≠ modeByte ∧ e = .unsupportedMode mode) ∨
    mode = modeByte ∧ ((bits.length < width ∧ e = .countTruncated) ∨
      (∃ count rest, count < 2 ^ width ∧ bits = BitList.ofNat width count ++ rest ∧
        ((rest.length < 8 * count ∧ e = .bodyTruncated count rest.length) ∨
          ∃ payload tail, payload.length = count ∧ rest = BitList.ofBytes payload ++ tail ∧
            Fault width tail e))) := by
  generalize hall : BitList.ofNat 4 mode ++ bits = all at h
  cases h with
  | mode rest hmode' hterminator hbyte =>
    left
    obtain ⟨hfield, -⟩ := List.append_inj hall (by simp)
    obtain rfl := BitList.ofNat_inj hmode hmode' hfield
    exact ⟨hterminator, hbyte, rfl⟩
  | count h =>
    right
    obtain ⟨hfield, rfl⟩ := List.append_inj hall (by simp)
    exact ⟨BitList.ofNat_inj hmode (by decide) hfield, .inl ⟨h, rfl⟩⟩
  | body hcount h =>
    right
    obtain ⟨hfield, hbits⟩ := List.append_inj hall (by simp)
    exact ⟨BitList.ofNat_inj hmode (by decide) hfield, .inr ⟨_, _, hcount, hbits, .inl ⟨h, rfl⟩⟩⟩
  | bytes hcount h =>
    right
    obtain ⟨hfield, hbits⟩ := List.append_inj hall (by simp)
    exact ⟨BitList.ofNat_inj hmode (by decide) hfield,
      .inr ⟨_, _, hcount, hbits, .inr ⟨_, _, rfl, rfl, h⟩⟩⟩

/-- Behind a mode and a count that are there, only the bytes and what follows them can be at
fault. -/
lemma of_count {count : ℕ} (hcount : count < 2 ^ width)
    (h : Fault width (BitList.ofNat 4 modeByte ++ (BitList.ofNat width count ++ bits)) e) :
    (bits.length < 8 * count ∧ e = .bodyTruncated count bits.length) ∨
      ∃ payload tail, payload.length = count ∧ bits = BitList.ofBytes payload ++ tail ∧
        Fault width tail e := by
  rcases of_mode (by decide) h with
    ⟨-, hbyte, -⟩ | ⟨-, ⟨hshort, -⟩ | ⟨count', rest, hlt, hbits, hrest⟩⟩
  · exact absurd rfl hbyte
  · rw [List.length_append, BitList.length_ofNat] at hshort
    omega
  · obtain ⟨hfield, rfl⟩ := List.append_inj hbits (by simp)
    obtain rfl := BitList.ofNat_inj hcount hlt hfield
    exact hrest

/-- Bits with a fault have no grammar. -/
lemma not_segments (h : Fault width bits e) {out : Str} : ¬Segments width bits out := by
  induction h generalizing out with
  | mode rest hmode hterminator hbyte =>
    intro hseg
    rcases Segments.of_mode hmode hseg with ⟨hzero, -⟩ | ⟨hfour, -⟩
    · exact hterminator hzero
    · exact hbyte hfour
  | count h =>
    intro hseg
    rcases Segments.of_mode (by decide) hseg with ⟨hzero, -⟩ | ⟨-, payload, rest, -, rfl, -⟩
    · exact absurd hzero (by decide)
    · rw [List.length_append, BitList.length_ofNat] at h
      omega
  | body hcount h =>
    intro hseg
    rcases Segments.of_mode (by decide) hseg with ⟨hzero, -⟩ | ⟨-, payload, rest, -, hbits, hlt, -⟩
    · exact absurd hzero (by decide)
    · obtain ⟨hfield, rfl⟩ := List.append_inj hbits (by simp)
      rw [BitList.ofNat_inj hcount hlt hfield, List.length_append, BitList.length_ofBytes] at h
      omega
  | bytes hcount _ ih =>
    intro hseg
    rcases Segments.of_mode (by decide) hseg with
      ⟨hzero, -⟩ | ⟨-, payload, rest, tail, hbits, hlt, -, htail⟩
    · exact absurd hzero (by decide)
    · obtain ⟨hfield, hbytes⟩ := List.append_inj hbits (by simp)
      have hlen := BitList.ofNat_inj hcount hlt hfield
      obtain ⟨-, rfl⟩ := List.append_inj hbytes (by simp [hlen])
      exact ih htail

lemma unique (h : Fault width bits e) (h' : Fault width bits e') : e = e' := by
  induction h with
  | mode rest hmode hterminator hbyte =>
    rcases of_mode hmode h' with ⟨-, -, rfl⟩ | ⟨hfour, -⟩
    · rfl
    · exact absurd hfour hbyte
  | count h =>
    rcases of_mode (by decide) h' with ⟨-, hbyte, -⟩ | ⟨-, ⟨-, rfl⟩ | ⟨count, rest, -, rfl, -⟩⟩
    · exact absurd rfl hbyte
    · rfl
    · rw [List.length_append, BitList.length_ofNat] at h
      omega
  | body hcount h =>
    rcases of_count hcount h' with ⟨-, rfl⟩ | ⟨payload, tail, rfl, rfl, -⟩
    · rfl
    · rw [List.length_append, BitList.length_ofBytes] at h
      omega
  | bytes hcount _ ih =>
    rcases of_count hcount h' with ⟨hshort, -⟩ | ⟨payload, tail, hlen, hbytes, htail⟩
    · rw [List.length_append, BitList.length_ofBytes] at hshort
      omega
    · obtain ⟨-, rfl⟩ := List.append_inj hbytes (by simp [hlen])
      exact ih htail

/-- The errors that a fault is reported as. -/
lemma base_eq (h : Fault width bits e) : e.base = .truncated ∨
    ∃ mode, e = .unsupportedMode mode ∧ mode ≠ modeTerminator ∧ mode ≠ modeByte := by
  induction h with
  | mode rest _ hterminator hbyte => exact .inr ⟨_, rfl, hterminator, hbyte⟩
  | count _ => exact .inl rfl
  | body _ _ => exact .inl rfl
  | bytes _ _ ih => exact ih

end Fault

/-! ### Reading bits -/

namespace BitReader

/-- The bits that are not read yet. -/
def rest (r : BitReader) : List Bool := (BitList.ofBytes r.data).drop r.pos

/-- The position is inside the slice or at its end. -/
def Within (r : BitReader) : Prop := r.pos ≤ 8 * r.data.length

variable {r : BitReader}

lemma length_rest (r : BitReader) : r.rest.length = 8 * r.data.length - r.pos := by
  rw [rest, List.length_drop, BitList.length_ofBytes]

lemma Within.remaining_eq (h : r.Within) : r.remaining = r.rest.length := by
  unfold Within at h
  rw [remaining, length_rest]
  omega

lemma rest_advance (r : BitReader) (n : ℕ) :
    ({ r with pos := r.pos + n } : BitReader).rest = r.rest.drop n := by
  rw [rest, rest, List.drop_drop]

lemma Within.advance (h : r.Within) {n : ℕ} (hn : n ≤ r.rest.length) :
    ({ r with pos := r.pos + n } : BitReader).Within := by
  unfold Within at h ⊢
  rw [length_rest] at hn
  dsimp only
  omega

lemma toNat_bit (b : UInt8) {k : ℕ} (hk : k < 8) :
    ((b >>> UInt8.ofNat k) &&& 1).toNat = (b.toNat.testBit k).toNat := by
  have hshift : (UInt8.ofNat k).toNat = k := by
    rw [UInt8.toNat_ofNat']
    omega
  rw [UInt8.toNat_and, UInt8.toNat_shiftRight, hshift, Nat.mod_eq_of_lt hk]
  change b.toNat >>> k &&& 1 = _
  rw [Nat.and_one_is_mod, Nat.testBit_eq_decide_div_mod_eq, Nat.shiftRight_eq_div_pow]
  rcases Nat.mod_two_eq_zero_or_one (b.toNat / 2 ^ k) with h | h <;> simp [h]

lemma readBit_eq {data : Str} {v pos : ℕ} {b : Bool} (h : (BitList.ofBytes data)[pos]? = some b) :
    readBit data (v, pos) = .ok (2 * v + b.toNat, pos + 1) := by
  have hlen := (List.getElem?_eq_some_iff.mp h).1
  rw [BitList.length_ofBytes] at hlen
  have hbyte : data[pos / 8]? = some data[pos / 8] := List.getElem?_eq_getElem (by omega)
  have hget := BitList.getElem?_ofBytes (Nat.mod_lt pos (by decide)) hbyte
  rw [Nat.div_add_mod, h, Option.some.injEq] at hget
  have hand : pos &&& 7 = pos % 8 := Nat.and_two_pow_sub_one_eq_mod pos 3
  have hb : b.toNat < 2 ^ 1 := Nat.lt_succ_of_le b.toNat_le
  rw [readBit, Nat.shiftRight_eq_div_pow, index_eq (k := pos / 8) rfl hbyte, ok_bind, hand]
  dsimp only
  rw [toNat_bit _ (by omega), ← hget, ← Nat.shiftLeft_add_eq_or_of_lt hb, Nat.shiftLeft_eq, pow_one,
    Nat.mul_comm]
  rfl

lemma readBits_eq (r : BitReader) {n : ℕ} (hn : n ≤ r.rest.length) :
    repeatFor (fun _ => readBit r.data) (0, r.pos) n =
      .ok (BitList.toNat (r.rest.take n), r.pos + n) := by
  induction n with
  | zero => rfl
  | succ n ih =>
    have hget : (BitList.ofBytes r.data)[r.pos + n]? = some r.rest[n] := by
      rw [← List.getElem?_eq_getElem hn, rest, List.getElem?_drop]
    rw [repeatFor, ih (Nat.le_of_succ_le hn), ok_bind, readBit_eq hget,
      List.take_succ_eq_append_getElem hn, BitList.toNat_concat]
    rfl

/-- A field that is there is read off what is left. -/
lemma Within.exists_read (h : r.Within) {n : ℕ} (h32 : n ≤ 32) (hn : n ≤ r.rest.length) :
    ∃ v, r.read n = .ok (some v, { r with pos := r.pos + n }) ∧ v < 2 ^ n ∧
      ({ r with pos := r.pos + n } : BitReader).Within ∧
      r.rest = BitList.ofNat n v ++ ({ r with pos := r.pos + n } : BitReader).rest := by
  have htake := BitList.ofNat_toNat (r.rest.take n)
  have hlt := BitList.toNat_lt (r.rest.take n)
  rw [List.length_take, Nat.min_eq_left hn] at htake hlt
  refine ⟨BitList.toNat (r.rest.take n), ?_, hlt, h.advance hn, ?_⟩
  · rw [read, h.remaining_eq, if_neg (by omega), Int.toNat_natCast, readBits_eq r hn, ok_bind]
    rfl
  · rw [htake, rest_advance, List.take_append_drop]

lemma Within.read_of_short (h : r.Within) {n : ℕ} (hn : r.rest.length < n) :
    r.read n = .ok (none, r) := by
  rw [read, h.remaining_eq, if_pos (by omega)]
  rfl

/-- The bytes of a segment. -/
lemma Within.gives_readBytes (h : r.Within) (out : Str) {count : ℕ}
    (hcount : 8 * count ≤ r.rest.length) :
    Gives (fun s => s.1.Within ∧ ∃ payload : Str, s.2 = out ++ payload ∧ payload.length = count ∧
        r.rest = BitList.ofBytes payload ++ s.1.rest)
      (repeatFor (fun _ => readByte) (r, out) count) := by
  apply ends_repeatFor (fun i (s : BitReader × Str) => s.1.Within ∧
    ∃ payload : Str, s.2 = out ++ payload ∧ payload.length = i ∧
      r.rest = BitList.ofBytes payload ++ s.1.rest)
  · exact ⟨h, [], (List.append_nil out).symm, rfl, rfl⟩
  · rintro i hi ⟨r', out'⟩ ⟨hwithin, payload, rfl, hlen, hbits⟩
    have hroom : 8 ≤ r'.rest.length := by
      have hlength := congrArg List.length hbits
      rw [List.length_append, BitList.length_ofBytes] at hlength
      dsimp only at hlength
      omega
    obtain ⟨v, hread, hv, hnext, hrest⟩ := hwithin.exists_read (by decide) hroom
    have h8 : (8 : ℤ) = (8 : ℕ) := rfl
    rw [readByte, h8, hread, ok_bind]
    refine .ok ⟨hnext, payload ++ [UInt8.ofNat v], ?_, ?_, ?_⟩
    · exact List.append_assoc _ _ _
    · rw [List.length_append, List.length_singleton, hlen]
    · rw [hbits, hrest, BitList.ofBytes_append, BitList.ofBytes_cons, BitList.ofBytes_nil,
        List.append_nil, UInt8.toNat_ofNat_of_lt' hv, List.append_assoc]

end BitReader

lemma charCountBits_le (version : ℤ) : charCountBits version ≤ 32 := by
  unfold charCountBits
  split_ifs <;> decide

/-- What is behind the mode of a segment of bytes. -/
lemma ends_byteSegment {version : ℤ} {fuel : ℕ} {r : BitReader} {out : Str} (h : r.Within)
    (hfuel : r.rest.length < fuel)
    (ih : ∀ {r : BitReader} {out : Str}, r.Within → r.rest.length < fuel →
      Ends (fun res => ∃ tail, res = out ++ tail ∧ Segments (charCountBits version) r.rest tail)
        (Fault (charCountBits version) r.rest) (parseLoop version fuel r out)) :
    Ends (fun res => ∃ tail, res = out ++ tail ∧
        Segments (charCountBits version) (BitList.ofNat 4 modeByte ++ r.rest) tail)
      (Fault (charCountBits version) (BitList.ofNat 4 modeByte ++ r.rest))
      (do
        let (count, r) ← r.read (charCountBits version)
        match count with
        | none => fail .countTruncated
        | some count =>
          if (count : ℤ) * 8 > r.remaining then fail (.bodyTruncated count r.remaining)
          else
            let (r, out) ← repeatFor (fun _ => readByte) (r, out) count
            parseLoop version fuel r out) := by
  by_cases hwide : charCountBits version ≤ r.rest.length
  · obtain ⟨count, hread, hcount, hr, hrest⟩ := h.exists_read (charCountBits_le version) hwide
    rw [hread, ok_bind]
    generalize ({ r with pos := r.pos + charCountBits version } : BitReader) = r₁ at hr hrest ⊢
    dsimp only
    rw [hr.remaining_eq]
    split_ifs with hbig
    · rw [hrest]
      exact .fail (.body hcount (by omega))
    · refine Gives.bind (hr.gives_readBytes out (by omega)) ?_
      rintro ⟨r₂, out₂⟩ ⟨hr₂, payload, hout, hlen, hbytes⟩
      dsimp only at hr₂ hout hbytes ⊢
      subst hout
      subst hlen
      rw [hrest, hbytes]
      rw [hrest, hbytes, List.length_append, List.length_append] at hfuel
      refine Ends.weaken (ih hr₂ (by omega)) ?_ fun e he => .bytes hcount he
      rintro res ⟨tail, rfl, hsegments⟩
      exact ⟨payload ++ tail, List.append_assoc _ _ _, .bytes hcount hsegments⟩
  · rw [h.read_of_short (by omega), ok_bind]
    exact .fail (.count (by omega))

/-- What is returned is what the grammar gives to the bits that are left, and an error is that of
their fault. -/
lemma ends_parseLoop {version : ℤ} {fuel : ℕ} {r : BitReader} {out : Str} (h : r.Within)
    (hfuel : r.rest.length < fuel) :
    Ends (fun res => ∃ tail, res = out ++ tail ∧ Segments (charCountBits version) r.rest tail)
      (Fault (charCountBits version) r.rest) (parseLoop version fuel r out) := by
  induction fuel generalizing r out with
  | zero => omega
  | succ fuel ih =>
    rw [parseLoop, h.remaining_eq]
    by_cases h4 : 4 ≤ r.rest.length
    · obtain ⟨mode, hread, hmode, hr, hrest⟩ := h.exists_read (by decide) h4
      rw [if_neg (by omega), show (4 : ℤ) = (4 : ℕ) from rfl, hread, ok_bind]
      generalize ({ r with pos := r.pos + 4 } : BitReader) = r₁ at hr hrest ⊢
      rw [hrest] at hfuel ⊢
      rw [List.length_append, BitList.length_ofNat] at hfuel
      dsimp only
      split_ifs with hzero hbyte
      · subst hzero
        exact .ok ⟨[], (List.append_nil out).symm, .terminator _⟩
      · exact .fail (.mode _ hmode hzero hbyte)
      · obtain rfl := not_not.mp hbyte
        exact ends_byteSegment hr (by omega) ih
    · rw [if_pos (by omega)]
      exact .ok ⟨[], (List.append_nil out).symm, .exhausted (by omega)⟩

/-- Parsing is the grammar: it gives the one string that the bits are the segments of, or their
fault. -/
lemma ends_parseSegments (data : Str) (version : ℤ) :
    Ends (fun out => Segments (charCountBits version) (BitList.ofBytes data) out)
      (Fault (charCountBits version) (BitList.ofBytes data)) (parseSegments data version) := by
  have hstart : (⟨data, 0⟩ : BitReader).rest = BitList.ofBytes data := rfl
  rw [parseSegments, ← hstart]
  refine Ends.weaken (ends_parseLoop (Nat.zero_le _) ?_) ?_ fun e he => he
  · rw [hstart, BitList.length_ofBytes]
    exact Nat.lt_succ_self _
  · rintro out ⟨tail, rfl, hseg⟩
    exact hseg

/-- The segments are read exactly where the grammar has them, to no more bytes than there are, and
everywhere else the error is that of the fault; the loop always comes to an end. -/
theorem parseSegments_exact (data : Str) (version : ℤ) :
    let bits := BitList.ofBytes data
    let width := if version ≤ 9 then 8 else 16
    (∀ out, parseSegments data version = .ok out ↔ Segments width bits out) ∧
    (∀ out, parseSegments data version = .ok out → out.length ≤ data.length) ∧
    (∀ e, parseSegments data version = .error (.fail e) ↔ Fault width bits e) ∧
    (∀ e, parseSegments data version = .error (.fail e) → e.base = .truncated ∨
      ∃ mode, e = .unsupportedMode mode ∧ mode ≠ modeTerminator ∧ mode ≠ modeByte) ∧
    ∀ p, parseSegments data version ≠ .error (.panic p) := by
  have hends := ends_parseSegments data version
  have hok : ∀ out, parseSegments data version = .ok out ↔
      Segments (charCountBits version) (BitList.ofBytes data) out := by
    intro out
    constructor
    · intro h
      rw [h] at hends
      exact hends.of_ok
    · intro hseg
      cases hparse : parseSegments data version with
      | ok out' =>
        rw [hparse] at hends
        rw [hends.of_ok.unique hseg]
      | error stop =>
        rw [hparse] at hends
        cases hends with
        | fail hfault => exact absurd hseg hfault.not_segments
  have herror : ∀ e, parseSegments data version = .error (.fail e) ↔
      Fault (charCountBits version) (BitList.ofBytes data) e := by
    intro e
    constructor
    · intro h
      rw [h] at hends
      exact ends_fail_iff.mp hends
    · intro hfault
      cases hparse : parseSegments data version with
      | ok out => exact absurd ((hok out).mp hparse) hfault.not_segments
      | error stop =>
        rw [hparse] at hends
        cases hends with
        | fail hfault' => rw [hfault'.unique hfault]
  refine ⟨hok, fun out h => ?_, herror, fun e h => ((herror e).mp h).base_eq, hends.ne_panic⟩
  have hlen := ((hok out).mp h).length_le
  rw [BitList.length_ofBytes] at hlen
  omega

/-- One byte, and the terminator. -/
theorem parseSegments_exact_one_byte : parseSegments [0x40, 0x14, 0x10] 1 = .ok [0x41] ∧
    [(0x41 : UInt8)].length ≤ [(0x40 : UInt8), 0x14, 0x10].length := by
  have h : parseSegments [0x40, 0x14, 0x10] 1 = .ok [0x41] := by decide
  exact ⟨h, (parseSegments_exact _ _).2.1 _ h⟩

end Dhow.Qr
