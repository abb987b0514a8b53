import Dhow.Lib.MachineNat
import Dhow.Lib.Recorded
import Dhow.ResumeGrammar

/-!
# Resume files in machine arithmetic

The parser of `resume.rs` once more, with its lengths, offsets and counts as integers that overflow,
its slices checked and the lengths of the bitmaps it allocates on record. It does what the parser
over the naturals does, except that the set bits of a bitmap can be one too many for a `u32`.
-/

namespace Dhow.ResumeFile.Machine
open Bytes Checked MachineNat

abbrev Parse (α : Type) := Checked (Fault ResumeError) α

def error {α : Type} (e : ResumeError) : Parse α := fail (.error e)

def usizeLimit : ℕ := 2 ^ 64
def u32Limit : ℕ := 2 ^ 32

/-- A slice of bytes. None is longer than `isize::MAX`. -/
structure Slice where
  bytes : Str
  length_lt : bytes.length < 2 ^ 63

/-- The bytes from `lo` on as an array. -/
def field (n : ℕ) (bytes : Str) (lo : ℕ) : Parse (Arr n) := do
  let part ← slice bytes lo (lo + n : ℕ)
  if h : part.length = n then .ok ⟨part, h⟩ else .error (.panic .length)

def u32Field (bytes : Str) (lo : ℕ) : Parse UInt32 := do
  let part ← field 4 bytes lo
  .ok (UInt32.ofNat (leDecode part.toList))

def u64Field (bytes : Str) (lo : ℕ) : Parse UInt64 := do
  let part ← field 8 bytes lo
  .ok (UInt64.ofNat (leDecode part.toList))

/-! ### The header -/

structure RawHeader where
  magic : Arr 4
  version : UInt8
  reserved1 : Arr 3
  sessionId : Arr 16
  blockCount : UInt32
  journalBytes : UInt64
  journalDigest : Arr 32
  reserved2 : Arr 24
  crc32c : UInt32
  integrityDigest : Arr 32

def headerFromBytes (b3 : Blake3) (bytes : Str) : Parse RawHeader := do
  if bytes.length < resumeHeaderSize then error (.truncated resumeHeaderSize bytes.length)
  else
    let magic ← field 4 bytes 0
    if magic ≠ resumeMagic then error (.invalidMagic magic)
    else
      let version ← index bytes 4
      if version ≠ resumeVersion then error (.unsupportedVersion version)
      else
        let reserved1 ← field 3 bytes 5
        if reserved1 ≠ zeros 3 then error (.reservedNotZero 5)
        else
          let sessionId ← field 16 bytes 8
          let blockCount ← u32Field bytes 24
          let journalBytes ← u64Field bytes 28
          let journalDigest ← field 32 bytes 36
          let reserved2 ← field 24 bytes 68
          if reserved2 ≠ zeros 24 then error (.reservedNotZero 68)
          else
            let crc32c ← u32Field bytes 92
            let integrityDigest ← field 32 bytes 96
            let crcCover ← slice bytes 0 crcCoverBytes
            if crc32c ≠ crc32cDigest crcCover then error .integrityCheckFailed
            else
              let integrityCover ← slice bytes 0 integrityCoverBytes
              if integrityDigest ≠ blake3Digest b3 integrityCover then error .integrityCheckFailed
              else
                .ok
                  { magic, version, reserved1, sessionId, blockCount, journalBytes, journalDigest,
                    reserved2, crc32c, integrityDigest }

/-! ### Entries -/

/-- An entry up to its bitmap, and where that ends. -/
structure EntryHead where
  blockIndex : UInt32
  symbolCount : UInt32
  symbolsHeld : UInt32
  stop : ℕ

def checkedAdd (a b : ℕ) : Option ℕ := if a + b < usizeLimit then some (a + b) else none

def entryHead (bytes : Str) : Parse EntryHead := do
  if bytes.length < blockEntryHeaderSize then
    error (.truncated blockEntryHeaderSize bytes.length)
  else
    let blockIndex ← u32Field bytes 0
    let symbolCount ← u32Field bytes 4
    let symbolsHeld ← u32Field bytes 8
    if symbolsHeld > symbolCount then error (.invalidSymbolCount symbolsHeld)
    else
      let bitmapLen := (symbolCount.toNat + 7) / 8
      match checkedAdd blockEntryHeaderSize bitmapLen with
      | none => error (.invalidSymbolCount symbolCount)
      | some stop =>
        if bytes.length < stop then error (.truncated stop bytes.length)
        else .ok ⟨blockIndex, symbolCount, symbolsHeld, stop⟩

/-- The last byte has a bit past the last symbol. -/
def hasStrayBits (symbolCount : UInt32) (symbolBitmap : Str) : Parse Bool :=
  match symbolBitmap.getLast? with
  | none => .ok false
  | some last => do
    let used := symbolCount.toNat % 8
    if used ≠ 0 then
      let rest ← shiftRight 8 last.toNat used
      .ok (decide (rest ≠ 0))
    else .ok false

def checkBitmap (head : EntryHead) (symbolBitmap : Str) : Parse (BlockEntry × ℕ) := do
  let set ← sum u32Limit Bitmap.countOnes symbolBitmap
  if set ≠ head.symbolsHeld.toNat then
    error (.heldCountMismatch head.symbolsHeld (UInt32.ofNat set))
  else
    let stray ← hasStrayBits head.symbolCount symbolBitmap
    if stray then error (.invalidSymbolCount head.symbolCount)
    else .ok (⟨head.blockIndex, head.symbolCount, head.symbolsHeld, symbolBitmap⟩, head.stop)

/-- A parse with the lengths of the bitmaps it allocates. -/
abbrev Watched (α : Type) := Recorded ℕ (Fault ResumeError) α

def entryFromBytes (bytes : Str) : Watched (BlockEntry × ℕ) := do
  let head ← Recorded.lift (entryHead bytes)
  let symbolBitmap ← Recorded.lift (slice bytes blockEntryHeaderSize head.stop)
  Recorded.note symbolBitmap.length
  Recorded.lift (checkBitmap head symbolBitmap)

/-- The entry loop, as `ResumeFile.entriesFrom`. -/
def entriesFrom (bytes : Str) : (left index offset : ℕ) → Watched (List BlockEntry × ℕ)
  | 0, _, offset => return ([], offset)
  | left + 1, index, offset => do
    let rest ← Recorded.lift (slice bytes offset bytes.length)
    let (entry, consumed) ← entryFromBytes rest
    if entry.blockIndex.toNat ≠ index then
      Recorded.lift (error (.blockIndexOutOfRange entry.blockIndex))
    else
      let offset ← Recorded.lift (add usizeLimit offset consumed)
      let (entries, stop) ← entriesFrom bytes left (index + 1) offset
      return (entry :: entries, stop)

structure RawFile where
  header : RawHeader
  entries : List BlockEntry

def fromBytes (b3 : Blake3) (data : Slice) : Watched RawFile := do
  let header ← Recorded.lift (headerFromBytes b3 data.bytes)
  let (entries, offset) ← entriesFrom data.bytes header.blockCount.toNat 0 resumeHeaderSize
  if offset ≠ data.bytes.length then
    let extra ← Recorded.lift (sub data.bytes.length offset)
    Recorded.lift (error (.trailingBytes extra))
  else return ⟨header, entries⟩

/-! ### Reads in range -/

lemma slice_eq_slice {bytes : Str} {lo n : ℕ} (h : lo + n ≤ bytes.length) :
    (Checked.slice bytes lo (lo + n : ℕ) : Parse Str) = .ok (Bytes.slice bytes lo n) := by
  rw [Checked.slice_eq rfl rfl (Nat.le_add_right lo n) h, Bytes.slice, List.drop_take,
    Nat.add_sub_cancel_left]

lemma field_eq {n : ℕ} {bytes : Str} {lo : ℕ} (h : lo + n ≤ bytes.length) :
    field n bytes lo = .ok (arrAt n bytes lo) := by
  have hlen : (Bytes.slice bytes lo n).length = n := length_slice_of_le h
  rw [field, slice_eq_slice h, ok_bind, dif_pos hlen]
  congr 1
  exact List.Vector.eq _ _ (arrAt_toList h).symm

lemma u32Field_eq {bytes : Str} {lo : ℕ} (h : lo + 4 ≤ bytes.length) :
    u32Field bytes lo = .ok (u32At bytes lo) := by
  rw [u32Field, field_eq h, ok_bind, arrAt_toList h]
  rfl

lemma u64Field_eq {bytes : Str} {lo : ℕ} (h : lo + 8 ≤ bytes.length) :
    u64Field bytes lo = .ok (u64At bytes lo) := by
  rw [u64Field, field_eq h, ok_bind, arrAt_toList h]
  rfl

lemma index_eq_u8At {bytes : Str} {i : ℕ} (h : i < bytes.length) :
    (index bytes i : Parse UInt8) = .ok (u8At bytes i) := by
  rw [u8At, List.getD_eq_getElem _ _ h]
  exact Checked.index_eq rfl (List.getElem?_eq_getElem h)

/-- An outcome over the naturals. -/
def lift {α β : Type} (f : α → β) : Except ResumeError α → Parse β
  | .error e => error e
  | .ok a => .ok (f a)

/-- A header without its proofs. -/
def raw {b3 : Blake3} (h : ResumeHeader b3) : RawHeader where
  magic := h.magic
  version := h.version
  reserved1 := h.reserved1
  sessionId := h.sessionId
  blockCount := h.blockCount
  journalBytes := h.journalBytes
  journalDigest := h.journalDigest
  reserved2 := h.reserved2
  crc32c := h.crc32c
  integrityDigest := h.integrityDigest

/-- A check that both of them make. -/
lemma ite_eq_lift {α β : Type} {f : α → β} {p : Prop} [Decidable p] {e : ResumeError} {x : Parse β}
    {y : ¬p → Except ResumeError α} (h : ∀ hp, x = lift f (y hp)) :
    (if p then error e else x) = lift f (if hp : p then .error e else y hp) := by
  by_cases hp : p
  · rw [if_pos hp, dif_pos hp]
    rfl
  · rw [if_neg hp, dif_neg hp]
    exact h hp

lemma headerFromBytes_eq (b3 : Blake3) (bytes : Str) :
    headerFromBytes b3 bytes = lift raw (ResumeHeader.fromBytes b3 bytes) := by
  rw [headerFromBytes, ResumeHeader.fromBytes]
  refine ite_eq_lift fun hlen => ?_
  have hle : 128 ≤ bytes.length := Nat.le_of_not_lt hlen
  rw [field_eq (by omega), ok_bind]
  refine ite_eq_lift fun hmagic => ?_
  rw [show (4 : ℤ) = (4 : ℕ) from rfl, index_eq_u8At (by omega), ok_bind]
  refine ite_eq_lift fun hversion => ?_
  rw [field_eq (by omega), ok_bind]
  refine ite_eq_lift fun hreserved1 => ?_
  rw [field_eq (by omega), ok_bind, u32Field_eq (by omega), ok_bind, u64Field_eq (by omega),
    ok_bind, field_eq (by omega), ok_bind, field_eq (by omega), ok_bind]
  refine ite_eq_lift fun hreserved2 => ?_
  have hcover : (Checked.slice bytes 0 crcCoverBytes : Parse Str) =
      .ok (Bytes.slice bytes 0 crcCoverBytes) :=
    @slice_eq_slice bytes 0 92 (by omega)
  have hintegrity : (Checked.slice bytes 0 integrityCoverBytes : Parse Str) =
      .ok (Bytes.slice bytes 0 integrityCoverBytes) :=
    @slice_eq_slice bytes 0 96 (by omega)
  rw [u32Field_eq (by omega), ok_bind, field_eq (by omega), ok_bind, hcover, ok_bind]
  refine ite_eq_lift fun hcrc => ?_
  rw [hintegrity, ok_bind]
  exact ite_eq_lift fun hdigest => rfl

/-! ### One entry -/

/-- An entry whose bitmap has `2 ^ 32` bits, all of them set. -/
structure Overfull (e : BlockEntry) : Prop where
  held_le : e.symbolsHeld ≤ e.symbolCount
  length_eq : e.symbolBitmap.length = 2 ^ 29
  full : ∀ b ∈ e.symbolBitmap, b = 0xFF

lemma bitmapLenAt_le (bytes : Str) (offset : ℕ) : bitmapLenAt bytes offset ≤ 2 ^ 29 := by
  have hlt := (u32At bytes (offset + 4)).toNat_lt
  rw [bitmapLenAt]
  omega

lemma length_bitmap_entryAt_le (bytes : Str) (offset : ℕ) :
    (entryAt bytes offset).symbolBitmap.length ≤ 2 ^ 29 := by
  have hle := bitmapLenAt_le bytes offset
  rw [entryAt, length_slice]
  omega

/-- Only a bitmap that is there in full is overfull. -/
lemma Overfull.bitmapLenAt_eq {bytes : Str} {offset : ℕ} (h : Overfull (entryAt bytes offset)) :
    bitmapLenAt bytes offset = 2 ^ 29 ∧ offset + blockEntryHeaderSize + 2 ^ 29 ≤ bytes.length := by
  have hle := bitmapLenAt_le bytes offset
  have hlen : (Bytes.slice bytes (offset + blockEntryHeaderSize)
      (bitmapLenAt bytes offset)).length = 2 ^ 29 := h.length_eq
  rw [length_slice] at hlen
  omega

lemma entryHead_eq (rest : Str) : entryHead rest =
    if rest.length < blockEntryHeaderSize then
      error (.truncated blockEntryHeaderSize rest.length)
    else if (entryAt rest 0).symbolCount < (entryAt rest 0).symbolsHeld then
      error (.invalidSymbolCount (entryAt rest 0).symbolsHeld)
    else if rest.length < blockEntryHeaderSize + bitmapLenAt rest 0 then
      error (.truncated (blockEntryHeaderSize + bitmapLenAt rest 0) rest.length)
    else .ok ⟨(entryAt rest 0).blockIndex, (entryAt rest 0).symbolCount,
      (entryAt rest 0).symbolsHeld, blockEntryHeaderSize + bitmapLenAt rest 0⟩ := by
  have hadd : checkedAdd blockEntryHeaderSize (((u32At rest 4).toNat + 7) / 8) =
      some (blockEntryHeaderSize + bitmapLenAt rest 0) := by
    have hle := bitmapLenAt_le rest 0
    apply if_pos
    change blockEntryHeaderSize + bitmapLenAt rest 0 < usizeLimit
    unfold blockEntryHeaderSize usizeLimit
    omega
  rw [entryHead]
  by_cases hlen : rest.length < blockEntryHeaderSize
  · rw [if_pos hlen, if_pos hlen]
  have hle : 12 ≤ rest.length := Nat.le_of_not_lt hlen
  rw [if_neg hlen, if_neg hlen, u32Field_eq (by omega), ok_bind, u32Field_eq (by omega), ok_bind,
    u32Field_eq (by omega), ok_bind]
  dsimp only
  rw [hadd]
  rfl

lemma hasStrayBits_eq (symbolCount : UInt32) (symbolBitmap : Str) :
    hasStrayBits symbolCount symbolBitmap =
      .ok (BlockEntry.hasStrayBits symbolCount symbolBitmap) := by
  rw [hasStrayBits, BlockEntry.hasStrayBits]
  cases symbolBitmap.getLast? with
  | none => rfl
  | some last =>
    have hlt : symbolCount.toNat % 8 < 8 := Nat.mod_lt _ (by decide)
    dsimp only
    by_cases hused : symbolCount.toNat % 8 ≠ 0
    · rw [if_pos hused, shiftRight_eq hlt, ok_bind]
      simp [hused]
    · rw [if_neg hused]
      simp [not_not.mp hused]

/-- Where the set bits of a bitmap can be counted, it is checked as it is over the naturals. -/
lemma checkBitmap_eq (e : BlockEntry) (stop : ℕ) :
    checkBitmap ⟨e.blockIndex, e.symbolCount, e.symbolsHeld, stop⟩ e.symbolBitmap =
      if Bitmap.popcount e.symbolBitmap < u32Limit then
        lift id (if UInt32.ofNat (Bitmap.popcount e.symbolBitmap) ≠ e.symbolsHeld then
          .error (.heldCountMismatch e.symbolsHeld (UInt32.ofNat (Bitmap.popcount e.symbolBitmap)))
        else if BlockEntry.hasStrayBits e.symbolCount e.symbolBitmap then
          .error (.invalidSymbolCount e.symbolCount)
        else .ok (e, stop))
      else fail .overflow := by
  have hsum : (sum u32Limit Bitmap.countOnes e.symbolBitmap : Parse ℕ) =
      if Bitmap.popcount e.symbolBitmap < u32Limit then .ok (Bitmap.popcount e.symbolBitmap)
      else fail .overflow := sum_eq _ _ (by decide)
  rw [checkBitmap, hsum]
  by_cases hlt : Bitmap.popcount e.symbolBitmap < u32Limit
  · have hset : Bitmap.popcount e.symbolBitmap = e.symbolsHeld.toNat ↔
        UInt32.ofNat (Bitmap.popcount e.symbolBitmap) = e.symbolsHeld := by
      rw [← UInt32.toNat_inj, UInt32.toNat_ofNat_of_lt' hlt]
    rw [if_pos hlt, if_pos hlt, ok_bind]
    dsimp only
    by_cases hheld : UInt32.ofNat (Bitmap.popcount e.symbolBitmap) ≠ e.symbolsHeld
    · rw [if_pos hheld, if_pos (hset.not.mpr hheld)]
      rfl
    · rw [if_neg hheld, if_neg (not_not.mpr (hset.mpr (not_not.mp hheld))), hasStrayBits_eq,
        ok_bind]
      split_ifs <;> rfl
  · rw [if_neg hlt, if_neg hlt]
    rfl

lemma popcount_lt_iff {e : BlockEntry} (hheld : e.symbolsHeld ≤ e.symbolCount)
    (hlen : e.symbolBitmap.length ≤ 2 ^ 29) :
    Bitmap.popcount e.symbolBitmap < u32Limit ↔ ¬Overfull e := by
  have hle := Bitmap.popcount_le_length e.symbolBitmap
  have hfull := Bitmap.popcount_eq_iff e.symbolBitmap
  unfold u32Limit
  constructor
  · intro hlt h
    have := hfull.mpr h.full
    have := h.length_eq
    omega
  · intro h
    by_contra hge
    exact h ⟨hheld, by omega, hfull.mp (by omega)⟩

/-- An entry is read as it is over the naturals, unless it is overfull. -/
lemma result_entryFromBytes (rest : Str) :
    (Overfull (entryAt rest 0) → (entryFromBytes rest).result = fail .overflow) ∧
      (¬Overfull (entryAt rest 0) →
        (entryFromBytes rest).result = lift id (BlockEntry.fromBytes rest)) := by
  have hread := BlockEntry.fromBytes_drop rest 0
  rw [List.drop_zero, Nat.sub_zero] at hread
  dsimp only at hread
  have hresult : (entryFromBytes rest).result = entryHead rest >>= fun head =>
      (Checked.slice rest blockEntryHeaderSize head.stop : Parse Str) >>= fun symbolBitmap =>
        checkBitmap head symbolBitmap := by
    rw [entryFromBytes]
    simp only [Recorded.result_bind, Recorded.result_lift, Recorded.result_note, ok_bind]
  rw [hresult, hread, entryHead_eq]
  by_cases hlen : rest.length < blockEntryHeaderSize
  · rw [if_pos hlen, if_pos hlen]
    refine ⟨fun h => ?_, fun _ => rfl⟩
    have := h.bitmapLenAt_eq.2
    omega
  rw [if_neg hlen, if_neg hlen]
  by_cases hheld : (entryAt rest 0).symbolCount < (entryAt rest 0).symbolsHeld
  · rw [if_pos hheld, if_pos hheld]
    exact ⟨fun h => absurd h.held_le (UInt32.not_le.mpr hheld), fun _ => rfl⟩
  rw [if_neg hheld, if_neg hheld]
  by_cases hstop : rest.length < blockEntryHeaderSize + bitmapLenAt rest 0
  · rw [if_pos hstop, if_pos hstop]
    refine ⟨fun h => ?_, fun _ => rfl⟩
    obtain ⟨heq, hle⟩ := h.bitmapLenAt_eq
    omega
  rw [if_neg hstop, if_neg hstop, ok_bind]
  dsimp only
  have hbitmap : (Checked.slice rest blockEntryHeaderSize
      (blockEntryHeaderSize + bitmapLenAt rest 0 : ℕ) : Parse Str) =
      .ok (entryAt rest 0).symbolBitmap := by
    rw [slice_eq_slice (Nat.le_of_not_lt hstop)]
    simp only [entryAt, Nat.zero_add]
  have hpop := popcount_lt_iff (UInt32.not_lt.mp hheld) (length_bitmap_entryAt_le rest 0)
  rw [hbitmap, ok_bind, checkBitmap_eq]
  exact ⟨fun h => if_neg fun hlt => hpop.mp hlt h, fun h => if_pos (hpop.mpr h)⟩

/-! ### The entry loop -/

/-- Among `left` entries from `index` on one is overfull, and those before it are good. -/
def OverfullFrom (bytes : Str) (index left : ℕ) : Prop :=
  ∃ i, index ≤ i ∧ i < index + left ∧ (∀ j, index ≤ j → j < i → GoodEntry bytes j) ∧
    Overfull (entryAt bytes (entryOffset bytes i))

lemma overfullFrom_zero (bytes : Str) (index : ℕ) : ¬OverfullFrom bytes index 0 := by
  rintro ⟨i, hle, hlt, -⟩
  omega

lemma overfullFrom_succ_iff {bytes : Str} {index left : ℕ} :
    OverfullFrom bytes index (left + 1) ↔ Overfull (entryAt bytes (entryOffset bytes index)) ∨
      GoodEntry bytes index ∧ OverfullFrom bytes (index + 1) left := by
  constructor
  · rintro ⟨i, hle, hlt, hgood, hfull⟩
    rcases Nat.eq_or_lt_of_le hle with rfl | hlt'
    · exact .inl hfull
    · exact .inr ⟨hgood index le_rfl hlt', i, hlt', by omega,
        fun j hj hji => hgood j (by omega) hji, hfull⟩
  · rintro (hfull | ⟨hgood, i, hle, hlt, hall, hfull⟩)
    · exact ⟨index, le_rfl, by omega, fun j hj hji => by omega, hfull⟩
    · refine ⟨i, by omega, by omega, fun j hj hji => ?_, hfull⟩
      rcases Nat.eq_or_lt_of_le hj with rfl | hj'
      · exact hgood
      · exact hall j hj' hji

lemma entryAt_drop (bytes : Str) (offset : ℕ) :
    entryAt (bytes.drop offset) 0 = entryAt bytes offset := by
  simp [entryAt, bitmapLenAt, u32At_drop, slice_drop]

lemma exists_fromBytes_of_good {bytes : Str} {i : ℕ} (h : GoodEntry bytes i) :
    ∃ n, BlockEntry.fromBytes (bytes.drop (entryOffset bytes i)) =
      .ok (entryAt bytes (entryOffset bytes i), n) := by
  have hle : entryOffset bytes i ≤ entryOffset bytes (i + 1) := le_entryStop _ _
  exact ⟨_, (BlockEntry.fromBytes_drop_eq_ok_iff (hle.trans h.stop_le)).mpr
    ⟨Nat.add_sub_cancel' hle, h.stop_le, rfl, h.wf⟩⟩

lemma slice_rest {bytes : Str} {offset : ℕ} (h : offset ≤ bytes.length) :
    (Checked.slice bytes offset bytes.length : Parse Str) = .ok (bytes.drop offset) := by
  rw [Checked.slice_eq rfl rfl h le_rfl, List.take_length]

/-- No offset within a slice overflows. -/
lemma add_consumed {bytes : Str} (hbytes : bytes.length < 2 ^ 63) {offset consumed next : ℕ}
    (hnext : offset + consumed = next) (hle : next ≤ bytes.length) :
    (add usizeLimit offset consumed : Parse ℕ) = .ok next := by
  subst hnext
  exact add_eq (hle.trans_lt (hbytes.trans (by decide)))

lemma result_entriesFrom {bytes : Str} (hbytes : bytes.length < 2 ^ 63) (left : ℕ) {index : ℕ}
    (hoffset : entryOffset bytes index ≤ bytes.length) :
    (OverfullFrom bytes index left →
      (entriesFrom bytes left index (entryOffset bytes index)).result = fail .overflow) ∧
    (¬OverfullFrom bytes index left →
      (entriesFrom bytes left index (entryOffset bytes index)).result =
        lift id (ResumeFile.entriesFrom bytes left index (entryOffset bytes index))) := by
  induction left generalizing index with
  | zero => exact ⟨fun h => absurd h (overfullFrom_zero bytes index), fun _ => rfl⟩
  | succ left ih =>
    have hentry := result_entryFromBytes (bytes.drop (entryOffset bytes index))
    rw [entryAt_drop] at hentry
    rw [overfullFrom_succ_iff, entriesFrom, ResumeFile.entriesFrom]
    simp only [Recorded.result_bind, Recorded.result_lift, slice_rest hoffset, ok_bind]
    by_cases hfull : Overfull (entryAt bytes (entryOffset bytes index))
    · rw [hentry.1 hfull]
      exact ⟨fun _ => rfl, fun h => absurd (.inl hfull) h⟩
    rw [hentry.2 hfull, or_iff_right hfull]
    cases hread : BlockEntry.fromBytes (bytes.drop (entryOffset bytes index)) with
    | error e =>
      refine ⟨fun h => ?_, fun _ => rfl⟩
      obtain ⟨n, hok⟩ := exists_fromBytes_of_good h.1
      rw [hread] at hok
      cases hok
    | ok r =>
      obtain ⟨entry, consumed⟩ := r
      obtain ⟨hnext, hstop, rfl, hwf⟩ := (BlockEntry.fromBytes_drop_eq_ok_iff hoffset).mp hread
      change _ = entryOffset bytes (index + 1) at hnext
      change entryOffset bytes (index + 1) ≤ bytes.length at hstop
      rw [lift, ok_bind]
      dsimp only [id]
      by_cases hindex : (entryAt bytes (entryOffset bytes index)).blockIndex.toNat ≠ index
      · rw [if_pos hindex, if_pos hindex]
        exact ⟨fun h => absurd h.1.index_eq hindex, fun _ => rfl⟩
      · have hgood : GoodEntry bytes index := ⟨hstop, hwf, not_not.mp hindex⟩
        rw [if_neg hindex, if_neg hindex, and_iff_right hgood, hnext]
        simp only [Recorded.result_bind, Recorded.result_lift, add_consumed hbytes hnext hstop,
          ok_bind]
        obtain ⟨hover, heq⟩ := ih hstop
        constructor
        · intro h
          rw [hover h]
          rfl
        · intro h
          rw [heq h]
          cases ResumeFile.entriesFrom bytes left (index + 1)
            (entryOffset bytes (index + 1)) <;> rfl

/-! ### The bitmaps on record -/

lemma notes_entryFromBytes (rest : Str) :
    Recorded.Notes (· ≤ rest.length) (entryFromBytes rest) := by
  refine .bind (.lift _) fun head _ => ?_
  refine .bind (.lift _) fun symbolBitmap hbitmap => ?_
  refine .bind (.note ?_) fun _ _ => .lift _
  exact length_slice_le hbitmap

lemma notes_entriesFrom (bytes : Str) (left index offset : ℕ) :
    Recorded.Notes (· ≤ bytes.length) (entriesFrom bytes left index offset) := by
  induction left generalizing index offset with
  | zero => exact .pure _
  | succ left ih =>
    refine .bind (.lift _) fun rest hrest => ?_
    have hle : rest.length ≤ bytes.length := length_slice_le hrest
    refine .bind (fun n hn => (notes_entryFromBytes rest n hn).trans hle) fun r _ => ?_
    refine .ite (fun _ => .lift _) fun _ => ?_
    refine .bind (.lift _) fun next _ => ?_
    exact .bind (ih (index + 1) next) fun _ _ => .pure _

lemma notes_fromBytes (b3 : Blake3) (data : Slice) :
    Recorded.Notes (· ≤ data.bytes.length) (fromBytes b3 data) := by
  refine .bind (.lift _) fun header _ => ?_
  refine .bind (notes_entriesFrom data.bytes _ _ _) fun r _ => ?_
  refine .ite (fun _ => ?_) fun _ => .pure _
  exact .bind (.lift _) fun _ _ => .lift _

/-! ### Files -/

/-- An entry that the parser comes to is overfull. -/
def Saturated (b3 : Blake3) (bytes : Str) : Prop :=
  GoodHeader b3 bytes ∧ OverfullFrom bytes 0 (entryCount bytes)

/-- A file without its proofs. -/
def rawFile {b3 : Blake3} (f : ResumeFile b3) : RawFile := ⟨raw f.header, f.entries⟩

lemma stop_le_of_entriesFrom {bytes : Str} {left index stop : ℕ} {entries : List BlockEntry}
    (hoffset : entryOffset bytes index ≤ bytes.length)
    (h : ResumeFile.entriesFrom bytes left index (entryOffset bytes index) = .ok (entries, stop)) :
    stop ≤ bytes.length := by
  obtain ⟨hall, -, rfl⟩ := entriesFrom_eq_ok_iff hoffset |>.mp h
  cases left with
  | zero => exact hoffset
  | succ left => exact (hall (index + left) (Nat.le_add_right _ _) (by omega)).stop_le

/-- The parser does what it does over the naturals, unless an entry it comes to is overfull. -/
lemma result_fromBytes (b3 : Blake3) (data : Slice) :
    (Saturated b3 data.bytes → (fromBytes b3 data).result = fail .overflow) ∧
      (¬Saturated b3 data.bytes →
        (fromBytes b3 data).result = lift rawFile (ResumeFile.fromBytes b3 data.bytes)) := by
  rw [fromBytes, ResumeFile.fromBytes]
  simp only [Recorded.result_bind, Recorded.result_lift, headerFromBytes_eq]
  cases hheader : ResumeHeader.fromBytes b3 data.bytes with
  | error e =>
    refine ⟨fun h => ?_, fun _ => rfl⟩
    obtain ⟨header, hok⟩ := ResumeHeader.exists_of_good h.1
    rw [hheader] at hok
    cases hok
  | ok header =>
    obtain ⟨hgood, hcount, -⟩ := ResumeHeader.of_fromBytes hheader
    have hoffset : entryOffset data.bytes 0 ≤ data.bytes.length := hgood.length_le
    have hn : header.blockCount.toNat = entryCount data.bytes := congrArg UInt32.toNat hcount
    obtain ⟨hover, heq⟩ := result_entriesFrom data.length_lt (entryCount data.bytes) hoffset
    rw [entryOffset] at hover heq
    rw [Saturated, and_iff_right hgood, lift, ok_bind]
    dsimp only [raw]
    rw [hn]
    constructor
    · intro h
      rw [hover h]
      rfl
    · intro h
      rw [heq h]
      cases hentries : ResumeFile.entriesFrom data.bytes (entryCount data.bytes) 0
          resumeHeaderSize with
      | error e => rfl
      | ok r =>
        obtain ⟨entries, stop⟩ := r
        have hle : stop ≤ data.bytes.length := stop_le_of_entriesFrom hoffset hentries
        rw [lift, ok_bind]
        dsimp only [id]
        by_cases hstop : stop ≠ data.bytes.length
        · rw [if_pos hstop, if_pos hstop]
          simp only [Recorded.result_bind, Recorded.result_lift, sub_eq hle, ok_bind]
          rfl
        · rw [if_neg hstop, if_neg hstop]
          rfl

/-- The parser comes to an end of its own, with a file or with an error, and allocates no bitmap
longer than what it is given. -/
def Total (b3 : Blake3) (data : Slice) : Prop :=
  ((∃ file, (fromBytes b3 data).result = .ok file) ∨
      ∃ e, (fromBytes b3 data).result = error e) ∧
    ∀ n ∈ (fromBytes b3 data).record, n ≤ data.bytes.length

lemma not_total_of_saturated {b3 : Blake3} {data : Slice} (h : Saturated b3 data.bytes) :
    ¬Total b3 data := by
  have hover := (result_fromBytes b3 data).1 h
  rintro ⟨⟨file, hok⟩ | ⟨e, herror⟩, -⟩
  · rw [hover] at hok
    cases hok
  · rw [hover] at herror
    cases herror

/-- The count of set bits is the one step of the parser that overflows, on an entry of `2 ^ 32` set
bits behind a good header and good entries. -/
theorem fromBytes_total_iff (b3 : Blake3) (data : Slice) :
    Total b3 data ↔ ¬Saturated b3 data.bytes := by
  refine ⟨fun htotal hsat => not_total_of_saturated hsat htotal, fun hsat => ?_⟩
  refine ⟨?_, notes_fromBytes b3 data⟩
  rw [(result_fromBytes b3 data).2 hsat]
  cases ResumeFile.fromBytes b3 data.bytes with
  | error e => exact .inr ⟨e, rfl⟩
  | ok file => exact .inl ⟨_, rfl⟩

/-! ### A file that stops the parser -/

lemma entryAt_toVec_append {e : BlockEntry}
    (hlen : e.symbolBitmap.length = (e.symbolCount.toNat + 7) / 8) (rest : Str) :
    entryAt (e.toVec ++ rest) 0 = e := by
  obtain ⟨hindex, hcount, hheld, hbitmap⟩ := e.reads_toVec_append rest
  have hbits : bitmapLenAt (e.toVec ++ rest) 0 = e.symbolBitmap.length := by
    rw [bitmapLenAt, hcount, hlen]
  rw [entryAt, hbits, Nat.zero_add, Nat.zero_add, Nat.zero_add, hindex, hcount, hheld, hbitmap]

/-- A file of one overfull entry. -/
lemma saturated_toVec {b3 : Blake3} {file : ResumeFile b3} {e : BlockEntry}
    (hcount : file.header.blockCount = 1) (hentries : file.entries = [e])
    (hlen : e.symbolBitmap.length = (e.symbolCount.toNat + 7) / 8) (hfull : Overfull e) :
    Saturated b3 file.toVec := by
  obtain ⟨hgood, hone⟩ := toVec_new_append_reads file.header (file.entries.flatMap BlockEntry.toVec)
  rw [hcount] at hone
  have hentry : entryAt file.toVec resumeHeaderSize = e := by
    rw [← entryAt_drop, ResumeFile.toVec, List.drop_left' file.header.length_toVec, hentries,
      List.flatMap_singleton, ← List.append_nil e.toVec, entryAt_toVec_append hlen]
  refine ⟨hgood, 0, le_rfl, ?_, fun j hj hlt => by omega, ?_⟩
  · rw [ResumeFile.toVec, hone]
    decide
  · rw [← hentry] at hfull
    exact hfull

/-- All the symbols of the longest block, by a bitmap of `n` full bytes. -/
def fullEntry (n : ℕ) : BlockEntry where
  blockIndex := 0
  symbolCount := 0xFFFFFFFF
  symbolsHeld := 0xFFFFFFFF
  symbolBitmap := List.replicate n 0xFF

def fullFile (n : ℕ) : ResumeFile Blake3Reference.blake3 :=
  .new Blake3Reference.blake3 (zeros 16) 0 (zeros 32) [fullEntry n]

lemma entries_fullFile (n : ℕ) : (fullFile n).entries = [fullEntry n] :=
  ResumeFile.entries_new _ _ _ _ _

lemma blockCount_fullFile (n : ℕ) : (fullFile n).header.blockCount = 1 :=
  ResumeFile.blockCount_new _ _ _ _ _

lemma length_bitmap_fullEntry (n : ℕ) : (fullEntry n).symbolBitmap.length = n :=
  List.length_replicate

lemma length_fullFile (n : ℕ) :
    (fullFile n).toVec.length = resumeHeaderSize + (blockEntryHeaderSize + n) := by
  rw [ResumeFile.toVec, entries_fullFile, List.length_append, ResumeHeader.length_toVec,
    List.flatMap_singleton, BlockEntry.length_toVec, length_bitmap_fullEntry]

lemma saturated_fullFile {n : ℕ} (hn : n = 2 ^ 29) :
    Saturated Blake3Reference.blake3 (fullFile n).toVec := by
  refine saturated_toVec (blockCount_fullFile n) (entries_fullFile n) ?_ ⟨?_, ?_, ?_⟩
  · have hcount : (fullEntry n).symbolCount.toNat = 2 ^ 32 - 1 := rfl
    rw [length_bitmap_fullEntry, hcount]
    omega
  · exact UInt32.le_refl _
  · rw [length_bitmap_fullEntry, hn]
  · intro b hb
    exact List.eq_of_mem_replicate hb

lemma length_fullFile_lt {n : ℕ} (hn : n = 2 ^ 29) : (fullFile n).toVec.length < 2 ^ 63 := by
  rw [length_fullFile, resumeHeaderSize, blockEntryHeaderSize]
  omega

def overfullData : Slice := ⟨(fullFile (2 ^ 29)).toVec, length_fullFile_lt rfl⟩

/-- 512 MiB of set bits are one more than a `u32` counts. -/
theorem fromBytes_not_total : ¬Total Blake3Reference.blake3 overfullData :=
  not_total_of_saturated (saturated_fullFile rfl)

end Dhow.ResumeFile.Machine
