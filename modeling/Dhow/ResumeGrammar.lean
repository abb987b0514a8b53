import Dhow.Blake3Reference
import Dhow.Resume

/-!
# The grammar of resume files

The conditions under which `proto/resume.md` has a reader reject a resume file, as conditions on
its bytes. The parser accepts exactly the strings to which none of them applies and in which every
entry that the header counts is there in full.
-/

namespace Dhow
open Bytes

/-! ### Entries -/

/-- The bytes of an entry's bitmap, by the symbol count in the entry at `offset`. -/
def bitmapLenAt (bytes : Str) (offset : ℕ) : ℕ := ((u32At bytes (offset + 4)).toNat + 7) / 8

/-- What the bytes at `offset` say as an entry. -/
def entryAt (bytes : Str) (offset : ℕ) : BlockEntry where
  blockIndex := u32At bytes offset
  symbolCount := u32At bytes (offset + 4)
  symbolsHeld := u32At bytes (offset + 8)
  symbolBitmap := slice bytes (offset + blockEntryHeaderSize) (bitmapLenAt bytes offset)

/-- Where the entry at `offset` ends. -/
def entryStop (bytes : Str) (offset : ℕ) : ℕ :=
  offset + blockEntryHeaderSize + bitmapLenAt bytes offset

/-- Where entry `i` starts: behind the header and the entries before it. -/
def entryOffset (bytes : Str) : ℕ → ℕ
  | 0 => resumeHeaderSize
  | i + 1 => entryStop bytes (entryOffset bytes i)

/-- The last byte of a bitmap says whether bits are set past the symbols. -/
lemma BlockEntry.hasStrayBits_eq_false_iff {symbolCount : UInt32} {symbolBitmap : Str}
    (hl : symbolBitmap.length = (symbolCount.toNat + 7) / 8) :
    BlockEntry.hasStrayBits symbolCount symbolBitmap = false ↔
      ∀ i, symbolCount.toNat ≤ i → Bitmap.bit symbolBitmap i = false := by
  unfold hasStrayBits
  constructor
  · intro h i hi
    apply Bitmap.bit_eq_false_of_getLast hl _ hi
    intro last hlast hn
    rw [hlast] at h
    simpa [hn] using h
  · intro h
    cases hlast : symbolBitmap.getLast? with
    | none => rfl
    | some last =>
      by_cases hn : symbolCount.toNat % 8 = 0
      · simp [hn]
      · simp [Bitmap.getLast_shiftRight_eq_zero hl h hn hlast]

lemma BlockEntry.fromBytes_drop (bytes : Str) (offset : ℕ) :
    BlockEntry.fromBytes (bytes.drop offset) =
      let e := entryAt bytes offset
      let stop := blockEntryHeaderSize + bitmapLenAt bytes offset
      let set := UInt32.ofNat (Bitmap.popcount e.symbolBitmap)
      if bytes.length - offset < blockEntryHeaderSize then
        .error (.truncated blockEntryHeaderSize (bytes.length - offset))
      else if e.symbolCount < e.symbolsHeld then .error (.invalidSymbolCount e.symbolsHeld)
      else if bytes.length - offset < stop then .error (.truncated stop (bytes.length - offset))
      else if set ≠ e.symbolsHeld then .error (.heldCountMismatch e.symbolsHeld set)
      else if hasStrayBits e.symbolCount e.symbolBitmap then
        .error (.invalidSymbolCount e.symbolCount)
      else .ok (e, stop) := by
  simp only [fromBytes, u32At_drop, slice_drop, List.length_drop]
  rfl

/-- An entry is read exactly when it is there in full and well formed. -/
lemma BlockEntry.fromBytes_drop_eq_ok_iff {bytes : Str} {offset n : ℕ} {e : BlockEntry}
    (hoffset : offset ≤ bytes.length) :
    BlockEntry.fromBytes (bytes.drop offset) = .ok (e, n) ↔
      offset + n = entryStop bytes offset ∧ entryStop bytes offset ≤ bytes.length ∧
        e = entryAt bytes offset ∧ e.Wf := by
  rw [fromBytes_drop]
  dsimp only
  constructor
  · intro h
    split_ifs at h with h1 h2 h3 h4 h5
    rw [Except.ok.injEq, Prod.mk.injEq] at h
    obtain ⟨rfl, rfl⟩ := h
    have hlen : (entryAt bytes offset).symbolBitmap.length =
        ((entryAt bytes offset).symbolCount.toNat + 7) / 8 := by
      apply length_slice_of_le
      omega
    have hbits := (hasStrayBits_eq_false_iff hlen).mp (by simpa using h5)
    refine ⟨by rw [entryStop]; omega, by rw [entryStop]; omega, rfl, ?_⟩
    refine ⟨UInt32.not_lt.mp h2, hlen, ?_, hbits⟩
    have hle := Bitmap.popcount_le hbits
    have hlt := (entryAt bytes offset).symbolCount.toNat_lt
    rw [not_not] at h4
    rw [← h4, UInt32.toNat_ofNat_of_lt' (by rw [UInt32.size]; omega)]
  · rintro ⟨hn, hstop, rfl, hwf⟩
    rw [entryStop] at hn hstop
    have hpop : UInt32.ofNat (Bitmap.popcount (entryAt bytes offset).symbolBitmap) =
        (entryAt bytes offset).symbolsHeld := by
      rw [hwf.popcount_eq, UInt32.ofNat_toNat]
    rw [if_neg (by omega), if_neg (UInt32.not_lt.mpr hwf.held_le), if_neg (by omega),
      if_neg (not_not.mpr hpop), if_neg (by simp [hwf.hasStrayBits_eq_false])]
    congr 2
    omega

/-- An entry that is there in full is the bytes it was read from. -/
lemma toVec_entryAt {bytes : Str} {offset : ℕ} (h : entryStop bytes offset ≤ bytes.length) :
    (entryAt bytes offset).toVec = slice bytes offset (entryStop bytes offset - offset) := by
  rw [entryStop, blockEntryHeaderSize] at h ⊢
  have hlen : offset + 12 + bitmapLenAt bytes offset - offset = 4 + (4 + (4 + bitmapLenAt bytes offset)) := by
    omega
  rw [BlockEntry.toVec, entryAt, u32le_u32At (by omega), u32le_u32At (by omega),
    u32le_u32At (by omega), blockEntryHeaderSize, slice_append_slice, slice_append_slice,
    slice_append_slice, hlen]

lemma le_entryStop (bytes : Str) (offset : ℕ) : offset ≤ entryStop bytes offset := by
  rw [entryStop]
  omega

lemma entryOffset_mono (bytes : Str) {i j : ℕ} (h : i ≤ j) :
    entryOffset bytes i ≤ entryOffset bytes j := by
  induction h with
  | refl => exact le_rfl
  | step _ ih => exact ih.trans (le_entryStop bytes _)

/-- Entry `i` is there in full, well formed, and at its position. -/
structure GoodEntry (bytes : Str) (i : ℕ) : Prop where
  stop_le : entryOffset bytes (i + 1) ≤ bytes.length
  wf : (entryAt bytes (entryOffset bytes i)).Wf
  index_eq : (entryAt bytes (entryOffset bytes i)).blockIndex.toNat = i

/-- What the entry loop reads, from entry `index` on. -/
def entriesOf (bytes : Str) (index left : ℕ) : List BlockEntry :=
  (List.range' index left).map fun i => entryAt bytes (entryOffset bytes i)

lemma ResumeFile.entriesFrom_eq_ok_iff {bytes : Str} {left index stop : ℕ}
    {entries : List BlockEntry} (hoffset : entryOffset bytes index ≤ bytes.length) :
    ResumeFile.entriesFrom bytes left index (entryOffset bytes index) = .ok (entries, stop) ↔
      (∀ i, index ≤ i → i < index + left → GoodEntry bytes i) ∧
        entries = entriesOf bytes index left ∧ stop = entryOffset bytes (index + left) := by
  induction left generalizing index entries with
  | zero =>
    simp only [entriesFrom, entriesOf, List.range'_zero, List.map_nil, Except.ok.injEq,
      Prod.mk.injEq, Nat.add_zero]
    constructor
    · rintro ⟨rfl, rfl⟩
      exact ⟨fun i hi hlt => by omega, rfl, rfl⟩
    · rintro ⟨-, rfl, rfl⟩
      exact ⟨rfl, rfl⟩
  | succ left ih =>
    have hread : ∀ {e n}, BlockEntry.fromBytes (bytes.drop (entryOffset bytes index)) = .ok (e, n) →
        e = entryAt bytes (entryOffset bytes index) ∧
          entryOffset bytes index + n = entryOffset bytes (index + 1) ∧
          entryOffset bytes (index + 1) ≤ bytes.length ∧ e.Wf := by
      intro e n he
      obtain ⟨hn, hstop, heq, hwf⟩ := (BlockEntry.fromBytes_drop_eq_ok_iff hoffset).mp he
      exact ⟨heq, hn, hstop, hwf⟩
    have hsum : index + (left + 1) = index + 1 + left := by omega
    rw [entriesFrom, hsum]
    constructor
    · intro h
      split at h
      · cases h
      next e n he =>
        obtain ⟨rfl, hn, hstop, hwf⟩ := hread he
        split_ifs at h with hi
        rw [not_not] at hi
        split at h
        · cases h
        next es stop' hrest =>
          rw [Except.ok.injEq, Prod.mk.injEq] at h
          obtain ⟨rfl, rfl⟩ := h
          rw [hn] at hrest
          obtain ⟨hgood, rfl, rfl⟩ := (ih hstop).mp hrest
          refine ⟨?_, rfl, rfl⟩
          intro i hle hlt
          rcases Nat.eq_or_lt_of_le hle with rfl | hlt'
          · exact ⟨hstop, hwf, hi⟩
          · exact hgood i hlt' hlt
    · rintro ⟨hgood, rfl, rfl⟩
      have hfirst := hgood index le_rfl (by omega)
      have he : BlockEntry.fromBytes (bytes.drop (entryOffset bytes index)) =
          .ok (entryAt bytes (entryOffset bytes index),
            entryOffset bytes (index + 1) - entryOffset bytes index) := by
        apply (BlockEntry.fromBytes_drop_eq_ok_iff hoffset).mpr
        exact ⟨Nat.add_sub_cancel' (le_entryStop _ _), hfirst.stop_le, rfl, hfirst.wf⟩
      have hrest : ResumeFile.entriesFrom bytes left (index + 1) (entryOffset bytes (index + 1)) =
          .ok (entriesOf bytes (index + 1) left, entryOffset bytes (index + 1 + left)) :=
        (ih hfirst.stop_le).mpr ⟨fun i hle hlt => hgood i (by omega) hlt, rfl, rfl⟩
      have hadd : entryOffset bytes index + (entryOffset bytes (index + 1) -
          entryOffset bytes index) = entryOffset bytes (index + 1) :=
        Nat.add_sub_cancel' (le_entryStop _ _)
      simp only [he, hfirst.index_eq, ne_eq, not_true_eq_false, if_false, hadd, hrest]
      rfl

/-- The entries read are the bytes between the first and the last. -/
lemma flatMap_entriesOf {bytes : Str} {left index : ℕ}
    (h : ∀ i, index ≤ i → i < index + left → GoodEntry bytes i) :
    (entriesOf bytes index left).flatMap BlockEntry.toVec =
      slice bytes (entryOffset bytes index)
        (entryOffset bytes (index + left) - entryOffset bytes index) := by
  induction left generalizing index with
  | zero => simp [entriesOf, slice]
  | succ left ih =>
    have htail : ∀ i, index + 1 ≤ i → i < index + 1 + left → GoodEntry bytes i := fun i hle hlt =>
      h i (by omega) (by omega)
    have hrest := ih htail
    have hfirst := (h index le_rfl (by omega)).stop_le
    have hle : entryOffset bytes index ≤ entryOffset bytes (index + 1) := le_entryStop _ _
    have hle' := entryOffset_mono bytes (show index + 1 ≤ index + 1 + left by omega)
    have hsum : index + (left + 1) = index + 1 + left := by omega
    have hcons : entriesOf bytes index (left + 1) =
        entryAt bytes (entryOffset bytes index) :: entriesOf bytes (index + 1) left := rfl
    rw [hcons, List.flatMap_cons, hrest, toVec_entryAt hfirst, hsum]
    change slice bytes _ (entryOffset bytes (index + 1) - entryOffset bytes index) ++ _ = _
    have hjoin := slice_append_slice bytes (entryOffset bytes index)
      (entryOffset bytes (index + 1) - entryOffset bytes index)
      (entryOffset bytes (index + 1 + left) - entryOffset bytes (index + 1))
    rw [Nat.add_sub_cancel' hle] at hjoin
    rw [hjoin]
    congr 1
    omega

/-! ### The header -/

structure GoodHeader (b3 : Blake3) (bytes : Str) : Prop where
  length_le : resumeHeaderSize ≤ bytes.length
  magic_eq : arrAt 4 bytes 0 = resumeMagic
  version_eq : u8At bytes 4 = resumeVersion
  reserved1_eq : arrAt 3 bytes 5 = zeros 3
  reserved2_eq : arrAt 24 bytes 68 = zeros 24
  crc32c_eq : u32At bytes 92 = crc32cDigest (slice bytes 0 crcCoverBytes)
  integrityDigest_eq : arrAt 32 bytes 96 = blake3Digest b3 (slice bytes 0 integrityCoverBytes)

namespace ResumeHeader
variable {b3 : Blake3} {bytes : Str}

lemma of_fromBytes {h : ResumeHeader b3} (hok : fromBytes b3 bytes = .ok h) :
    GoodHeader b3 bytes ∧ h.blockCount = u32At bytes 24 ∧
      h.toVec = slice bytes 0 resumeHeaderSize := by
  unfold fromBytes at hok
  split_ifs at hok with hlen hmagic hversion h1 h2 hcrc hdigest
  rw [Except.ok.injEq] at hok
  subst hok
  have hle : 128 ≤ bytes.length := Nat.le_of_not_lt hlen
  refine ⟨⟨hle, not_not.mp hmagic, not_not.mp hversion, not_not.mp h1, not_not.mp h2,
    not_not.mp hcrc, not_not.mp hdigest⟩, rfl, ?_⟩
  simp only [toVec]
  rw [arrAt_toList (by omega), ← slice_eq_singleton (by omega), arrAt_toList (by omega),
    arrAt_toList (by omega), u32le_u32At (by omega), u64le_u64At (by omega),
    arrAt_toList (by omega), arrAt_toList (by omega), u32le_u32At (by omega),
    arrAt_toList (by omega)]
  rw [slice_append_slice bytes 92 4 32, slice_append_slice bytes 68 24 36,
    slice_append_slice bytes 36 32 60, slice_append_slice bytes 28 8 92,
    slice_append_slice bytes 24 4 100, slice_append_slice bytes 8 16 104,
    slice_append_slice bytes 5 3 120, slice_append_slice bytes 4 1 123,
    slice_append_slice bytes 0 4 124]
  rfl

lemma exists_of_good (h : GoodHeader b3 bytes) : ∃ header, fromBytes b3 bytes = .ok header := by
  unfold fromBytes
  rw [dif_neg (Nat.not_lt.mpr h.length_le), dif_neg (not_not.mpr h.magic_eq),
    dif_neg (not_not.mpr h.version_eq), dif_neg (not_not.mpr h.reserved1_eq),
    dif_neg (not_not.mpr h.reserved2_eq), dif_neg (not_not.mpr h.crc32c_eq),
    dif_neg (not_not.mpr h.integrityDigest_eq)]
  exact ⟨_, rfl⟩

end ResumeHeader

/-! ### Files -/

/-- The number of entries the header counts. -/
def entryCount (bytes : Str) : ℕ := (u32At bytes 24).toNat

lemma ResumeFile.fromBytes_eq_ok_iff {b3 : Blake3} {bytes : Str} {f : ResumeFile b3} :
    ResumeFile.fromBytes b3 bytes = .ok f ↔
      ResumeHeader.fromBytes b3 bytes = .ok f.header ∧
        (∀ i < entryCount bytes, GoodEntry bytes i) ∧
        f.entries = entriesOf bytes 0 (entryCount bytes) ∧
        entryOffset bytes (entryCount bytes) = bytes.length := by
  unfold fromBytes
  cases hh : ResumeHeader.fromBytes b3 bytes with
  | error e =>
    constructor
    · intro h
      cases h
    · rintro ⟨h, -⟩
      cases h
  | ok header =>
    obtain ⟨hgood, hcount, -⟩ := ResumeHeader.of_fromBytes hh
    have hn : header.blockCount.toNat = entryCount bytes := by rw [hcount, entryCount]
    have hoffset : entryOffset bytes 0 ≤ bytes.length := hgood.length_le
    have hentries : ∀ {entries stop}, ResumeFile.entriesFrom bytes (entryCount bytes) 0
        resumeHeaderSize = .ok (entries, stop) ↔
        (∀ i, 0 ≤ i → i < 0 + entryCount bytes → GoodEntry bytes i) ∧
          entries = entriesOf bytes 0 (entryCount bytes) ∧
            stop = entryOffset bytes (0 + entryCount bytes) := fun {entries stop} =>
      ResumeFile.entriesFrom_eq_ok_iff hoffset
    simp only [Nat.zero_le, forall_const, Nat.zero_add] at hentries
    dsimp only
    rw [hn]
    constructor
    · intro h
      split at h
      · cases h
      next entries stop he =>
        obtain ⟨hall, rfl, rfl⟩ := hentries.mp he
        split_ifs at h with hstop
        rw [not_not] at hstop
        cases h
        exact ⟨rfl, hall, rfl, hstop⟩
    · rintro ⟨hheader, hall, hes, hstop⟩
      rw [hentries.mpr ⟨hall, rfl, rfl⟩]
      dsimp only
      rw [if_neg (not_not.mpr hstop), ← hes]
      cases hheader
      rfl

/-- Entry `i` is one the header counts and is there in full. -/
structure HasEntry (bytes : Str) (i : ℕ) : Prop where
  lt_entryCount : i < entryCount bytes
  stop_le : entryOffset bytes (i + 1) ≤ bytes.length

/-- The rows of the table of validation rules. -/
inductive Defect (b3 : Blake3) (bytes : Str) : Prop
  | magic (h : arrAt 4 bytes 0 ≠ resumeMagic)
  | version (h : u8At bytes 4 ≠ resumeVersion)
  | fewerBytes (h : bytes.length < resumeHeaderSize)
  | reserved (h : arrAt 3 bytes 5 ≠ zeros 3 ∨ arrAt 24 bytes 68 ≠ zeros 24)
  | crc32c (h : u32At bytes 92 ≠ crc32cDigest (slice bytes 0 crcCoverBytes))
  | integrity (h : arrAt 32 bytes 96 ≠ blake3Digest b3 (slice bytes 0 integrityCoverBytes))
  | heldExceeds {i : ℕ} (hi : HasEntry bytes i)
      (h : (entryAt bytes (entryOffset bytes i)).symbolCount <
        (entryAt bytes (entryOffset bytes i)).symbolsHeld)
  | heldDiffers {i : ℕ} (hi : HasEntry bytes i)
      (h : (entryAt bytes (entryOffset bytes i)).symbolsHeld.toNat ≠
        Bitmap.popcount (entryAt bytes (entryOffset bytes i)).symbolBitmap)
  | strayBit {i j : ℕ} (hi : HasEntry bytes i)
      (hj : (entryAt bytes (entryOffset bytes i)).symbolCount.toNat ≤ j)
      (h : Bitmap.bit (entryAt bytes (entryOffset bytes i)).symbolBitmap j = true)
  | position {i : ℕ} (hi : HasEntry bytes i)
      (h : (entryAt bytes (entryOffset bytes i)).blockIndex.toNat ≠ i)
  | trailing (h : entryOffset bytes (entryCount bytes) < bytes.length)

/-- The file ends before the last entry the header counts does. -/
def CutShort (bytes : Str) : Prop := bytes.length < entryOffset bytes (entryCount bytes)

lemma goodHeader_of_not_defect {b3 : Blake3} {bytes : Str} (h : ¬Defect b3 bytes) :
    GoodHeader b3 bytes where
  length_le := Nat.le_of_not_lt fun hn => h (.fewerBytes hn)
  magic_eq := by
    by_contra hn
    exact h (.magic hn)
  version_eq := by
    by_contra hn
    exact h (.version hn)
  reserved1_eq := by
    by_contra hn
    exact h (.reserved (.inl hn))
  reserved2_eq := by
    by_contra hn
    exact h (.reserved (.inr hn))
  crc32c_eq := by
    by_contra hn
    exact h (.crc32c hn)
  integrityDigest_eq := by
    by_contra hn
    exact h (.integrity hn)

lemma goodEntry_of_not_defect {b3 : Blake3} {bytes : Str} {i : ℕ} (h : ¬Defect b3 bytes)
    (hi : HasEntry bytes i) : GoodEntry bytes i where
  stop_le := hi.stop_le
  wf :=
    { held_le := UInt32.not_lt.mp fun hn => h (.heldExceeds hi hn)
      length_bitmap := length_slice_of_le hi.stop_le
      popcount_eq := by
        by_contra hn
        exact h (.heldDiffers hi (Ne.symm hn))
      bit_eq_false := by
        intro j hj
        by_contra hn
        exact h (.strayBit hi hj (Bool.eq_true_of_not_eq_false hn)) }
  index_eq := by
    by_contra hn
    exact h (.position hi hn)

/-- A header and entries as the parser wants them have none of the defects. -/
lemma not_defect {b3 : Blake3} {bytes : Str} (hheader : GoodHeader b3 bytes)
    (hentries : ∀ i, HasEntry bytes i → GoodEntry bytes i)
    (hstop : bytes.length ≤ entryOffset bytes (entryCount bytes)) : ¬Defect b3 bytes := by
  intro h
  cases h with
  | magic h => exact h hheader.magic_eq
  | version h => exact h hheader.version_eq
  | fewerBytes h => exact absurd hheader.length_le (Nat.not_le.mpr h)
  | reserved h => exact h.elim (fun h => h hheader.reserved1_eq) fun h => h hheader.reserved2_eq
  | crc32c h => exact h hheader.crc32c_eq
  | integrity h => exact h hheader.integrityDigest_eq
  | heldExceeds hi h => exact UInt32.not_lt.mpr (hentries _ hi).wf.held_le h
  | heldDiffers hi h => exact h (hentries _ hi).wf.popcount_eq.symm
  | strayBit hi hj h =>
    rw [(hentries _ hi).wf.bit_eq_false _ hj] at h
    cases h
  | position hi h => exact h (hentries _ hi).index_eq
  | trailing h => omega

lemma ResumeFile.isOk_fromBytes_iff {b3 : Blake3} {bytes : Str} :
    (∃ f, ResumeFile.fromBytes b3 bytes = .ok f) ↔ ¬Defect b3 bytes ∧ ¬CutShort bytes := by
  constructor
  · rintro ⟨f, hf⟩
    obtain ⟨hheader, hall, -, hstop⟩ := fromBytes_eq_ok_iff.mp hf
    refine ⟨not_defect (ResumeHeader.of_fromBytes hheader).1 ?_ hstop.ge, ?_⟩
    · intro i hi
      exact hall i hi.lt_entryCount
    · rw [CutShort, hstop]
      exact lt_irrefl _
  · rintro ⟨hdefect, hcut⟩
    obtain ⟨header, hheader⟩ := ResumeHeader.exists_of_good (goodHeader_of_not_defect hdefect)
    rw [CutShort, not_lt] at hcut
    refine ⟨⟨header, entriesOf bytes 0 (entryCount bytes)⟩, fromBytes_eq_ok_iff.mpr
      ⟨hheader, ?_, rfl, ?_⟩⟩
    · intro i hi
      apply goodEntry_of_not_defect hdefect
      exact ⟨hi, (entryOffset_mono bytes (show i + 1 ≤ entryCount bytes by omega)).trans hcut⟩
    · by_contra hn
      exact hdefect (.trailing (by omega))

lemma ResumeFile.toVec_of_fromBytes {b3 : Blake3} {bytes : Str} {f : ResumeFile b3}
    (h : ResumeFile.fromBytes b3 bytes = .ok f) : f.toVec = bytes := by
  obtain ⟨hheader, hall, hentries, hstop⟩ := fromBytes_eq_ok_iff.mp h
  obtain ⟨hgood, -, hvec⟩ := ResumeHeader.of_fromBytes hheader
  have hle : resumeHeaderSize ≤ bytes.length := hgood.length_le
  have hgoodAll : ∀ i, 0 ≤ i → i < 0 + entryCount bytes → GoodEntry bytes i := fun i _ hlt =>
    hall i (by omega)
  have hflat := flatMap_entriesOf hgoodAll
  rw [Nat.zero_add, hstop] at hflat
  change _ = slice bytes resumeHeaderSize (bytes.length - resumeHeaderSize) at hflat
  have hjoin := slice_append_slice bytes 0 resumeHeaderSize (bytes.length - resumeHeaderSize)
  rw [Nat.zero_add, Nat.add_sub_cancel' hle, slice_zero_length] at hjoin
  rw [toVec, hvec, hentries, hflat, hjoin]

/-- An entry a receiver can write: its counter and its bitmap are the same set of its symbols. -/
structure BlockEntry.Consistent (e : BlockEntry) : Prop where
  length_bitmap : e.symbolBitmap.length = (e.symbolCount.toNat + 7) / 8
  held_eq : e.symbolsHeld.toNat = Bitmap.popcount e.symbolBitmap
  bit_eq_false : ∀ i, e.symbolCount.toNat ≤ i → Bitmap.bit e.symbolBitmap i = false

lemma BlockEntry.Consistent.wf {e : BlockEntry} (h : e.Consistent) : e.Wf where
  held_le := by
    rw [UInt32.le_iff_toNat_le, h.held_eq]
    exact Bitmap.popcount_le h.bit_eq_false
  length_bitmap := h.length_bitmap
  popcount_eq := h.held_eq.symm
  bit_eq_false := h.bit_eq_false

/-- The codec of resume files: a file of fewer than `2 ^ 32` consistent entries in order is read
back as it was written, what is read is written as the bytes it was read from, and a string is
read exactly when no validation rule rejects it and no entry it counts is cut short. -/
theorem ResumeFile.serialize_parse_exact (b3 : Blake3) :
    (∀ sessionId journalBytes journalDigest (entries : List BlockEntry),
      entries.length < 2 ^ 32 → (∀ e ∈ entries, e.Consistent) →
      (∀ (j : ℕ) (e : BlockEntry), entries[j]? = some e → e.blockIndex.toNat = j) →
      ∃ f, ResumeFile.fromBytes b3
          (ResumeFile.new b3 sessionId journalBytes journalDigest entries).toVec = .ok f ∧
        f.header.sessionId = sessionId ∧ f.header.journalBytes = journalBytes ∧
        f.header.journalDigest = journalDigest ∧ f.entries = entries) ∧
    (∀ bytes f, ResumeFile.fromBytes b3 bytes = .ok f → f.toVec = bytes) ∧
    ∀ bytes, (∃ f, ResumeFile.fromBytes b3 bytes = .ok f) ↔
      ¬Defect b3 bytes ∧ ¬CutShort bytes := by
  refine ⟨?_, fun _ _ => toVec_of_fromBytes, fun _ => isOk_fromBytes_iff⟩
  intro sessionId journalBytes journalDigest entries hlength hentries hindex
  refine ⟨_, fromBytes_toVec _ ?_ (fun e he => (hentries e he).wf) hindex, rfl, rfl, rfl, rfl⟩
  exact UInt32.toNat_ofNat_of_lt' hlength

theorem ResumeFile.serialize_parse_one_entry :
    ∃ f, ResumeFile.fromBytes Blake3Reference.blake3
        (ResumeFile.new Blake3Reference.blake3 (zeros 16) 70 (zeros 32) [⟨0, 3, 2, [5]⟩]).toVec =
          .ok f ∧ f.entries = [⟨0, 3, 2, [5]⟩] := by
  have hentry : BlockEntry.Consistent ⟨0, 3, 2, [5]⟩ := by
    refine ⟨rfl, by decide, ?_⟩
    intro i hi
    have hi : 3 ≤ i := hi
    by_cases hlt : i < 8
    · interval_cases i <;> rfl
    · exact Bitmap.bit_eq_false_of_le (by simpa using hlt)
  obtain ⟨f, hf, -, -, -, hentries⟩ := (ResumeFile.serialize_parse_exact Blake3Reference.blake3).1 (zeros 16)
    70 (zeros 32) [⟨0, 3, 2, [5]⟩] (by decide) (by simpa using hentry) (by
      intro j e he
      cases j with
      | zero =>
        cases he
        rfl
      | succ j => simp at he)
  exact ⟨f, hf, hentries⟩

lemma toVec_new_append_reads {b3 : Blake3} (h : ResumeHeader b3) (rest : Str) :
    GoodHeader b3 (h.toVec ++ rest) ∧ entryCount (h.toVec ++ rest) = h.blockCount.toNat := by
  obtain ⟨hgood, hcount, -⟩ :=
    ResumeHeader.of_fromBytes (ResumeHeader.fromBytes_toVec_append h rest)
  exact ⟨hgood, by rw [entryCount, hcount]⟩

lemma ResumeFile.entries_new (b3 : Blake3) (sessionId : Arr 16) (journalBytes : UInt64)
    (journalDigest : Arr 32) (entries : List BlockEntry) :
    (ResumeFile.new b3 sessionId journalBytes journalDigest entries).entries = entries := rfl

lemma ResumeFile.blockCount_new (b3 : Blake3) (sessionId : Arr 16) (journalBytes : UInt64)
    (journalDigest : Arr 32) (entries : List BlockEntry) :
    (ResumeFile.new b3 sessionId journalBytes journalDigest entries).header.blockCount =
      UInt32.ofNat entries.length := rfl

/-- As many empty entries as the block count can take, and one more. -/
def wrappingEntries : List BlockEntry :=
  (List.range (2 ^ 32)).map fun i => ⟨UInt32.ofNat i, 0, 0, []⟩

/-- A header that counts one entry, alone, is refused although no validation rule rejects it; and a
file of `2 ^ 32` entries is written with a block count of zero and not read back. -/
theorem ResumeFile.codec_not_exact :
    (¬Defect Blake3Reference.blake3
        (ResumeHeader.new Blake3Reference.blake3 (zeros 16) 0 (zeros 32) [⟨0, 0, 0, []⟩]).toVec ∧
      ¬∃ f, ResumeFile.fromBytes Blake3Reference.blake3
        (ResumeHeader.new Blake3Reference.blake3 (zeros 16) 0 (zeros 32) [⟨0, 0, 0, []⟩]).toVec =
          .ok f) ∧
    (∀ e ∈ wrappingEntries, e.Consistent) ∧
    (∀ (j : ℕ) (e : BlockEntry), wrappingEntries[j]? = some e → e.blockIndex.toNat = j) ∧
    ¬∃ f, ResumeFile.fromBytes Blake3Reference.blake3
      (ResumeFile.new Blake3Reference.blake3 (zeros 16) 0 (zeros 32) wrappingEntries).toVec =
        .ok f := by
  refine ⟨?_, ?_, ?_, ?_⟩
  · generalize hh : ResumeHeader.new Blake3Reference.blake3 (zeros 16) 0 (zeros 32)
      [⟨0, 0, 0, []⟩] = h
    have hcount : h.blockCount = 1 := by
      rw [← hh]
      rfl
    obtain ⟨hgood, hentries⟩ := toVec_new_append_reads h []
    rw [List.append_nil, hcount] at hentries
    rw [List.append_nil] at hgood
    have hlen : h.toVec.length = 128 := h.length_toVec
    have hstop : 128 + 12 ≤ entryOffset h.toVec 1 := by
      change 128 + 12 ≤ 128 + 12 + bitmapLenAt h.toVec 128
      omega
    have hone : entryCount h.toVec = 1 := hentries
    constructor
    · apply not_defect hgood
      · intro i hi
        have hlt := hi.lt_entryCount
        have hle := hi.stop_le
        have hi0 : i = 0 := by omega
        subst hi0
        rw [Nat.zero_add] at hle
        omega
      · rw [hone]
        omega
    · rintro ⟨f, hf⟩
      have hend := (ResumeFile.fromBytes_eq_ok_iff.mp hf).2.2.2
      rw [hone] at hend
      omega
  · intro e he
    obtain ⟨i, -, rfl⟩ := List.mem_map.mp he
    refine ⟨by simp, rfl, ?_⟩
    intro j _
    exact Bitmap.bit_eq_false_of_le (Nat.zero_le j)
  · intro j e he
    rw [wrappingEntries, List.getElem?_map, Option.map_eq_some_iff] at he
    obtain ⟨i, hi, rfl⟩ := he
    obtain ⟨hlt, rfl⟩ := List.getElem?_eq_some_iff.mp hi
    rw [List.length_range] at hlt
    rw [List.getElem_range]
    exact UInt32.toNat_ofNat_of_lt' hlt
  · rintro ⟨f, hf⟩
    have hlength : wrappingEntries.length = 2 ^ 32 := by
      rw [wrappingEntries, List.length_map, List.length_range]
    have hvec : ∀ l : List ℕ, ((l.map fun i => (⟨UInt32.ofNat i, 0, 0, []⟩ : BlockEntry)).flatMap
        BlockEntry.toVec).length = 12 * l.length := by
      intro l
      induction l with
      | nil => rfl
      | cons i l ih =>
        rw [List.map_cons, List.flatMap_cons, List.length_append, ih, BlockEntry.length_toVec,
          List.length_cons, blockEntryHeaderSize, List.length_nil]
        omega
    have hbytes : (wrappingEntries.flatMap BlockEntry.toVec).length = 12 * 2 ^ 32 := by
      rw [wrappingEntries, hvec, List.length_range]
    generalize hh : ResumeFile.new Blake3Reference.blake3 (zeros 16) 0 (zeros 32) wrappingEntries =
      file at hf
    have hentries : file.entries = wrappingEntries := by rw [← hh, ResumeFile.entries_new]
    have hcount : file.header.blockCount = 0 := by
      rw [← hh, ResumeFile.blockCount_new, hlength]
      rfl
    obtain ⟨-, hzero⟩ := toVec_new_append_reads file.header (file.entries.flatMap BlockEntry.toVec)
    rw [hcount] at hzero
    have hend := (ResumeFile.fromBytes_eq_ok_iff.mp hf).2.2.2
    rw [ResumeFile.toVec, hzero, hentries, List.length_append, hbytes,
      ResumeHeader.length_toVec] at hend
    change 128 = 128 + 12 * 2 ^ 32 at hend
    omega

end Dhow
