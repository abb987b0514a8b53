import Dhow.Extraction
import Dhow.ReferenceTree

/-!
# Archives byte for byte

Extraction reads past reserved bytes, past the flag bits it has no meaning for and past what is
behind the last entry. An archive without them is what the writer makes of the extracted files,
and no other archive is.
-/

namespace Dhow.Pack
open Bytes FileSystem

/-! ### The layout of an entry -/

section
variable (data : Str) (offset : ℕ)

def nameLenAt : ℕ := (u16At data offset).toNat
def flagsAt : UInt8 := u8At data (offset + 2 + nameLenAt data offset)
def sizeAt : ℕ := (u64At data (offset + 3 + nameLenAt data offset)).toNat
def bodyAt : ℕ := offset + 2 + nameLenAt data offset + 1 + 8

/-- So many entries follow, with no flag but the one that is known, and no byte follows them. -/
def TidyFrom : (left offset : ℕ) → Prop
  | 0, offset => offset = data.length
  | left + 1, offset =>
    flagsAt data offset ≤ 1 ∧ TidyFrom left (bodyAt data offset + sizeAt data offset)

instance decidableTidyFrom : (left offset : ℕ) → Decidable (TidyFrom data left offset)
  | 0, offset => inferInstanceAs (Decidable (offset = data.length))
  | left + 1, offset =>
    haveI := decidableTidyFrom left (bodyAt data offset + sizeAt data offset)
    inferInstanceAs (Decidable (flagsAt data offset ≤ 1 ∧ _))

/-- An archive with nothing that extraction would read past. -/
structure Tidy : Prop where
  reserved : arrAt 3 data 5 = zeros 3
  entries : TidyFrom data (u32At data 8).toNat 12

end

lemma eq_flag_iff (b : UInt8) : b = (if b &&& 1 ≠ 0 then 1 else 0) ↔ b ≤ 1 := by
  have hall : ∀ n : Fin 256, UInt8.ofNat n = (if UInt8.ofNat n &&& 1 ≠ 0 then 1 else 0) ↔
      UInt8.ofNat n ≤ 1 := by decide +kernel
  have hb := hall ⟨b.toNat, b.toNat_lt⟩
  rwa [UInt8.ofNat_toNat] at hb

/-- Where an entry's parts are, and when its header is the one that is written for it. -/
lemma layout_of_readEntry {data : Str} {offset next : ℕ} {entry : Entry}
    (h : readEntry data offset = .ok (entry, next)) :
    next = bodyAt data offset ∧ entry.size = sizeAt data offset ∧
      offset + entry.head.length = next ∧ next + entry.size ≤ data.length ∧
      (slice data offset entry.head.length = entry.head ↔ flagsAt data offset ≤ 1) := by
  unfold readEntry at h
  dsimp only at h
  split_ifs at h with h1 h2 h3 h4
  · split at h <;> cases h
  · split at h
    · cases h
    · obtain ⟨rfl, rfl⟩ := Prod.mk.inj (Except.ok.inj h)
      have hname : (slice data (offset + 2) (nameLenAt data offset)).length =
          nameLenAt data offset := by
        apply length_slice_of_le
        unfold nameLenAt
        omega
      have hroom : bodyAt data offset + sizeAt data offset ≤ data.length :=
        Nat.le_of_not_lt (not_or.mp h4).2
      unfold bodyAt at hroom
      refine ⟨rfl, rfl, ?_, hroom, ?_⟩
      · rw [Entry.length_head]
        dsimp only
        change offset + (2 + (slice data (offset + 2) (nameLenAt data offset)).length + 1 + 8) =
          offset + 2 + nameLenAt data offset + 1 + 8
        rw [hname]
        omega
      · rw [Entry.length_head, Entry.head, Entry.flags]
        dsimp only
        change slice data offset (2 + (slice data (offset + 2) (nameLenAt data offset)).length + 1 +
            8) = u16le (UInt16.ofNat (slice data (offset + 2) (nameLenAt data offset)).length) ++
              (slice data (offset + 2) (nameLenAt data offset) ++
                ([if decide (flagsAt data offset &&& 1 ≠ 0) = true then 1 else 0] ++
                  u64le (UInt64.ofNat (sizeAt data offset)))) ↔ _
        have hnum : u16le (UInt16.ofNat (nameLenAt data offset)) = slice data offset 2 := by
          rw [nameLenAt, UInt16.ofNat_toNat]
          exact u16le_u16At (Nat.le_of_not_lt h1)
        have hsize : u64le (UInt64.ofNat (sizeAt data offset)) =
            slice data (offset + 2 + nameLenAt data offset + 1) 8 := by
          rw [sizeAt, UInt64.ofNat_toNat, u64le_u64At (by omega)]
          congr 1
          omega
        have hflags : [flagsAt data offset] = slice data (offset + 2 + nameLenAt data offset) 1 :=
          (slice_eq_singleton (by omega)).symm
        have hsplit : slice data offset (2 + nameLenAt data offset + 1 + 8) =
            slice data offset 2 ++ (slice data (offset + 2) (nameLenAt data offset) ++
              ([flagsAt data offset] ++
                slice data (offset + 2 + nameLenAt data offset + 1) 8)) := by
          rw [hflags, slice_append_slice, slice_append_slice, slice_append_slice]
          congr 1
        rw [hname, hnum, hsize, hsplit, List.append_cancel_left_eq, List.append_cancel_left_eq,
          List.append_cancel_right_eq, List.cons.injEq, eq_self_iff_true, and_true,
          ← eq_flag_iff]
        simp only [decide_eq_true_eq]

/-- The entries that are read are written as the bytes they were read from exactly when those are
tidy. -/
lemma drop_eq_iff {data : Str} {left offset total : ℕ} {items : List (Entry × Str)}
    (h : parseFrom data left offset total = .ok items) (hoffset : offset ≤ data.length) :
    data.drop offset = items.flatMap (fun item => item.1.head ++ item.2) ↔
      TidyFrom data left offset := by
  induction left generalizing offset total items with
  | zero =>
    cases h
    rw [List.flatMap_nil, List.drop_eq_nil_iff, TidyFrom]
    omega
  | succ left ih =>
    rw [parseFrom] at h
    cases hr : readEntry data offset with
    | error e => simp [hr] at h
    | ok r =>
      obtain ⟨entry, next⟩ := r
      simp only [hr] at h
      split_ifs at h
      cases hp : parseFrom data left (next + entry.size) (total + entry.size) with
      | error e => simp [hp] at h
      | ok rest =>
        simp only [hp, Except.ok.injEq] at h
        subst h
        obtain ⟨hnext, hsize, hhead, hend, hflags⟩ := layout_of_readEntry hr
        have hbody : (slice data next entry.size).length = entry.size := length_slice_of_le hend
        have hsplit : data.drop offset = slice data offset entry.head.length ++
            (slice data next entry.size ++ data.drop (next + entry.size)) := by
          rw [slice, slice, ← List.drop_drop, List.take_append_drop, ← hhead, ← List.drop_drop,
            List.take_append_drop]
        have hlen : (slice data offset entry.head.length).length = entry.head.length :=
          length_slice_of_le (by omega)
        rw [TidyFrom, ← hnext, ← hsize, ← ih hp hend, ← hflags, hsplit, List.flatMap_cons,
          List.append_assoc]
        constructor
        · intro heq
          obtain ⟨hfirst, hrest⟩ := List.append_inj heq hlen
          exact ⟨hfirst, List.append_cancel_left hrest⟩
        · rintro ⟨hfirst, hrest⟩
          rw [hfirst, hrest]

lemma length_of_parseFrom {data : Str} {left offset total : ℕ} {items : List (Entry × Str)}
    (h : parseFrom data left offset total = .ok items) : items.length = left := by
  induction left generalizing offset total items with
  | zero =>
    cases h
    rfl
  | succ left ih =>
    rw [parseFrom] at h
    cases hr : readEntry data offset with
    | error e => simp [hr] at h
    | ok r =>
      simp only [hr] at h
      split_ifs at h
      cases hp : parseFrom data left (r.2 + r.1.size) (total + r.1.size) with
      | error e => simp [hp] at h
      | ok rest =>
        simp only [hp, Except.ok.injEq] at h
        subst h
        rw [List.length_cons, ih hp]

/-- The header that is checked is the one that is written but for its reserved bytes. -/
lemma take_eq_header_iff {data : Str} (hlen : 12 ≤ data.length) (hmagic : arrAt 4 data 0 = magic)
    (hversion : u8At data 4 = version) :
    data.take 12 = header (u32At data 8).toNat ↔ arrAt 3 data 5 = zeros 3 := by
  have hreserved : [version, 0, 0, 0] = [version] ++ (zeros 3).toList := rfl
  have hsplit : data.take 12 =
      slice data 0 4 ++ (slice data 4 1 ++ slice data 5 3 ++ slice data 8 4) := by
    rw [slice_append_slice data 4 1 3, slice_append_slice data 4 4 4, slice_append_slice]
    rfl
  rw [header, hreserved, ← hmagic, arrAt_toList (by omega), ← hversion,
    ← slice_eq_singleton (by omega), UInt32.ofNat_toNat, u32le_u32At (by omega), hsplit,
    List.append_cancel_left_eq, List.append_cancel_right_eq, List.append_cancel_left_eq,
    arrAt_eq_iff (by omega)]

/-! ### The writer over the extracted files -/

/-- The writer makes of an extracted file what its entry says. -/
lemma writeEntry_of_extracted (b3 : Blake3) {umask : UInt32} {dest : Path Component}
    {items : List (Entry × Str)} {fs fs' : FileTree} {item : Entry × Str} (hitem : item ∈ items)
    (hvalid : ValidItem item) (hjoin : join [] item.1.name = some (itemFile item).1)
    (hext : Extracted umask dest (items.map itemFile) fs fs') :
    writeEntry b3 fs' dest item.1 =
      .ok (item.1.head ++ item.2, { item.1 with digest := blake3Digest b3 item.2 }) := by
  have hat := hext.has _ (List.mem_map_of_mem hitem)
  rw [extractedFile_itemFile] at hat
  rw [writeEntry, join_eq_append dest (dotdot_notMem_of_validateName hvalid.name_valid), hjoin,
    Option.map_some, Option.bind_some, hat]
  dsimp only
  rw [if_neg (not_not.mpr hvalid.length_eq)]

lemma mapM_writeEntry_of_extracted (b3 : Blake3) {umask : UInt32} {dest : Path Component}
    {items : List (Entry × Str)} {fs fs' : FileTree} (hvalid : ∀ item ∈ items, ValidItem item)
    (hjoins : ∀ item ∈ items, join [] item.1.name = some (itemFile item).1)
    (hext : Extracted umask dest (items.map itemFile) fs fs') :
    (items.map Prod.fst).mapM (writeEntry b3 fs' dest) =
      .ok (items.map fun item =>
        (item.1.head ++ item.2, { item.1 with digest := blake3Digest b3 item.2 })) := by
  rw [Except.mapM_eq_ok_iff, List.forall₂_map_left_iff, List.forall₂_map_right_iff,
    List.forall₂_same]
  exact fun item hitem => writeEntry_of_extracted b3 hitem (hvalid item hitem)
    (hjoins item hitem) hext

end Dhow.Pack

namespace Dhow
open Bytes FileSystem Pack

/-- Where extraction succeeds, the writer writes every file again, and what it writes is the archive
exactly when that is tidy. -/
theorem extract_rewrites_iff (b3 : Blake3) {umask : UInt32} {data : Str} {dest : Path Component}
    {fs fs' : FileTree} {entries : List Pack.Entry}
    (h : Pack.extract umask fs data dest = (.ok entries, fs')) :
    ∃ written, entries.mapM (Pack.writeEntry b3 fs' dest) = .ok written ∧
      (data = Pack.header entries.length ++ written.flatMap Prod.fst ↔ Pack.Tidy data) := by
  obtain ⟨fs₁, items, hlen, hmagic, hversion, -, hparse, rfl, hjoins, hext⟩ :=
    exists_items_of_extract h
  have hcount : items.length = (u32At data 8).toNat := length_of_parseFrom hparse
  refine ⟨_, mapM_writeEntry_of_extracted b3 (parseFrom_eq_ok hparse)
    (fun item hitem => (hjoins item hitem).1) hext, ?_⟩
  rw [List.length_map, hcount, List.flatMap_map]
  have hbody := drop_eq_iff hparse hlen
  have hhead := take_eq_header_iff hlen hmagic hversion
  constructor
  · intro heq
    have hlength : (data.take 12).length = (header (u32At data 8).toNat).length := by
      rw [length_header, List.length_take]
      omega
    obtain ⟨hfirst, hrest⟩ := List.append_inj ((List.take_append_drop 12 data).trans heq) hlength
    exact ⟨hhead.mp hfirst, hbody.mp hrest⟩
  · rintro ⟨hreserved, hentries⟩
    rw [← hhead.mpr hreserved, ← hbody.mpr hentries, List.take_append_drop]

lemma extract_header (umask : UInt32) (rest : Str) :
    Pack.extract umask Reference.emptyDir (Pack.header 0 ++ rest) [Reference.top] =
      (.ok [], Reference.emptyDir) := by
  obtain ⟨hmagic, hversion, hcount⟩ := reads_header 0 rest
  have hlen : ¬(Pack.header 0 ++ rest).length < 12 := by
    rw [List.length_append, length_header]
    omega
  simp only [Pack.extract, hmagic, hversion, hcount, if_neg hlen]
  rfl

/-- An archive of no entries, and a byte behind it. -/
theorem extract_reads_past_byte : ¬∀ (b3 : Blake3) (umask : UInt32) (data : Str)
    (dest : Path Component) (fs fs' : FileTree) (entries : List Pack.Entry),
    Pack.extract umask fs data dest = (.ok entries, fs') →
    ∃ written, entries.mapM (Pack.writeEntry b3 fs' dest) = .ok written ∧
      data = Pack.header entries.length ++ written.flatMap Prod.fst := by
  intro hclaim
  obtain ⟨written, hwritten, hdata⟩ := hclaim Reference.b3 0 _ _ _ _ _ (extract_header 0 [7])
  cases hwritten
  exact absurd (List.append_cancel_left hdata) (by decide)

theorem extract_rewrites_iff_empty :
    ∃ written, ([] : List Pack.Entry).mapM
        (Pack.writeEntry Reference.b3 Reference.emptyDir [Reference.top]) = .ok written ∧
      Pack.header 0 = Pack.header 0 ++ written.flatMap Prod.fst := by
  have hextract := extract_header 0 []
  obtain ⟨written, hwritten, hiff⟩ := extract_rewrites_iff Reference.b3 hextract
  rw [List.append_nil] at hiff
  exact ⟨written, hwritten, hiff.mpr ⟨by decide, by decide⟩⟩

end Dhow
