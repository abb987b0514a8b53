import Dhow.AtomicExtraction
import Dhow.Lib.Checked

/-!
# Extraction in machine arithmetic

The extraction of `pack.go` once more, with its offsets and sizes as 64-bit integers, its slices
checked, and every body on record that is handed to the file system, whether it gets there or not.
It does what extraction over the naturals does, with no overflow and no slice out of range.
-/

namespace Dhow.Pack.Machine
open Bytes FileSystem Checked

/-- What stops the extraction short, beside a panic. -/
inductive Fault
  | overflow
  | error (e : PackError)
  deriving DecidableEq

def minInt : ℤ := -0x8000000000000000
def maxInt : ℤ := 0x7FFFFFFFFFFFFFFF

/-- Addition of two `int`s. -/
def add (a b : ℤ) : Checked Fault ℤ :=
  if minInt ≤ a + b ∧ a + b ≤ maxInt then .ok (a + b) else fail .overflow

/-- The `int` with the bits of a `uint64`. -/
def ofUint64 (n : ℕ) : ℤ := if n < 2 ^ 63 then n else n - 2 ^ 64

/-- A slice of bytes. No address space holds so many. -/
structure Slice where
  bytes : Str
  length_lt : bytes.length < 2 ^ 62

structure RawEntry where
  name : Str
  executable : Bool
  size : ℤ

def RawEntry.toEntry (e : RawEntry) : Entry := ⟨e.name, e.executable, e.size.toNat, zeros 32⟩

def readEntry (data : Str) (offset : ℤ) : Checked Fault (RawEntry × ℤ) := do
  let nameStart ← add offset 2
  if nameStart > data.length then fail (.error .truncated)
  else
    let field ← slice data offset nameStart
    let nameLen := leDecode field
    if nameLen > maxNameLen then fail (.error (.nameLength nameLen))
    else
      let nameEnd ← add nameStart nameLen
      let flagsEnd ← add nameEnd 1
      let headEnd ← add flagsEnd 8
      if headEnd > data.length then fail (.error .truncated)
      else
        let name ← slice data nameStart nameEnd
        match validateName name with
        | .error e => fail (.error e)
        | .ok () =>
          let flags ← index data nameEnd
          let sizeStart ← add offset 3
          let sizeStart ← add sizeStart nameLen
          let field ← slice data sizeStart headEnd
          let size := leDecode field
          if size > maxFileSize then fail (.error .truncated)
          else
            let bodyEnd ← add headEnd (ofUint64 size)
            if bodyEnd > data.length then fail (.error .truncated)
            else return (⟨name, flags &&& 1 ≠ 0, ofUint64 size⟩, headEnd)

/-- A body that is handed to the file system, with the entry header in front of it. -/
structure Write where
  head : ℤ
  start : ℤ
  size : ℤ
  body : Str

structure Run where
  result : Checked Fault (List RawEntry)
  fs : FileTree
  writes : List Write

/-- The body of an entry, and the offset behind it. -/
def bodyOf (data : Str) (next size : ℤ) : Checked Fault (Str × ℤ) := do
  let stop ← add next size
  let body ← slice data next stop
  return (body, stop)

/-- The entry loop, as `Pack.extractFrom`. -/
def extractFrom (umask : UInt32) (data : Str) (absDest : Path Component) :
    (left : ℕ) → (offset total : ℤ) → FileTree → Run
  | 0, _, _, fs => ⟨.ok [], fs, []⟩
  | left + 1, offset, total, fs =>
    match readEntry data offset with
    | .error stop => ⟨.error stop, fs, []⟩
    | .ok (entry, next) =>
      match add total entry.size with
      | .error stop => ⟨.error stop, fs, []⟩
      | .ok total =>
        if total > maxTotalSize then ⟨fail (.error .extractionTooLarge), fs, []⟩
        else
          match bodyOf data next entry.size with
          | .error stop => ⟨.error stop, fs, []⟩
          | .ok (body, stop) =>
            let write : Write := ⟨offset, next, entry.size, body⟩
            match writeFile umask fs absDest entry.toEntry body with
            | .error e => ⟨fail (.error e), fs, [write]⟩
            | .ok fs =>
              let run := extractFrom umask data absDest left stop total fs
              ⟨run.result >>= fun entries => .ok (entry :: entries), run.fs, write :: run.writes⟩

/-- The number of entries, of a header that passes. -/
def readHeader (data : Str) : Checked Fault ℕ := do
  if data.length < 12 then fail (.error .truncated)
  else
    let magicField ← slice data 0 4
    if magicField ≠ magic.toList then fail (.error .badMagic)
    else
      let v ← index data 4
      if v ≠ version then fail (.error (.badVersion v))
      else
        let field ← slice data 8 12
        let count := leDecode field
        if count > maxEntries then fail (.error (.tooManyFiles count)) else return count

/-- The least number of bytes an entry takes. -/
def minEntry : ℤ := 2 + 1 + 8

def extract (umask : UInt32) (fs : FileTree) (data : Slice) (dest : Path Component) : Run :=
  match readHeader data.bytes with
  | .error stop => ⟨.error stop, fs, []⟩
  | .ok count =>
    match fs.mkdirAll dest with
    | .error e => ⟨fail (.error (.creatingDestination e)), fs, []⟩
    | .ok fs =>
      let room := min (count : ℤ) (data.bytes.length / minEntry + 1)
      match (makeEmpty room : Checked Fault (List RawEntry)) with
      | .error stop => ⟨.error stop, fs, []⟩
      | .ok _ => extractFrom umask data.bytes dest count 12 0 fs

/-! ### The arithmetic -/

lemma add_eq {a b : ℤ} (h : -2 ^ 63 ≤ a + b ∧ a + b < 2 ^ 63) : add a b = .ok (a + b) := by
  apply if_pos
  unfold minInt maxInt
  omega

lemma slice_eq_slice {data : Str} {lo hi : ℤ} {k n : ℕ} (hlo : lo = k) (hhi : hi = (k + n : ℕ))
    (h : k + n ≤ data.length) :
    (Checked.slice data lo hi : Checked Fault Str) = .ok (Bytes.slice data k n) := by
  rw [Checked.slice_eq hlo hhi (Nat.le_add_right k n) h, Bytes.slice, List.drop_take,
    Nat.add_sub_cancel_left]

lemma index_eq_u8At {data : Str} {i : ℤ} {k : ℕ} (hi : i = k) (h : k < data.length) :
    (index data i : Checked Fault UInt8) = .ok (u8At data k) := by
  rw [u8At, List.getD_eq_getElem _ _ h]
  exact Checked.index_eq hi (List.getElem?_eq_getElem h)

lemma ofUint64_eq {n : ℕ} (h : n ≤ maxFileSize) : ofUint64 n = n := by
  unfold maxFileSize at h
  rw [ofUint64, if_pos (by omega)]

/-- An entry as it is in machine arithmetic. -/
def ofEntry (e : Entry) : RawEntry := ⟨e.name, e.executable, e.size⟩

/-- A result over the naturals as it is in machine arithmetic. -/
def liftRead : Except PackError (Entry × ℕ) → Checked Fault (RawEntry × ℤ)
  | .error e => fail (.error e)
  | .ok (entry, next) => .ok (ofEntry entry, next)

/-- An entry is read as it is over the naturals, wherever in a slice. -/
lemma readEntry_eq {data : Str} (hdata : data.length < 2 ^ 62) {offset : ℕ}
    (hoffset : offset ≤ data.length) :
    readEntry data offset = liftRead (Pack.readEntry data offset) := by
  have hnum : (u16At data offset).toNat = leDecode (Bytes.slice data offset 2) := by
    have hlt : natAt 2 data offset < 256 ^ 2 := natAt_lt
    exact UInt16.toNat_ofNat_of_lt' hlt
  have hlt16 := (u16At data offset).toNat_lt
  rw [readEntry, Pack.readEntry, add_eq (by omega), ok_bind]
  by_cases h1 : data.length < offset + 2
  · rw [if_pos (by omega), if_pos h1]
    rfl
  · rw [if_neg (by omega), if_neg h1, slice_eq_slice (k := offset) (n := 2) rfl (by omega)
      (by omega), ok_bind]
    dsimp only
    rw [← hnum]
    generalize (u16At data offset).toNat = nameLen at hnum hlt16 ⊢
    by_cases h2 : maxNameLen < nameLen
    · rw [if_pos h2, if_pos h2]
      rfl
    · rw [if_neg h2, if_neg h2, add_eq (by omega), ok_bind, add_eq (by omega), ok_bind,
        add_eq (by omega), ok_bind]
      by_cases h3 : data.length < offset + 2 + nameLen + 1 + 8
      · rw [if_pos (by omega), if_pos h3]
        rfl
      · rw [if_neg (by omega), if_neg h3,
          slice_eq_slice (k := offset + 2) (n := nameLen) (by omega) (by omega) (by omega), ok_bind]
        cases hname : validateName (Bytes.slice data (offset + 2) nameLen) with
        | error e => rfl
        | ok u =>
          have hsize : (u64At data (offset + 3 + nameLen)).toNat =
              leDecode (Bytes.slice data (offset + 3 + nameLen) 8) := by
            have hlt : natAt 8 data (offset + 3 + nameLen) < 256 ^ 8 := natAt_lt
            exact UInt64.toNat_ofNat_of_lt' hlt
          dsimp only
          rw [index_eq_u8At (k := offset + 2 + nameLen) (by omega) (by omega), ok_bind,
            add_eq (by omega), ok_bind, add_eq (by omega), ok_bind,
            slice_eq_slice (k := offset + 3 + nameLen) (n := 8) (by omega) (by omega) (by omega),
            ok_bind, ← hsize]
          generalize (u64At data (offset + 3 + nameLen)).toNat = size
          by_cases h4 : maxFileSize < size
          · rw [if_pos h4, if_pos (.inl h4)]
            rfl
          · have hmax : size ≤ maxFileSize := Nat.le_of_not_lt h4
            rw [if_neg h4, ofUint64_eq hmax, add_eq (by unfold maxFileSize at hmax; omega), ok_bind]
            by_cases h5 : data.length < offset + 2 + nameLen + 1 + 8 + size
            · rw [if_pos (by omega), if_pos (.inr h5)]
              rfl
            · rw [if_neg (by omega), if_neg (not_or.mpr ⟨h4, h5⟩)]
              rfl

lemma bounds_of_readEntry {data : Str} {offset next : ℕ} {entry : Entry}
    (h : Pack.readEntry data offset = .ok (entry, next)) :
    offset + 11 ≤ next ∧ next + entry.size ≤ data.length ∧ entry.size ≤ maxFileSize ∧
      entry.digest = zeros 32 := by
  unfold Pack.readEntry at h
  dsimp only at h
  split_ifs at h with h1 h2 h3 h4
  · split at h <;> cases h
  · split at h
    · cases h
    · obtain ⟨rfl, rfl⟩ := Prod.mk.inj (Except.ok.inj h)
      obtain ⟨hsize, hend⟩ := not_or.mp h4
      exact ⟨by omega, Nat.le_of_not_lt hend, Nat.le_of_not_lt hsize, rfl⟩

/-! ### The loop -/

/-- From `offset` on, the bodies lie one behind the other inside the slice, each behind its own header
and of a size that is allowed. -/
def Consecutive (data : Str) : (offset : ℤ) → List Write → Prop
  | _, [] => True
  | offset, w :: writes =>
    w.head = offset ∧ w.head + minEntry ≤ w.start ∧ w.start + w.size ≤ data.length ∧ 0 ≤ w.size ∧
      w.size ≤ maxFileSize ∧ w.body = Bytes.slice data w.start.toNat w.size.toNat ∧
      Consecutive data (w.start + w.size) writes

/-- An outcome over the naturals as it is in machine arithmetic. -/
def liftResult : Except PackError (List Entry) → Checked Fault (List RawEntry)
  | .error e => fail (.error e)
  | .ok entries => .ok (entries.map ofEntry)

/-- What holds of the loop from `offset` and `total` on, whether it succeeds or fails. -/
structure LoopBounds (data : Str) (left : ℕ) (offset total : ℤ) (run : Run) : Prop where
  consecutive : Consecutive data offset run.writes
  length_le : run.writes.length ≤ left
  total_le : total + (run.writes.map Write.size).sum ≤ maxTotalSize
  sizes_eq : ∀ entries, run.result = .ok entries →
    entries.map RawEntry.size = run.writes.map Write.size

/-- A run that ends before it writes. -/
lemma LoopBounds.of_stop {data : Str} {left : ℕ} {offset total : ℤ} {fs : FileTree}
    {stop : Stop Fault} (htotal : total ≤ maxTotalSize) :
    LoopBounds data left offset total ⟨.error stop, fs, []⟩ :=
  ⟨trivial, Nat.zero_le _, by simpa using htotal, fun _ h => by cases h⟩

/-- The body of an entry that was read. -/
lemma bodyOf_eq {data : Str} (hdata : data.length < 2 ^ 62) {next size : ℕ}
    (hend : next + size ≤ data.length) :
    bodyOf data next size = .ok (Bytes.slice data next size, ((next + size : ℕ) : ℤ)) := by
  rw [bodyOf, add_eq (by omega), ok_bind, slice_eq_slice (k := next) (n := size) rfl (by omega) hend]
  rfl

/-- The body of an entry lies before those of the entries after it. -/
lemma Consecutive.cons {data : Str} {offset next size : ℕ} {writes : List Write}
    (hhead : offset + 11 ≤ next) (hend : next + size ≤ data.length) (hsize : size ≤ maxFileSize)
    (hrest : Consecutive data ((next + size : ℕ) : ℤ) writes) :
    Consecutive data offset (⟨offset, next, size, Bytes.slice data next size⟩ :: writes) := by
  refine ⟨rfl, ?_, ?_, Int.natCast_nonneg _, Int.ofNat_le.mpr hsize, rfl, ?_⟩
  · change (offset : ℤ) + 11 ≤ next
    omega
  · change (next : ℤ) + size ≤ data.length
    omega
  · rwa [Nat.cast_add] at hrest

/-- A run that writes one body and goes on. -/
lemma LoopBounds.cons {data : Str} {left offset next size total : ℕ} {run : Run} {entry : RawEntry}
    (hhead : offset + 11 ≤ next) (hend : next + size ≤ data.length) (hsize : size ≤ maxFileSize)
    (hentry : entry.size = size)
    (hrun : LoopBounds data left ((next + size : ℕ) : ℤ) ((total + size : ℕ) : ℤ) run) :
    LoopBounds data (left + 1) offset total
      ⟨run.result >>= fun entries => .ok (entry :: entries), run.fs,
        ⟨offset, next, size, Bytes.slice data next size⟩ :: run.writes⟩ := by
  refine ⟨.cons hhead hend hsize hrun.consecutive, Nat.succ_le_succ hrun.length_le, ?_, ?_⟩
  · have hsum := hrun.total_le
    rw [List.map_cons, List.sum_cons]
    dsimp only
    omega
  · intro entries h
    cases hresult : run.result with
    | error stop =>
      rw [hresult] at h
      cases h
    | ok rest =>
      rw [hresult] at h
      cases h
      rw [List.map_cons, List.map_cons, hrun.sizes_eq rest hresult, hentry]

lemma extractFrom_spec (umask : UInt32) {data : Str} (hdata : data.length < 2 ^ 62)
    (dest : Path Component) (left : ℕ) {offset total : ℕ} (fs : FileTree)
    (hoffset : offset ≤ data.length) (htotal : total ≤ maxTotalSize) :
    LoopBounds data left offset total (extractFrom umask data dest left offset total fs) ∧
      (extractFrom umask data dest left offset total fs).result =
        liftResult (Pack.extractFrom umask data dest left offset total fs).1 ∧
      (extractFrom umask data dest left offset total fs).fs =
        (Pack.extractFrom umask data dest left offset total fs).2 := by
  induction left generalizing offset total fs with
  | zero =>
    refine ⟨⟨trivial, le_rfl, ?_, ?_⟩, rfl, rfl⟩
    · simpa [extractFrom] using htotal
    · rintro entries h
      cases h
      rfl
  | succ left ih =>
    have htotal' : (total : ℤ) ≤ maxTotalSize := Int.ofNat_le.mpr htotal
    rw [extractFrom, Pack.extractFrom, readEntry_eq hdata hoffset]
    cases hr : Pack.readEntry data offset with
    | error e => exact ⟨.of_stop htotal', rfl, rfl⟩
    | ok r =>
      obtain ⟨entry, next⟩ := r
      obtain ⟨hhead, hend, hsize, hdigest⟩ := bounds_of_readEntry hr
      have hadd : -2 ^ 63 ≤ (total : ℤ) + entry.size ∧ (total : ℤ) + entry.size < 2 ^ 63 := by
        unfold maxFileSize at hsize
        unfold maxTotalSize at htotal
        clear htotal'
        omega
      simp only [liftRead]
      rw [show (ofEntry entry).size = (entry.size : ℤ) from rfl, add_eq hadd]
      dsimp only
      by_cases hlarge : maxTotalSize < total + entry.size
      · rw [if_pos (by omega), if_pos hlarge]
        exact ⟨.of_stop htotal', rfl, rfl⟩
      · rw [if_neg (by omega), if_neg hlarge]
        have hentry : (ofEntry entry).toEntry = entry := by
          rw [RawEntry.toEntry, ofEntry, Int.toNat_natCast, ← hdigest]
        rw [bodyOf_eq hdata hend, hentry]
        dsimp only
        cases hw : writeFile umask fs dest entry (Bytes.slice data next entry.size) with
        | error e =>
          refine ⟨⟨.cons hhead hend hsize trivial, Nat.succ_pos left, ?_, fun _ h => by cases h⟩,
            rfl, rfl⟩
          simpa using by omega
        | ok fs₁ =>
          obtain ⟨hbounds, hresult, hfs⟩ := ih fs₁ hend (Nat.le_of_not_lt hlarge)
          dsimp only
          rw [← Nat.cast_add]
          refine ⟨.cons hhead hend hsize rfl hbounds, ?_⟩
          rw [hresult, hfs]
          generalize Pack.extractFrom umask data dest left (next + entry.size)
            (total + entry.size) fs₁ = outcome
          obtain ⟨_ | rest, fs₂⟩ := outcome
          · exact ⟨rfl, rfl⟩
          · exact ⟨rfl, rfl⟩

/-! ### The whole extraction -/

/-- The header is checked as over the naturals. -/
lemma readHeader_eq (data : Str) : readHeader data =
    if data.length < 12 then fail (.error .truncated)
    else if arrAt 4 data 0 ≠ magic then fail (.error .badMagic)
    else if u8At data 4 ≠ version then fail (.error (.badVersion (u8At data 4)))
    else if maxEntries < (u32At data 8).toNat then
      fail (.error (.tooManyFiles (u32At data 8).toNat))
    else .ok (u32At data 8).toNat := by
  unfold readHeader
  by_cases hlen : data.length < 12
  · rw [if_pos hlen, if_pos hlen]
  · have hnum : leDecode (Bytes.slice data 8 4) = (u32At data 8).toNat := by
      have hlt : natAt 4 data 8 < 256 ^ 4 := natAt_lt
      exact (UInt32.toNat_ofNat_of_lt' hlt).symm
    have hmagic : Bytes.slice data 0 4 ≠ magic.toList ↔ arrAt 4 data 0 ≠ magic :=
      (arrAt_eq_iff (by omega) magic).not.symm
    have hfirst : (Checked.slice data 0 4 : Checked Fault Str) = .ok (Bytes.slice data 0 4) :=
      slice_eq_slice (k := 0) (n := 4) rfl rfl (by omega)
    have hlast : (Checked.slice data 8 12 : Checked Fault Str) = .ok (Bytes.slice data 8 4) :=
      slice_eq_slice (k := 8) (n := 4) rfl rfl (by omega)
    have hfifth : (index data 4 : Checked Fault UInt8) = .ok (u8At data 4) :=
      index_eq_u8At (k := 4) rfl (by omega)
    rw [if_neg hlen, if_neg hlen, hfirst, ok_bind]
    by_cases h1 : arrAt 4 data 0 ≠ magic
    · rw [if_pos h1, if_pos (hmagic.mpr h1)]
    · rw [if_neg h1, if_neg (hmagic.not.mpr h1), hfifth, ok_bind]
      by_cases h2 : u8At data 4 ≠ version
      · rw [if_pos h2, if_pos h2]
      · rw [if_neg h2, if_neg h2, hlast, ok_bind]
        dsimp only
        rw [hnum]
        rfl

/-- What an extraction does within its slice, whether it succeeds or fails. -/
structure Bounded (data : Str) (run : Run) : Prop where
  no_panic : ∀ p, run.result ≠ .error (.panic p)
  no_overflow : run.result ≠ .error (.fail .overflow)
  consecutive : Consecutive data 12 run.writes
  disjoint : run.writes.Pairwise fun w w' => w.start + w.size ≤ w'.head
  inside : ∀ w ∈ run.writes, w.head + minEntry ≤ w.start ∧ 0 ≤ w.head ∧
    w.start + w.size ≤ data.length ∧ 0 ≤ w.size ∧ w.size ≤ maxFileSize ∧
      w.body = Bytes.slice data w.start.toNat w.size.toNat
  count_le : run.writes.length ≤ maxEntries
  total_le : (run.writes.map Write.size).sum ≤ min (data.length : ℤ) maxTotalSize
  sizes_eq : ∀ entries, run.result = .ok entries →
    entries.map RawEntry.size = run.writes.map Write.size

namespace Consecutive
variable {data : Str} {offset : ℤ} {writes : List Write}

/-- Every body is inside the slice, behind its header and behind the point where the row begins. -/
lemma inside (h : Consecutive data offset writes) : ∀ w ∈ writes, offset ≤ w.head ∧
    w.head + minEntry ≤ w.start ∧ w.start + w.size ≤ data.length ∧ 0 ≤ w.size ∧
      w.size ≤ maxFileSize ∧ w.body = Bytes.slice data w.start.toNat w.size.toNat := by
  induction writes generalizing offset with
  | nil => simp
  | cons w writes ih =>
    obtain ⟨hhead, hstart, hend, hpos, hsize, hbody, hrest⟩ := h
    have hmin : (0 : ℤ) ≤ minEntry := by decide
    intro w' hw'
    rcases List.mem_cons.mp hw' with rfl | hw'
    · exact ⟨hhead.ge, hstart, hend, hpos, hsize, hbody⟩
    · obtain ⟨hhead', hrest'⟩ := ih hrest w' hw'
      exact ⟨by omega, hrest'⟩

lemma disjoint (h : Consecutive data offset writes) :
    writes.Pairwise fun w w' => w.start + w.size ≤ w'.head := by
  induction writes generalizing offset with
  | nil => exact .nil
  | cons w writes ih =>
    obtain ⟨-, -, -, -, -, -, hrest⟩ := h
    exact .cons (fun w' hw' => (hrest.inside w' hw').1) (ih hrest)

/-- The bodies have no more bytes than the slice has left. -/
lemma sum_le (h : Consecutive data offset writes) (hoffset : offset ≤ data.length) :
    offset + (writes.map Write.size).sum ≤ data.length := by
  induction writes generalizing offset with
  | nil => simpa using hoffset
  | cons w writes ih =>
    obtain ⟨hhead, hstart, hend, -, -, -, hrest⟩ := h
    have hsum := ih hrest hend
    have hmin : (0 : ℤ) ≤ minEntry := by decide
    rw [List.map_cons, List.sum_cons]
    omega

end Consecutive

/-- An outcome over the naturals stops with an error of the packer's. -/
lemma liftResult_ne {outcome : Except PackError (List Entry)} {stop : Stop Fault}
    (h : liftResult outcome = .error stop) (hstop : ∀ e, stop ≠ .fail (.error e)) : False := by
  cases outcome with
  | error e =>
    cases h
    exact hstop e rfl
  | ok entries => cases h

/-- A run that ends before it writes is bounded. -/
lemma Bounded.of_stop {data : Str} {fs : FileTree} {e : PackError} :
    Bounded data ⟨fail (.error e), fs, []⟩ where
  no_panic p h := by cases h
  no_overflow h := by cases h
  consecutive := trivial
  disjoint := .nil
  inside := by simp
  count_le := Nat.zero_le _
  total_le := by simp
  sizes_eq _ h := by cases h

/-- Extraction ends within its bounds: no overflow, no slice out of range, the bodies one behind the
other inside the slice and behind their headers, no more of them, none larger and no more bytes in
all than the limits say; and it does what extraction over the naturals does. -/
theorem extract_bounded (umask : UInt32) (fs : FileTree) (data : Slice) (dest : Path Component) :
    Bounded data.bytes (extract umask fs data dest) ∧
      (extract umask fs data dest).result =
        liftResult (Pack.extract umask fs data.bytes dest).1 ∧
      (extract umask fs data dest).fs = (Pack.extract umask fs data.bytes dest).2 := by
  rw [extract, Pack.extract, readHeader_eq]
  -- The header's checks, one by one.
  by_cases hlen : data.bytes.length < 12
  · rw [if_pos hlen, if_pos hlen]
    exact ⟨.of_stop, rfl, rfl⟩
  rw [if_neg hlen, if_neg hlen]
  by_cases hmagic : arrAt 4 data.bytes 0 ≠ magic
  · rw [if_pos hmagic, if_pos hmagic]
    exact ⟨.of_stop, rfl, rfl⟩
  rw [if_neg hmagic, if_neg hmagic]
  by_cases hversion : u8At data.bytes 4 ≠ version
  · rw [if_pos hversion, if_pos hversion]
    exact ⟨.of_stop, rfl, rfl⟩
  rw [if_neg hversion, if_neg hversion]
  dsimp only
  generalize (u32At data.bytes 8).toNat = count
  by_cases hcount : maxEntries < count
  · rw [if_pos hcount, if_pos hcount]
    exact ⟨.of_stop, rfl, rfl⟩
  rw [if_neg hcount, if_neg hcount]
  dsimp only
  cases hmk : fs.mkdirAll dest with
  | error e => exact ⟨.of_stop, rfl, rfl⟩
  | ok fs₁ =>
    have hroom : (makeEmpty (min (count : ℤ) (data.bytes.length / minEntry + 1)) :
        Checked Fault (List RawEntry)) = .ok [] := by
      apply if_pos
      unfold minEntry
      omega
    dsimp only
    rw [hroom]
    dsimp only
    have hspec := extractFrom_spec umask data.length_lt dest count fs₁ (Nat.le_of_not_lt hlen)
      (Nat.zero_le _)
    rw [Nat.cast_ofNat, Nat.cast_zero] at hspec
    obtain ⟨hbounds, hresult, hfs⟩ := hspec
    refine ⟨⟨?_, ?_, hbounds.consecutive, hbounds.consecutive.disjoint, ?_, ?_, ?_,
      hbounds.sizes_eq⟩, hresult, hfs⟩
    · intro p h
      exact liftResult_ne (hresult.symm.trans h) fun e he => by cases he
    · intro h
      exact liftResult_ne (hresult.symm.trans h) fun e he => by cases he
    · intro w hw
      obtain ⟨hbefore, hstart, hrest⟩ := hbounds.consecutive.inside w hw
      exact ⟨hstart, by omega, hrest⟩
    · exact hbounds.length_le.trans (Nat.le_of_not_lt hcount)
    · have hsum := hbounds.consecutive.sum_le (by omega)
      have htotal := hbounds.total_le
      exact le_min (by omega) (by omega)

end Dhow.Pack.Machine
