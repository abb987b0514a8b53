import Dhow.Pack

/-!
# Packing and extracting

What the packer writes, and that extraction gives it back: an archive is its header and the
packed files in the order of their names, and extracted where nothing is in the way it becomes
exactly those files, with their contents and owner execute bits, and the directories they lie in.
-/

namespace Dhow.Pack
open Bytes FileSystem

/-! ### What is packed -/

/-- The entry of a file, before its digest. -/
def Entry.ofFile (x : Path Component × File) : Entry :=
  ⟨relName x.1, x.2.executable, x.2.content.length, zeros 32⟩

def Entry.setDigest (e : Entry) (digest : Arr 32) : Entry := { e with digest := digest }

/-- The bytes of a file in the archive. -/
def packed (x : Path Component × File) : Str := (Entry.ofFile x).head ++ x.2.content

/-- What the packer checks of a file. -/
structure Packable (x : Path Component × File) : Prop where
  name_valid : validateName (relName x.1) = .ok ()
  size_le : x.2.content.length ≤ maxFileSize

/-- The size of the files together. -/
def totalSize (files : List (Path Component × File)) : ℕ :=
  (files.map fun x => x.2.content.length).sum

lemma length_le_of_validateName {name : Str} (h : validateName name = .ok ()) :
    name.length ≤ maxNameLen := by
  unfold validateName at h
  split_ifs at h with h1
  exact Nat.le_of_not_lt (not_or.mp h1).2

lemma collectFile_eq_ok_iff {x : Path Component × File} {e : Entry} :
    collectFile x = .ok e ↔ Packable x ∧ e = Entry.ofFile x := by
  unfold collectFile
  dsimp only
  constructor
  · intro h
    cases hv : validateName (relName x.1) with
    | error err => simp [hv] at h
    | ok u =>
      simp only [hv] at h
      split_ifs at h with hsize
      cases h
      exact ⟨⟨hv, Nat.le_of_not_lt hsize⟩, rfl⟩
  · rintro ⟨⟨hv, hsize⟩, rfl⟩
    rw [hv]
    dsimp only
    rw [if_neg (Nat.not_lt.mpr hsize)]
    rfl

lemma checkTotal_eq_ok_iff {total : ℕ} {entries : List Entry} (h : total ≤ maxTotalSize) :
    checkTotal total entries = .ok () ↔
      total + (entries.map Entry.size).sum ≤ maxTotalSize := by
  induction entries generalizing total with
  | nil => simp [checkTotal, h]
  | cons e entries ih =>
    rw [checkTotal, List.map_cons, List.sum_cons, ← Nat.add_assoc]
    by_cases hlt : maxTotalSize < total + e.size
    · rw [if_pos hlt]
      constructor
      · intro h
        cases h
      · intro h
        omega
    · rw [if_neg hlt, ih (Nat.le_of_not_lt hlt)]

/-- The files of a directory in the order of the archive. -/
def sorted (files : List (Path Component × File)) : List (Path Component × File) :=
  files.insertionSort fun x y => relName x.1 ≤ relName y.1

lemma sorted_perm (files : List (Path Component × File)) : (sorted files).Perm files :=
  List.perm_insertionSort _ _

lemma insertionSort_map_ofFile (files : List (Path Component × File)) :
    (files.map Entry.ofFile).insertionSort (fun a b => a.name ≤ b.name) =
      (sorted files).map Entry.ofFile := by
  rw [sorted]
  symm
  apply List.map_insertionSort
  intro x _ y _
  rfl

/-- A list of files the packer accepts. -/
structure PackableAll (files : List (Path Component × File)) : Prop where
  each : ∀ x ∈ files, Packable x
  length_le : files.length ≤ maxEntries
  totalSize_le : totalSize files ≤ maxTotalSize

/-- The walk makes entries of the regular files alone. -/
lemma mapM_visit (l : List (Path Component × Node File)) :
    (l.mapM visit).map List.reduceOption =
      (l.filterMap fun x => x.2.regular.map (x.1, ·)).mapM collectFile := by
  induction l with
  | nil => rfl
  | cons x l ih =>
    obtain ⟨p, n⟩ := x
    have hskip (hn : visit (p, n) = .ok none) :
        (((p, n) :: l).mapM visit).map List.reduceOption = (l.mapM visit).map List.reduceOption := by
      rw [List.mapM_cons, hn]
      cases hl : l.mapM visit with
      | error e => rfl
      | ok visited => rfl
    cases n with
    | dir => rw [hskip rfl, ih]; rfl
    | irregular => rw [hskip rfl, ih]; rfl
    | file f =>
      have hfile : ((p, Node.file f) :: l).filterMap (fun x => x.2.regular.map (x.1, ·)) =
          (p, f) :: l.filterMap fun x => x.2.regular.map (x.1, ·) := rfl
      have hvisit : visit (p, .file f) = (collectFile (p, f)).map some := rfl
      rw [hfile, List.mapM_cons, List.mapM_cons, ← ih, hvisit]
      cases hc : collectFile (p, f) with
      | error e => rfl
      | ok entry =>
        cases hl : l.mapM visit with
        | error e => rfl
        | ok visited => rfl

lemma collect_eq (fs : FileTree) (root : Path Component) :
    collect fs root = match (fs.walk root).mapM collectFile with
      | .error e => .error e
      | .ok entries =>
        if maxEntries < entries.length then .error (.tooManyFiles entries.length)
        else
          let entries := entries.insertionSort fun a b => a.name ≤ b.name
          match checkTotal 0 entries with
          | .error e => .error e
          | .ok () => .ok entries := by
  have hvisit := mapM_visit (fs.walkDir root)
  rw [collect, Fs.walk, ← hvisit]
  cases (fs.walkDir root).mapM visit with
  | error e => rfl
  | ok visited => rfl

lemma collect_eq_ok {fs : FileTree} {root : Path Component} {entries : List Entry}
    (h : collect fs root = .ok entries) :
    PackableAll (sorted (fs.walk root)) ∧ entries = (sorted (fs.walk root)).map Entry.ofFile := by
  have hperm := sorted_perm (fs.walk root)
  rw [collect_eq] at h
  cases hm : (fs.walk root).mapM collectFile with
  | error e => simp [hm] at h
  | ok found =>
    have hall : ∀ x ∈ fs.walk root, Packable x := by
      intro x hx
      obtain ⟨i, hi⟩ := List.mem_iff_getElem?.mp hx
      obtain ⟨e, -, he⟩ := Except.getElem?_of_mapM hm hi
      exact (collectFile_eq_ok_iff.mp he).1
    have hfound : found = (fs.walk root).map Entry.ofFile := by
      have hf := Except.mapM_eq_ok_iff.mp hm
      rw [← List.forall₂_eq_eq_eq, List.forall₂_map_right_iff]
      exact hf.flip.imp fun e x he => (collectFile_eq_ok_iff.mp he).2
    have hsort : found.insertionSort (fun a b => a.name ≤ b.name) =
        (sorted (fs.walk root)).map Entry.ofFile := by
      rw [hfound, insertionSort_map_ofFile]
    simp only [hm, hsort] at h
    split_ifs at h with hcount
    cases hc : checkTotal 0 ((sorted (fs.walk root)).map Entry.ofFile) with
    | error e => simp [hc] at h
    | ok u =>
      simp only [hc, Except.ok.injEq] at h
      have hsum := (checkTotal_eq_ok_iff (Nat.zero_le _)).mp hc
      rw [List.map_map, Nat.zero_add] at hsum
      refine ⟨⟨fun x hx => hall x (hperm.mem_iff.mp hx), ?_, hsum⟩, h.symm⟩
      rw [hperm.length_eq, ← Except.length_of_mapM hm]
      exact Nat.le_of_not_lt hcount

lemma writeEntry_ofFile (b3 : Blake3) {fs : FileTree} {root : Path Component}
    {x : Path Component × File} (h : x ∈ fs.walk root) :
    writeEntry b3 fs root (Entry.ofFile x) =
      .ok (packed x, (Entry.ofFile x).setDigest (blake3Digest b3 x.2.content)) := by
  have hlook : (join root (Entry.ofFile x).name).bind fs.lookup = some (.file x.2) := by
    rw [Entry.ofFile, join_relName]
    exact Fs.mem_walk.mp h
  have hlen : ¬x.2.content.length ≠ (Entry.ofFile x).size := not_not.mpr rfl
  rw [writeEntry, hlook]
  dsimp only
  rw [if_neg hlen]
  rfl

/-- The packer succeeds where it accepts every file. -/
lemma collect_of_packableAll {fs : FileTree} {root : Path Component}
    (h : PackableAll (sorted (fs.walk root))) :
    collect fs root = .ok ((sorted (fs.walk root)).map Entry.ofFile) := by
  have hperm := sorted_perm (fs.walk root)
  have hm : (fs.walk root).mapM collectFile = .ok ((fs.walk root).map Entry.ofFile) := by
    rw [Except.mapM_eq_ok_iff, List.forall₂_map_right_iff, List.forall₂_same]
    exact fun x hx => collectFile_eq_ok_iff.mpr ⟨h.each x (hperm.mem_iff.mpr hx), rfl⟩
  have hcount : ¬maxEntries < ((fs.walk root).map Entry.ofFile).length := by
    rw [List.length_map, ← hperm.length_eq]
    exact Nat.not_lt.mpr h.length_le
  have htotal : checkTotal 0 ((sorted (fs.walk root)).map Entry.ofFile) = .ok () := by
    rw [checkTotal_eq_ok_iff (Nat.zero_le _), List.map_map, Nat.zero_add]
    exact h.totalSize_le
  simp only [collect_eq, hm, if_neg hcount, insertionSort_map_ofFile, htotal]

lemma mapM_writeEntry (b3 : Blake3) (fs : FileTree) (root : Path Component) :
    ((sorted (fs.walk root)).map Entry.ofFile).mapM (writeEntry b3 fs root) =
      .ok ((sorted (fs.walk root)).map fun x =>
        (packed x, (Entry.ofFile x).setDigest (blake3Digest b3 x.2.content))) := by
  rw [Except.mapM_eq_ok_iff, List.forall₂_map_left_iff, List.forall₂_map_right_iff,
    List.forall₂_same]
  intro x hx
  exact writeEntry_ofFile b3 ((sorted_perm _).mem_iff.mp hx)

lemma create_of_packableAll {b3 : Blake3} {fs : FileTree} {root : Path Component}
    (h : PackableAll (sorted (fs.walk root))) : create b3 fs root =
      .ok (header (sorted (fs.walk root)).length ++ (sorted (fs.walk root)).flatMap packed,
        (sorted (fs.walk root)).map fun x =>
          (Entry.ofFile x).setDigest (blake3Digest b3 x.2.content)) := by
  simp only [create, collect_of_packableAll h, mapM_writeEntry, List.length_map, List.flatMap_map,
    List.map_map]
  rfl

/-- An archive is its header and the packed files in the order of their names. -/
theorem create_eq_ok {b3 : Blake3} {fs : FileTree} {root : Path Component} {data : Str}
    {entries : List Entry} (h : create b3 fs root = .ok (data, entries)) :
    PackableAll (sorted (fs.walk root)) ∧
      data = header (sorted (fs.walk root)).length ++ (sorted (fs.walk root)).flatMap packed ∧
      entries = (sorted (fs.walk root)).map fun x =>
        (Entry.ofFile x).setDigest (blake3Digest b3 x.2.content) := by
  unfold create at h
  cases hc : collect fs root with
  | error e => simp [hc] at h
  | ok collected =>
    obtain ⟨hall, rfl⟩ := collect_eq_ok hc
    simp only [hc, mapM_writeEntry, Except.ok.injEq, Prod.mk.injEq] at h
    obtain ⟨rfl, rfl⟩ := h
    refine ⟨hall, ?_, ?_⟩
    · rw [List.length_map, List.flatMap_map]
    · rw [List.map_map]
      rfl

/-! ### Reading an archive -/

lemma Entry.flags_and (e : Entry) : decide (e.flags &&& 1 ≠ 0) = e.executable := by
  unfold Entry.flags
  cases e.executable <;> rfl

lemma Entry.length_head (e : Entry) : e.head.length = 2 + e.name.length + 1 + 8 := by
  simp [Entry.head]
  omega

/-- The reads of an entry header, wherever it stands. -/
lemma Entry.reads_head (e : Entry) (pre rest : Str) :
    u16At (pre ++ (e.head ++ rest)) pre.length = UInt16.ofNat e.name.length ∧
      slice (pre ++ (e.head ++ rest)) (pre.length + 2) e.name.length = e.name ∧
      u8At (pre ++ (e.head ++ rest)) (pre.length + 2 + e.name.length) = e.flags ∧
      u64At (pre ++ (e.head ++ rest)) (pre.length + 3 + e.name.length) = UInt64.ofNat e.size := by
  refine ⟨?_, ?_, ?_, ?_⟩
  · rw [u16At_append_right le_rfl, Nat.sub_self, Entry.head, List.append_assoc,
      u16At_u16le_append]
  · rw [slice_append_right (by omega), Nat.add_sub_cancel_left, Entry.head, List.append_assoc,
      slice_append_right (by simp), length_u16le, Nat.sub_self, List.append_assoc,
      slice_append_left (by simp), slice_zero_length]
  · have hoff : pre.length + 2 + e.name.length - pre.length = 2 + e.name.length := by omega
    rw [u8At_append_right (by omega), hoff, Entry.head, List.append_assoc,
      u8At_append_right (by simp), length_u16le, Nat.add_sub_cancel_left, List.append_assoc,
      u8At_append_right le_rfl, Nat.sub_self]
    rfl
  · have hoff : pre.length + 3 + e.name.length - pre.length = 2 + e.name.length + 1 := by omega
    rw [u64At_append_right (by omega), hoff, Entry.head, List.append_assoc,
      u64At_append_right (by simp; omega), length_u16le, List.append_assoc,
      u64At_append_right (by omega), List.append_assoc, u64At_append_right (by simp)]
    have hzero : 2 + e.name.length + 1 - 2 - e.name.length - [e.flags].length = 0 := by
      rw [List.length_singleton]
      omega
    rw [hzero, u64At_u64le_append]

/-- A packed file reads back, wherever it stands. -/
lemma Packable.readEntry {x : Path Component × File} (h : Packable x) (pre rest : Str) :
    readEntry (pre ++ (packed x ++ rest)) pre.length =
      .ok (Entry.ofFile x, pre.length + (Entry.ofFile x).head.length) := by
  have hname : (Entry.ofFile x).name.length ≤ maxNameLen := length_le_of_validateName h.name_valid
  have hsize : (Entry.ofFile x).size ≤ maxFileSize := h.size_le
  have hdata : pre ++ (packed x ++ rest) =
      pre ++ ((Entry.ofFile x).head ++ (x.2.content ++ rest)) := by
    rw [packed, List.append_assoc]
  obtain ⟨r1, r2, r3, r4⟩ := (Entry.ofFile x).reads_head pre (x.2.content ++ rest)
  have hlen : (pre ++ ((Entry.ofFile x).head ++ (x.2.content ++ rest))).length =
      pre.length + (2 + (Entry.ofFile x).name.length + 1 + 8) +
        ((Entry.ofFile x).size + rest.length) := by
    simp only [List.length_append, Entry.length_head, Entry.ofFile]
    omega
  have hn : (UInt16.ofNat (Entry.ofFile x).name.length).toNat = (Entry.ofFile x).name.length :=
    UInt16.toNat_ofNat_of_lt' (lt_of_le_of_lt hname (by decide))
  have hs : (UInt64.ofNat (Entry.ofFile x).size).toNat = (Entry.ofFile x).size :=
    UInt64.toNat_ofNat_of_lt' (lt_of_le_of_lt hsize (by decide))
  have hvalid : validateName (Entry.ofFile x).name = .ok () := h.name_valid
  rw [hdata]
  unfold Pack.readEntry
  simp only [r1, hn, r2, hvalid, r3, r4, hs, hlen, Entry.flags_and]
  rw [if_neg (by omega), if_neg (Nat.not_lt.mpr hname), if_neg (by omega), if_neg]
  · simp only [Entry.length_head, ← Nat.add_assoc]
    rfl
  · omega

/-! ### Writing files where nothing is in the way -/

/-- A file as extraction creates it. -/
def extractedFile (umask : UInt32) (f : File) : File :=
  ⟨f.content, fileMode f.executable &&& ~~~umask⟩

/-- Nothing is at `p` and nothing but directories above it. -/
structure Free (fs : FileTree) (p : Path Component) : Prop where
  lookup_eq : fs.lookup p = none
  clear : ∀ q, q <+: p → ∀ n, fs.lookup q = some n → n = .dir

lemma prefix_dropLast_iff {α : Type} {p q : List α} (hp : p ≠ []) :
    q <+: p.dropLast ↔ q ≠ p ∧ q <+: p := by
  conv_rhs => rw [← List.dropLast_append_getLast hp, List.prefix_concat_iff]
  rw [List.dropLast_append_getLast hp]
  constructor
  · intro h
    refine ⟨?_, .inr h⟩
    rintro rfl
    have hle := h.length_le
    have hpos := List.length_pos_iff.mpr hp
    rw [List.length_dropLast] at hle
    omega
  · rintro ⟨hne, h⟩
    exact h.resolve_left hne

/-- Writing a file where nothing is in the way makes the file and its directories. -/
lemma writeFile_of_free (umask : UInt32) {fs : FileTree} {dest p : Path Component}
    (hdest : dest ≠ []) {e : Entry} (hjoin : join dest e.name = some (dest ++ p))
    (h : Free fs (dest ++ p)) (body : Str) :
    ∃ fs', writeFile umask fs dest e body = .ok fs' ∧
      ∀ q, fs'.lookup q = if q = dest ++ p then
          some (.file ⟨body, fileMode e.executable &&& ~~~umask⟩)
        else if q <+: dest ++ p then some .dir else fs.lookup q := by
  have hne : dest ++ p ≠ [] := by simp [hdest]
  obtain ⟨fs₁, hmk, hlook⟩ := Fs.mkdirAll_spec fs (dest ++ p).dropLast
    fun q hq => h.clear q (hq.trans (List.dropLast_prefix _))
  have hfree : fs₁.lookup (dest ++ p) = none := by
    rw [hlook, if_neg, h.lookup_eq]
    rw [prefix_dropLast_iff hne]
    exact fun hq => hq.1 rfl
  have hdir : fs₁.lookup (dest ++ p).dropLast = some .dir := by
    rw [hlook, if_pos List.prefix_rfl]
  refine ⟨fs₁.insert (dest ++ p) (.file ⟨body, fileMode e.executable &&& ~~~umask⟩) hfree hdir, ?_,
    fun q => ?_⟩
  · have hbelow : ¬(dest ++ p ≠ dest ∧ ¬(dest ≠ [] ∧ dest <+: dest ++ p)) :=
      fun hn => hn.2 ⟨hdest, List.prefix_append _ _⟩
    simp only [writeFile, hjoin, if_neg hbelow, hmk, Fs.create_eq hfree hdir]
  · rw [Fs.lookup_insert, hlook]
    simp only [prefix_dropLast_iff hne]
    by_cases hq : q = dest ++ p
    · rw [if_pos hq, if_pos hq]
    · rw [if_neg hq, if_neg hq]
      simp only [ne_eq, hq, not_false_eq_true, true_and]

lemma writeFile_spec (umask : UInt32) {fs : FileTree} {dest : Path Component} (hdest : dest ≠ [])
    {x : Path Component × File} (h : Free fs (dest ++ x.1)) :
    ∃ fs', writeFile umask fs dest (Entry.ofFile x) x.2.content = .ok fs' ∧
      ∀ q, fs'.lookup q = if q = dest ++ x.1 then some (.file (extractedFile umask x.2))
        else if q <+: dest ++ x.1 then some .dir else fs.lookup q :=
  writeFile_of_free umask hdest (join_relName dest x.1) h x.2.content

/-- What extraction makes of `fs`: the files below `dest`, their directories, and nothing else. -/
structure Extracted (umask : UInt32) (dest : Path Component)
    (files : List (Path Component × File)) (fs fs' : FileTree) : Prop where
  keeps : ∀ q n, fs.lookup q = some n → fs'.lookup q = some n
  has : ∀ x ∈ files, fs'.lookup (dest ++ x.1) = some (.file (extractedFile umask x.2))
  only : ∀ q n, fs'.lookup q = some n → fs.lookup q = some n ∨
    ∃ x ∈ files, q <+: dest ++ x.1 ∧
      n = if q = dest ++ x.1 then .file (extractedFile umask x.2) else .dir

/-- One file written before the others. -/
lemma Extracted.cons {umask : UInt32} {dest : Path Component} {x : Path Component × File}
    {files : List (Path Component × File)} {fs fs₁ fs' : FileTree} (hfx : Free fs (dest ++ x.1))
    (hlook : ∀ q, fs₁.lookup q = if q = dest ++ x.1 then
        some (.file (extractedFile umask x.2))
      else if q <+: dest ++ x.1 then some .dir else fs.lookup q)
    (hext : Extracted umask dest files fs₁ fs') : Extracted umask dest (x :: files) fs fs' := by
  refine ⟨?_, ?_, ?_⟩
  · intro q n hq
    refine hext.keeps q n ?_
    rw [hlook]
    by_cases hqx : q = dest ++ x.1
    · rw [hqx, hfx.lookup_eq] at hq
      cases hq
    · rw [if_neg hqx]
      split_ifs with hpre
      · rw [hfx.clear q hpre n hq]
      · exact hq
  · intro y hy
    rcases List.mem_cons.mp hy with rfl | hy
    · exact hext.keeps _ _ (by rw [hlook, if_pos rfl])
    · exact hext.has y hy
  · intro q n hq
    rcases hext.only q n hq with hq | ⟨y, hy, hpre, hn⟩
    · rw [hlook] at hq
      by_cases hqx : q = dest ++ x.1
      · rw [if_pos hqx] at hq
        cases hq
        exact .inr ⟨x, by simp, hqx ▸ List.prefix_rfl, by rw [if_pos hqx]⟩
      · rw [if_neg hqx] at hq
        split_ifs at hq with hpre
        · cases hq
          exact .inr ⟨x, by simp, hpre, by rw [if_neg hqx]⟩
        · exact .inl hq
    · exact .inr ⟨y, List.mem_cons_of_mem _ hy, hpre, hn⟩

/-- No file of the list lies in another. -/
def PrefixFree (files : List (Path Component × File)) : Prop :=
  files.Pairwise fun x y => ¬x.1 <+: y.1 ∧ ¬y.1 <+: x.1

lemma extractFrom_spec (umask : UInt32) {dest : Path Component} (hdest : dest ≠ [])
    {files : List (Path Component × File)} (hp : ∀ x ∈ files, Packable x)
    (hpf : PrefixFree files) (pre tail : Str) {total : ℕ}
    (htotal : total + totalSize files ≤ maxTotalSize) {fs : FileTree}
    (hfree : ∀ x ∈ files, Free fs (dest ++ x.1)) :
    ∃ fs', extractFrom umask (pre ++ (files.flatMap packed ++ tail)) dest files.length pre.length
        total fs = (.ok (files.map Entry.ofFile), fs') ∧ Extracted umask dest files fs fs' := by
  induction files generalizing pre total fs with
  | nil =>
    refine ⟨fs, rfl, fun _ _ h => h, ?_, fun _ _ h => .inl h⟩
    intro x hx
    cases hx
  | cons x files ih =>
    obtain ⟨hx, hfiles⟩ := List.forall_mem_cons.mp hp
    obtain ⟨hxf, hpf⟩ := List.pairwise_cons.mp hpf
    obtain ⟨hfx, hfree⟩ := List.forall_mem_cons.mp hfree
    have hsum : totalSize (x :: files) = x.2.content.length + totalSize files := rfl
    rw [hsum, ← Nat.add_assoc] at htotal
    obtain ⟨fs₁, hwrite, hlook⟩ := writeFile_spec umask hdest hfx
    have hfree₁ : ∀ y ∈ files, Free fs₁ (dest ++ y.1) := by
      intro y hy
      obtain ⟨hxy, hyx⟩ := hxf y hy
      rw [← List.prefix_append_right_inj dest] at hxy hyx
      constructor
      · have hne : dest ++ y.1 ≠ dest ++ x.1 := fun he => hyx (he ▸ List.prefix_rfl)
        rw [hlook, if_neg hne, if_neg hyx, (hfree y hy).lookup_eq]
      · intro q hq n hn
        have hne : q ≠ dest ++ x.1 := by
          rintro rfl
          exact hxy hq
        rw [hlook, if_neg hne] at hn
        split_ifs at hn
        · exact (Option.some.inj hn).symm
        · exact (hfree y hy).clear q hq n hn
    have hbytes : pre ++ ((x :: files).flatMap packed ++ tail) =
        (pre ++ packed x) ++ (files.flatMap packed ++ tail) := by
      simp
    have hnext : (pre ++ packed x).length =
        pre.length + (Entry.ofFile x).head.length + (Entry.ofFile x).size := by
      rw [packed, List.length_append, List.length_append, ← Nat.add_assoc]
      rfl
    obtain ⟨fs', hrest, hext⟩ := ih hfiles hpf (pre ++ packed x) htotal hfree₁
    have hread := hx.readEntry pre (files.flatMap packed ++ tail)
    have hbody : slice (pre ++ (packed x ++ (files.flatMap packed ++ tail)))
        (pre.length + (Entry.ofFile x).head.length) (Entry.ofFile x).size = x.2.content := by
      rw [slice_append_right (by omega), Nat.add_sub_cancel_left, packed, List.append_assoc,
        slice_append_right le_rfl, Nat.sub_self]
      exact (slice_append_left (by rw [Nat.zero_add]; exact le_rfl)).trans (slice_zero_length _)
    have hsize : ¬maxTotalSize < total + (Entry.ofFile x).size := by
      change ¬maxTotalSize < total + x.2.content.length
      omega
    have hrest' : extractFrom umask (pre ++ (packed x ++ (files.flatMap packed ++ tail))) dest
        files.length (pre.length + (Entry.ofFile x).head.length + (Entry.ofFile x).size)
        (total + (Entry.ofFile x).size) fs₁ = (.ok (files.map Entry.ofFile), fs') := by
      rw [← hnext, ← List.append_assoc]
      exact hrest
    refine ⟨fs', ?_, hext.cons hfx hlook⟩
    rw [hbytes, List.length_cons, extractFrom, List.append_assoc, hread]
    simp only [if_neg hsize, hbody, hwrite, hrest', List.map_cons]

/-! ### The round trip -/

lemma reads_header (count : ℕ) (rest : Str) :
    arrAt 4 (header count ++ rest) 0 = magic ∧ u8At (header count ++ rest) 4 = version ∧
      u32At (header count ++ rest) 8 = UInt32.ofNat count := by
  simp [header, u8At_append_right, u32At_append_right]

lemma length_header (count : ℕ) : (header count).length = 12 := by
  simp [header]

lemma prefixFree_sorted (fs : FileTree) (root : Path Component) :
    PrefixFree (sorted (fs.walk root)) := by
  have hmem : ∀ {x}, x ∈ sorted (fs.walk root) → x ∈ fs.walk root :=
    fun hx => (sorted_perm _).mem_iff.mp hx
  have hnodup : (sorted (fs.walk root)).Nodup :=
    (sorted_perm _).nodup_iff.mpr (Fs.nodup_walk fs root)
  have hne : ∀ {x y : Path Component × File}, x ∈ fs.walk root → y ∈ fs.walk root →
      x.1 <+: y.1 → x = y := by
    intro x y hx hy hpre
    have hxy := Fs.walk_prefix_free hx hy hpre
    exact Prod.ext hxy (Fs.walk_unique hx (by rw [hxy]; exact hy))
  refine hnodup.imp_of_mem fun hx hy hxy => ⟨fun hpre => ?_, fun hpre => ?_⟩
  · exact hxy (hne (hmem hx) (hmem hy) hpre)
  · exact hxy (hne (hmem hy) (hmem hx) hpre).symm

/-- An archive extracted into an empty directory becomes the files that were packed. -/
theorem extract_spec (umask : UInt32) {fs : FileTree} {dest : Path Component} (hdest : dest ≠ [])
    (hdir : fs.lookup dest = some .dir) (hempty : ∀ p ≠ [], fs.lookup (dest ++ p) = none)
    {files : List (Path Component × File)} (hall : PackableAll files) (hpf : PrefixFree files)
    (hne : ∀ x ∈ files, x.1 ≠ []) :
    ∃ fs', extract umask fs (header files.length ++ files.flatMap packed) dest =
        (.ok (files.map Entry.ofFile), fs') ∧ Extracted umask dest files fs fs' := by
  have habove : ∀ q, q <+: dest → fs.lookup q = some .dir := by
    rintro q ⟨rest, rfl⟩
    by_cases hr : rest = []
    · rwa [hr, List.append_nil] at hdir
    · exact Fs.lookup_of_append hdir hr
  obtain ⟨fs₁, hmk, hlook⟩ := Fs.mkdirAll_spec fs dest fun q hq n hn => by
    rw [habove q hq] at hn
    exact (Option.some.inj hn).symm
  have hsame : ∀ q, fs₁.lookup q = fs.lookup q := by
    intro q
    rw [hlook]
    split_ifs with hq
    · rw [habove q hq]
    · rfl
  have hfree : ∀ x ∈ files, Free fs₁ (dest ++ x.1) := by
    intro x hx
    have hnone : fs.lookup (dest ++ x.1) = none := hempty x.1 (hne x hx)
    refine ⟨by rw [hsame, hnone], fun q hq n hn => ?_⟩
    rw [hsame] at hn
    rcases List.prefix_or_prefix_of_prefix hq (List.prefix_append dest x.1) with hq | ⟨t, rfl⟩
    · rw [habove q hq] at hn
      exact (Option.some.inj hn).symm
    · by_cases ht0 : t = []
      · rw [ht0, List.append_nil, hdir] at hn
        exact (Option.some.inj hn).symm
      · rw [hempty t ht0] at hn
        cases hn
  obtain ⟨r1, r2, r3⟩ := reads_header files.length (files.flatMap packed)
  have hcount : (UInt32.ofNat files.length).toNat = files.length :=
    UInt32.toNat_ofNat_of_lt' (lt_of_le_of_lt hall.length_le (by decide))
  have hlen : ¬(header files.length ++ files.flatMap packed).length < 12 := by
    rw [List.length_append, length_header]
    omega
  have htotal : 0 + totalSize files ≤ maxTotalSize := by
    rw [Nat.zero_add]
    exact hall.totalSize_le
  obtain ⟨fs', hok, hext⟩ := extractFrom_spec umask hdest hall.each hpf (header files.length) []
    htotal hfree
  rw [List.append_nil, length_header] at hok
  refine ⟨fs', ?_, fun q n hq => hext.keeps q n (by rw [hsame, hq]), hext.has, fun q n hq => ?_⟩
  · simp only [extract, if_neg hlen, r1, r2, r3, hcount, ne_eq, not_true_eq_false, if_false,
      Nat.not_lt.mpr hall.length_le, hmk, hok]
  · rw [← hsame]
    exact hext.only q n hq

end Dhow.Pack
