import Dhow.AtomicExtraction
import Dhow.ReferenceTree

/-!
# Archives and the trees they are of

An archive depends on a tree's regular files alone, on their names, contents and owner execute
bits; extracted, it is a tree of the same files.
-/

namespace Dhow
open Bytes FileSystem

/-- What a transfer keeps of a node: a file's contents and owner execute bit. -/
def nodeView : Node File → Option (Str × Bool)
  | .file f => some (f.content, f.executable)
  | _ => none

namespace Pack

/-- What the packer reads of a file of the walk. -/
def fileView (x : Path Component × File) : Path Component × Str × Bool :=
  (x.1, x.2.content, x.2.executable)

/-! ### Permissions -/

lemma and_not_of_and_eq_zero {u a : UInt32} (h : u &&& a = 0) : a &&& ~~~u = a := by
  apply UInt32.eq_of_toBitVec_eq
  have hb : u.toBitVec &&& a.toBitVec = 0 := by
    rw [← UInt32.toBitVec_and, h]
    rfl
  ext i hi
  have hbit := congrArg (fun x => x.getLsbD i) hb
  simp only [BitVec.getLsbD_and] at hbit
  rw [UInt32.toBitVec_and, UInt32.toBitVec_not]
  simp only [BitVec.getElem_and, BitVec.getElem_not]
  cases hu : u.toBitVec[i] <;> cases ha : a.toBitVec[i] <;> simp_all

/-- A umask that keeps the owner's bits keeps the execute bit of a mode. -/
lemma executable_fileMode {umask : UInt32} (hu : umask &&& 0o700 = 0) (content : Str) (b : Bool) :
    File.executable ⟨content, fileMode b &&& ~~~umask⟩ = b := by
  have hbit : umask &&& 0o100 = 0 := by
    have hsub : (0o700 : UInt32) &&& 0o100 = 0o100 := by decide
    rw [← hsub, ← UInt32.and_assoc, hu, UInt32.zero_and]
  have hmode : fileMode b &&& ~~~umask &&& 0o100 = fileMode b &&& 0o100 := by
    rw [UInt32.and_assoc, UInt32.and_comm (~~~umask), and_not_of_and_eq_zero hbit]
  rw [File.executable, hmode]
  cases b <;> decide

lemma executable_extractedFile {umask : UInt32} (hu : umask &&& 0o700 = 0) (f : File) :
    (extractedFile umask f).executable = f.executable :=
  executable_fileMode hu f.content f.executable

/-! ### What the archive depends on -/

/-- Two walks that find the same files, in whatever order and with whatever other mode bits. -/
def SameFiles (files files' : List (Path Component × File)) : Prop :=
  (files.map fileView).Perm (files'.map fileView)

/-- The order of the archive, on what the packer reads. -/
def nameLe (x y : Path Component × Str × Bool) : Prop := relName x.1 ≤ relName y.1

instance : DecidableRel nameLe := fun x y =>
  inferInstanceAs (Decidable (relName x.1 ≤ relName y.1))

instance : Std.Total nameLe := ⟨fun x y => List.le_total (relName x.1) (relName y.1)⟩

instance : IsTrans (Path Component × Str × Bool) nameLe :=
  ⟨fun _ _ _ hxy hyz => List.le_trans hxy hyz⟩

lemma map_fileView_sorted (files : List (Path Component × File)) :
    (sorted files).map fileView = (files.map fileView).insertionSort nameLe := by
  apply List.map_insertionSort
  intro x _ y _
  rfl

/-- The sorted files of a walk, as the packer reads them, whatever the order of the walk. -/
lemma sorted_eq_of_sameFiles {files files' : List (Path Component × File)}
    (h : SameFiles files files') (hunique : ∀ x ∈ files, ∀ y ∈ files, x.1 = y.1 → x = y) :
    (sorted files).map fileView = (sorted files').map fileView := by
  rw [map_fileView_sorted, map_fileView_sorted]
  have hperm := ((List.perm_insertionSort nameLe (files.map fileView)).trans h).trans
    (List.perm_insertionSort nameLe (files'.map fileView)).symm
  refine hperm.eq_of_pairwise (fun a b ha hb hab hba => ?_)
    (List.pairwise_insertionSort nameLe _) (List.pairwise_insertionSort nameLe _)
  have hname := relName_injective (List.le_antisymm hab hba)
  rw [List.mem_insertionSort] at ha hb
  rw [← h.mem_iff] at hb
  obtain ⟨x, hx, rfl⟩ := List.mem_map.mp ha
  obtain ⟨y, hy, rfl⟩ := List.mem_map.mp hb
  rw [hunique x hx y hy hname]

/-- What depends on the view of a file alone is the same along lists of equal views. -/
lemma map_eq_of_view {β : Type} {g : Path Component × File → β}
    (hg : ∀ x y, fileView x = fileView y → g x = g y) {l l' : List (Path Component × File)}
    (h : l.map fileView = l'.map fileView) : l.map g = l'.map g := by
  rw [← List.forall₂_eq_eq_eq, List.forall₂_map_left_iff, List.forall₂_map_right_iff] at h ⊢
  exact h.imp hg

lemma PackableAll.of_view {files files' : List (Path Component × File)} (h : PackableAll files)
    (hview : files.map fileView = files'.map fileView) : PackableAll files' := by
  have hlen : files.length = files'.length := by simpa using congrArg List.length hview
  have hsizes : files.map (fun x => x.2.content.length) =
      files'.map (fun x => x.2.content.length) := by
    apply map_eq_of_view _ hview
    intro x y hxy
    rw [(Prod.mk.inj (Prod.mk.inj hxy).2).1]
  refine ⟨fun x hx => ?_, hlen ▸ h.length_le, ?_⟩
  · have hmem : fileView x ∈ files.map fileView := by
      rw [hview]
      exact List.mem_map_of_mem hx
    obtain ⟨y, hy, hyx⟩ := List.mem_map.mp hmem
    obtain ⟨hpath, hrest⟩ := Prod.mk.inj hyx
    obtain ⟨hcontent, -⟩ := Prod.mk.inj hrest
    exact ⟨hpath ▸ (h.each y hy).name_valid, hcontent ▸ (h.each y hy).size_le⟩
  · rw [totalSize, ← hsizes]
    exact h.totalSize_le

/-- The archive depends on the files of the walk alone, as the packer reads them. -/
lemma create_congr {b3 : Blake3} {fs fs' : FileTree} {root root' : Path Component} {data : Str}
    {entries : List Entry} (h : create b3 fs root = .ok (data, entries))
    (hsame : SameFiles (fs.walk root) (fs'.walk root')) :
    create b3 fs' root' = .ok (data, entries) := by
  obtain ⟨hall, rfl, rfl⟩ := create_eq_ok h
  have hsorted := sorted_eq_of_sameFiles hsame fun x hx y hy hxy =>
    Prod.ext hxy (Fs.walk_unique hx (by rw [hxy]; exact hy))
  have hentry : ∀ x y, fileView x = fileView y → Entry.ofFile x = Entry.ofFile y ∧
      x.2.content = y.2.content := by
    intro x y hxy
    obtain ⟨hpath, hrest⟩ := Prod.mk.inj hxy
    obtain ⟨hcontent, hexec⟩ := Prod.mk.inj hrest
    exact ⟨by rw [Entry.ofFile, Entry.ofFile, hpath, hcontent, hexec], hcontent⟩
  have hlen : (sorted (fs.walk root)).length = (sorted (fs'.walk root')).length := by
    simpa using congrArg List.length hsorted
  have hpacked : (sorted (fs.walk root)).map packed = (sorted (fs'.walk root')).map packed := by
    apply map_eq_of_view _ hsorted
    intro x y hxy
    rw [packed, packed, (hentry x y hxy).1, (hentry x y hxy).2]
  have hentries : (sorted (fs.walk root)).map
        (fun x => (Entry.ofFile x).setDigest (blake3Digest b3 x.2.content)) =
      (sorted (fs'.walk root')).map
        fun x => (Entry.ofFile x).setDigest (blake3Digest b3 x.2.content) := by
    apply map_eq_of_view _ hsorted
    intro x y hxy
    rw [(hentry x y hxy).1, (hentry x y hxy).2]
  rw [create_of_packableAll (hall.of_view hsorted), hlen, hentries, List.flatMap_def,
    List.flatMap_def, hpacked]

end Pack

/-! ### What an extracted archive is -/

/-- `out` is `dst` with, below `dest`, the regular files below `root` in `fs`, the directories
they lie in, and nothing else. -/
structure CopiedInto (fs : FileTree) (root : Path Component) (dst out : FileTree)
    (dest : Path Component) : Prop where
  files : ∀ p, (out.lookup (dest ++ p)).bind nodeView = (fs.lookup (root ++ p)).bind nodeView
  directories : ∀ p ≠ [], out.lookup (dest ++ p) = some .dir → ∃ x ∈ fs.walk root, p <+: x.1 ∧
    p ≠ x.1
  regular : ∀ p, out.lookup (dest ++ p) ≠ some .irregular
  outside : ∀ q, ¬dest <+: q → out.lookup q = dst.lookup q

/-- A directory that holds the files of another, as extraction makes them, is the same dataset. -/
lemma Holds.view_eq {umask : UInt32} (hu : umask &&& 0o700 = 0) {fs out : FileTree}
    {root dest : Path Component} {files : List (Path Component × File)}
    (h : Holds umask out dest files) (hroot : fs.lookup root = some .dir)
    (hfiles : ∀ x, x ∈ files ↔ x ∈ fs.walk root) (p : Path Component) :
    (out.lookup (dest ++ p)).bind nodeView = (fs.lookup (root ++ p)).bind nodeView := by
  by_cases hp : p = []
  · rw [hp, List.append_nil, List.append_nil, h.directory, hroot]
  · have hnot (hfs : ∀ f, fs.lookup (root ++ p) ≠ some (.file f)) :
        (out.lookup (dest ++ p)).bind nodeView = none := by
      cases hn : out.lookup (dest ++ p) with
      | none => rfl
      | some n =>
        obtain ⟨x, hx, -, rfl⟩ := h.only p n hp hn
        by_cases hpx : p = x.1
        · rw [hpx] at hfs
          exact absurd (Fs.mem_walk.mp ((hfiles x).mp hx)) (hfs x.2)
        · rw [if_neg hpx]
          rfl
    cases hl : fs.lookup (root ++ p) with
    | none => exact hnot (by simp [hl])
    | some n =>
      cases n with
      | dir => exact hnot (by simp [hl])
      | irregular => exact hnot (by simp [hl])
      | file f =>
        rw [h.has (p, f) ((hfiles _).mpr (Fs.mem_walk.mpr hl))]
        simp only [Option.bind_some, nodeView, Pack.executable_extractedFile hu]
        rfl

lemma Holds.directories {umask : UInt32} {fs out : FileTree} {root dest : Path Component}
    {files : List (Path Component × File)} (h : Holds umask out dest files)
    (hfiles : ∀ x, x ∈ files ↔ x ∈ fs.walk root) {p : Path Component} (hp : p ≠ [])
    (hdir : out.lookup (dest ++ p) = some .dir) : ∃ x ∈ fs.walk root, p <+: x.1 ∧ p ≠ x.1 := by
  obtain ⟨x, hx, hpre, hn⟩ := h.only p .dir hp hdir
  refine ⟨x, (hfiles x).mp hx, hpre, fun hpx => ?_⟩
  rw [if_pos hpx] at hn
  cases hn

lemma Holds.regular {umask : UInt32} {out : FileTree} {dest : Path Component}
    {files : List (Path Component × File)} (h : Holds umask out dest files) (p : Path Component) :
    out.lookup (dest ++ p) ≠ some .irregular := by
  intro hn
  by_cases hp : p = []
  · rw [hp, List.append_nil, h.directory] at hn
    cases hn
  · obtain ⟨x, -, -, hx⟩ := h.only p _ hp hn
    split_ifs at hx

/-- Extraction into a directory changes nothing beside it. -/
lemma Pack.Extracted.outside {umask : UInt32} {fs fs' : FileTree} {dir : Path Component}
    {files : List (Path Component × File)} (h : Pack.Extracted umask dir files fs fs')
    (hdir : fs.lookup dir = some .dir) {q : Path Component} (hq : ¬dir <+: q) :
    fs'.lookup q = fs.lookup q := by
  cases hl : fs.lookup q with
  | some n => exact h.keeps q n hl
  | none =>
    cases hl' : fs'.lookup q with
    | none => rfl
    | some n =>
      rcases h.only q n hl' with hold | ⟨x, -, hpre, -⟩
      · rw [hl] at hold
        cases hold
      · rcases List.prefix_or_prefix_of_prefix hpre (List.prefix_append dir x.1) with ⟨t, rfl⟩ | hd
        · rw [Fs.lookup_append_of_none hl] at hdir
          cases hdir
        · exact absurd hd hq

lemma Pack.ne_nil_of_mem_walk {fs : FileTree} {root : Path Component}
    (hroot : fs.lookup root = some .dir) {x : Path Component × File} (hx : x ∈ fs.walk root) :
    x.1 ≠ [] := by
  intro h
  have hl := Fs.mem_walk.mp hx
  rw [h, List.append_nil, hroot] at hl
  cases hl

/-- The packer's archive of a directory extracts as the directory's regular files, names what was
packed and depends on nothing else. -/
theorem archive_roundTrip {b3 : Blake3} {fs : FileTree} {root : Path Component} {data : Str}
    {entries : List Pack.Entry} (hroot : fs.lookup root = some .dir)
    (h : Pack.create b3 fs root = .ok (data, entries)) :
    (∀ umask dst dest, umask &&& 0o700 = 0 → dest ≠ [] → dst.lookup dest = some .dir →
      (∀ p ≠ [], dst.lookup (dest ++ p) = none) →
      ∃ extracted out, Pack.extract umask dst data dest = (.ok extracted, out) ∧
        CopiedInto fs root dst out dest ∧
        extracted = entries.map fun e => e.setDigest (zeros 32)) ∧
    (∀ e ∈ entries, ∃ p f, fs.lookup (root ++ p) = some (.file f) ∧ e.name = relName p ∧
      e.digest = blake3Digest b3 f.content) ∧
    ∀ fs' root', Pack.SameFiles (fs.walk root) (fs'.walk root') →
      Pack.create b3 fs' root' = .ok (data, entries) := by
  obtain ⟨hall, hdata, hentries⟩ := Pack.create_eq_ok h
  have hfiles : ∀ x, x ∈ Pack.sorted (fs.walk root) ↔ x ∈ fs.walk root :=
    fun x => (Pack.sorted_perm _).mem_iff
  refine ⟨fun umask dst dest hu hdest hdir hempty => ?_, fun e he => ?_,
    fun fs' root' hsame => Pack.create_congr h hsame⟩
  · obtain ⟨out, hok, hext⟩ := Pack.extract_spec umask hdest hdir hempty hall
      (Pack.prefixFree_sorted fs root)
      fun x hx => Pack.ne_nil_of_mem_walk hroot ((hfiles x).mp hx)
    have hholds := hext.holds hdir hempty
    refine ⟨_, out, hdata ▸ hok, ⟨hholds.view_eq hu hroot hfiles,
      fun p hp => hholds.directories hfiles hp, hholds.regular, fun q => hext.outside hdir⟩, ?_⟩
    rw [hentries, List.map_map]
    rfl
  · rw [hentries] at he
    obtain ⟨x, hx, rfl⟩ := List.mem_map.mp he
    exact ⟨x.1, x.2, Fs.mem_walk.mp ((hfiles x).mp hx), rfl, rfl⟩

theorem archive_roundTrip_reference : ∃ data entries extracted out,
    Pack.create Reference.b3 Reference.tree [Reference.top] = .ok (data, entries) ∧
    Pack.extract 0o022 Reference.emptyDir data [Reference.top] = (.ok extracted, out) ∧
    CopiedInto Reference.tree [Reference.top] Reference.emptyDir out [Reference.top] := by
  obtain ⟨data, entries, hcreate⟩ := Reference.exists_create
  obtain ⟨extracted, out, hok, hcopied, -⟩ :=
    (archive_roundTrip Reference.lookup_top hcreate).1 0o022 Reference.emptyDir [Reference.top]
      (by decide) (by simp) rfl fun p hp => Reference.emptyDir_below hp
  exact ⟨data, entries, extracted, out, hcreate, hok, hcopied⟩

end Dhow
