import Dhow.Inspect
import Dhow.ReferenceTree

/-!
# What verifying reports

Each discrepancy between a directory and an inventory is reported once, under the file's name and
with its kind, and nothing else is.
-/

namespace Dhow
open Bytes FileSystem

/-- What is wrong with the file of an entry. -/
inductive EntryFault (b3 : Blake3) (fs : FileTree) (dir : Path Component) (e : InventoryEntry) :
    ProblemKind → Prop
  | missing (h : ∀ f, ¬FileAt fs dir e.name f) : EntryFault b3 fs dir e .missing
  | size {f : File} (hf : FileAt fs dir e.name f) (h : f.content.length ≠ e.size.toNat) :
      EntryFault b3 fs dir e .size
  | mode {f : File} (hf : FileAt fs dir e.name f) (hsize : f.content.length = e.size.toNat)
      (h : f.executable ≠ e.executable) : EntryFault b3 fs dir e .mode
  | content {f : File} (hf : FileAt fs dir e.name f) (hsize : f.content.length = e.size.toNat)
      (h : blake3Digest b3 f.content ≠ e.digest) : EntryFault b3 fs dir e .content

/-- A file that is not as the inventory has it, and in which way. -/
inductive Discrepancy (b3 : Blake3) (fs : FileTree) (dir : Path Component)
    (want : List InventoryEntry) : Str → ProblemKind → Prop
  | entry {e : InventoryEntry} {kind : ProblemKind} (he : e ∈ want)
      (h : EntryFault b3 fs dir e kind) : Discrepancy b3 fs dir want e.name kind
  | unexpected {name : Str} {f : File} (hf : FileAt fs dir name f)
      (h : name ∉ want.map InventoryEntry.name) : Discrepancy b3 fs dir want name .unexpected

/-- The files and kinds of some problems. -/
def reported (problems : List Problem) : List (Str × ProblemKind) :=
  problems.map fun p => (p.file, p.kind)

section Exact
variable {b3 : Blake3} {fs : FileTree} {dir : Path Component} {e : InventoryEntry} {f g : File}
  {name : Str} {want : List InventoryEntry}

lemma nodup_walkDataset : ((walkDataset fs dir).map Prod.fst).Nodup := by
  have hnames : (walkDataset fs dir).map Prod.fst = (fs.walk dir).map fun x => relName x.1 := by
    rw [walkDataset_eq, List.map_map]
    rfl
  rw [hnames]
  refine (fs.nodup_walk dir).map_on ?_
  rintro ⟨p, f⟩ hf ⟨q, g⟩ hg hname
  obtain rfl := relName_injective hname
  rw [Fs.walk_unique hf hg]

lemma inspectEntry_of_absent (h : ∀ f, ¬FileAt fs dir e.name f) :
    reported (inspectEntry b3 fs dir (walkDataset fs dir) e).1 = [(e.name, .missing)] ∧
      (inspectEntry b3 fs dir (walkDataset fs dir) e).2 = none := by
  have hnone : (walkDataset fs dir).find? (fun x => x.1 = e.name) = none := by
    rw [List.find?_eq_none]
    rintro ⟨name, f⟩ hx
    rw [mem_walkDataset] at hx
    simp only [decide_eq_true_eq]
    rintro rfl
    exact h f hx
  simp only [inspectEntry, hnone]
  exact ⟨rfl, trivial⟩

lemma inspectEntry_of_size (hf : FileAt fs dir e.name f) (h : f.content.length ≠ e.size.toNat) :
    reported (inspectEntry b3 fs dir (walkDataset fs dir) e).1 = [(e.name, .size)] ∧
      (inspectEntry b3 fs dir (walkDataset fs dir) e).2 = none := by
  simp only [inspectEntry, find?_walkDataset hf, if_pos h]
  exact ⟨rfl, trivial⟩

lemma inspectEntry_of_sized (hf : FileAt fs dir e.name f) (h : f.content.length = e.size.toNat) :
    reported (inspectEntry b3 fs dir (walkDataset fs dir) e).1 =
        (if f.executable ≠ e.executable then [(e.name, .mode)] else []) ++
          (if blake3Digest b3 f.content ≠ e.digest then [(e.name, .content)] else []) ∧
      (inspectEntry b3 fs dir (walkDataset fs dir) e).2 = some f.content.length := by
  simp only [inspectEntry, find?_walkDataset hf, digestFile_of_fileAt hf, ne_eq, h,
    not_true_eq_false, if_false, hexEncode_injective.eq_iff, and_true]
  rw [reported, List.map_append]
  congr 1
  · split_ifs <;> rfl
  · split_ifs <;> rfl

lemma entryFault_of_absent (h : ∀ f, ¬FileAt fs dir e.name f) {kind : ProblemKind} :
    EntryFault b3 fs dir e kind ↔ kind = .missing := by
  constructor
  · intro hfault
    cases hfault with
    | missing _ => rfl
    | size hf _ => exact absurd hf (h _)
    | mode hf _ _ => exact absurd hf (h _)
    | content hf _ _ => exact absurd hf (h _)
  · rintro rfl
    exact .missing h

lemma entryFault_of_size (hf : FileAt fs dir e.name f) (h : f.content.length ≠ e.size.toNat)
    {kind : ProblemKind} : EntryFault b3 fs dir e kind ↔ kind = .size := by
  constructor
  · intro hfault
    cases hfault with
    | missing hnone => exact absurd hf (hnone f)
    | size _ _ => rfl
    | mode hg hsize _ => exact absurd (hf.unique hg ▸ hsize) h
    | content hg hsize _ => exact absurd (hf.unique hg ▸ hsize) h
  · rintro rfl
    exact .size hf h

lemma entryFault_of_sized (hf : FileAt fs dir e.name f) (h : f.content.length = e.size.toNat)
    {kind : ProblemKind} : EntryFault b3 fs dir e kind ↔
      kind = .mode ∧ f.executable ≠ e.executable ∨
        kind = .content ∧ blake3Digest b3 f.content ≠ e.digest := by
  constructor
  · intro hfault
    cases hfault with
    | missing hnone => exact absurd hf (hnone f)
    | size hg hsize => exact absurd (hf.unique hg ▸ h) hsize
    | mode hg _ hmode => exact .inl ⟨rfl, hf.unique hg ▸ hmode⟩
    | content hg _ hdigest => exact .inr ⟨rfl, hf.unique hg ▸ hdigest⟩
  · rintro (⟨rfl, hmode⟩ | ⟨rfl, hdigest⟩)
    · exact .mode hf h hmode
    · exact .content hf h hdigest

/-- What is reported of an entry is what is wrong with its file, once for each kind. -/
lemma reported_inspectEntry (e : InventoryEntry) :
    (reported (inspectEntry b3 fs dir (walkDataset fs dir) e).1).Nodup ∧
      ∀ name kind, (name, kind) ∈ reported (inspectEntry b3 fs dir (walkDataset fs dir) e).1 ↔
        name = e.name ∧ EntryFault b3 fs dir e kind := by
  by_cases hfile : ∃ f, FileAt fs dir e.name f
  · obtain ⟨f, hf⟩ := hfile
    by_cases hsize : f.content.length = e.size.toNat
    · rw [(inspectEntry_of_sized hf hsize).1]
      refine ⟨?_, fun name kind => ?_⟩
      · split_ifs <;> simp
      · rw [entryFault_of_sized hf hsize]
        simp only [List.mem_append, List.mem_ite_nil_right, List.mem_singleton, Prod.mk.injEq]
        tauto
    · rw [(inspectEntry_of_size hf hsize).1]
      refine ⟨List.nodup_singleton _, fun name kind => ?_⟩
      rw [entryFault_of_size hf hsize, List.mem_singleton, Prod.mk.injEq]
  · rw [not_exists] at hfile
    rw [(inspectEntry_of_absent hfile).1]
    refine ⟨List.nodup_singleton _, fun name kind => ?_⟩
    rw [entryFault_of_absent hfile, List.mem_singleton, Prod.mk.injEq]

/-- The file of an entry, if it is hashed. -/
def hashedFile (fs : FileTree) (dir : Path Component) (e : InventoryEntry) : Option (Str × File) :=
  ((walkDataset fs dir).find? fun x => x.1 = e.name).filter fun x =>
    x.2.content.length = e.size.toNat

lemma hashedFile_eq_some_iff : hashedFile fs dir e = some (name, f) ↔
    e.name = name ∧ FileAt fs dir name f ∧ f.content.length = e.size.toNat := by
  rw [hashedFile, Option.filter_eq_some_iff]
  constructor
  · rintro ⟨hfind, hsize⟩
    have hname : name = e.name := by simpa using List.find?_some hfind
    exact ⟨hname.symm, mem_walkDataset.mp (List.mem_of_find?_eq_some hfind), by simpa using hsize⟩
  · rintro ⟨rfl, hf, hsize⟩
    exact ⟨find?_walkDataset hf, by simpa using hsize⟩

lemma inspectEntry_snd (e : InventoryEntry) :
    (inspectEntry b3 fs dir (walkDataset fs dir) e).2 =
      (hashedFile fs dir e).map fun x => x.2.content.length := by
  cases hx : hashedFile fs dir e with
  | some x =>
    obtain ⟨name, f⟩ := x
    obtain ⟨rfl, hf, hsize⟩ := hashedFile_eq_some_iff.mp hx
    exact (inspectEntry_of_sized hf hsize).2
  | none =>
    by_cases hfile : ∃ f, FileAt fs dir e.name f
    · obtain ⟨f, hf⟩ := hfile
      refine (inspectEntry_of_size hf fun hsize => ?_).2
      rw [hashedFile_eq_some_iff.mpr ⟨rfl, hf, hsize⟩] at hx
      cases hx
    · exact (inspectEntry_of_absent (not_exists.mp hfile)).2

/-- No name is hashed twice where no name is listed twice. -/
lemma nodup_hashedFile (hnames : (want.map InventoryEntry.name).Nodup) :
    ((want.filterMap (hashedFile fs dir)).map Prod.fst).Nodup := by
  refine hnames.sublist ?_
  clear hnames
  induction want with
  | nil => exact .slnil
  | cons e want ih =>
    rw [List.filterMap_cons, List.map_cons]
    cases hx : hashedFile fs dir e with
    | none => exact ih.cons _
    | some x =>
      obtain ⟨name, f⟩ := x
      obtain ⟨rfl, -⟩ := hashedFile_eq_some_iff.mp hx
      exact ih.cons_cons _

/-! ### The whole report -/

lemma reported_inspectDataset (hdir : fs.lookup dir = some .dir) (want : List InventoryEntry) :
    reported (inspectDataset b3 fs dir want).1 =
      (want.flatMap fun e => reported (inspectEntry b3 fs dir (walkDataset fs dir) e).1) ++
        (extraNames (walkDataset fs dir) want).map fun name => (name, .unexpected) := by
  simp only [inspectDataset, hdir, reported, List.map_append, List.map_map, List.map_flatMap,
    List.flatMap_map]
  rfl

lemma mem_extraNames : name ∈ extraNames (walkDataset fs dir) want ↔
    (∃ f, FileAt fs dir name f) ∧ name ∉ want.map InventoryEntry.name := by
  rw [extraNames, List.mem_insertionSort, List.mem_filter, List.mem_map]
  constructor
  · rintro ⟨⟨⟨_, f⟩, hx, rfl⟩, hextra⟩
    exact ⟨⟨f, mem_walkDataset.mp hx⟩, by simpa using hextra⟩
  · rintro ⟨⟨f, hf⟩, hextra⟩
    exact ⟨⟨(name, f), mem_walkDataset.mpr hf, rfl⟩, by simpa using hextra⟩

lemma mem_reported (hdir : fs.lookup dir = some .dir) {kind : ProblemKind} :
    (name, kind) ∈ reported (inspectDataset b3 fs dir want).1 ↔
      Discrepancy b3 fs dir want name kind := by
  rw [reported_inspectDataset hdir, List.mem_append, List.mem_flatMap, List.mem_map]
  constructor
  · rintro (⟨e, he, hmem⟩ | ⟨extra, hextra, heq⟩)
    · obtain ⟨rfl, hfault⟩ := ((reported_inspectEntry e).2 _ _).mp hmem
      exact .entry he hfault
    · cases heq
      obtain ⟨⟨f, hf⟩, hname⟩ := mem_extraNames.mp hextra
      exact .unexpected hf hname
  · intro h
    cases h with
    | entry he hfault => exact .inl ⟨_, he, ((reported_inspectEntry _).2 _ _).mpr ⟨rfl, hfault⟩⟩
    | unexpected hf hname => exact .inr ⟨name, mem_extraNames.mpr ⟨⟨_, hf⟩, hname⟩, rfl⟩

/-- Nothing is reported twice. -/
lemma nodup_reported (hdir : fs.lookup dir = some .dir)
    (hnames : (want.map InventoryEntry.name).Nodup) :
    (reported (inspectDataset b3 fs dir want).1).Nodup := by
  rw [reported_inspectDataset hdir, List.nodup_append, List.nodup_flatMap]
  refine ⟨⟨fun e _ => (reported_inspectEntry e).1, ?_⟩, ?_, ?_⟩
  · rw [List.Nodup, List.pairwise_map] at hnames
    refine hnames.imp fun hne => List.disjoint_left.mpr ?_
    rintro ⟨name, kind⟩ ha hb
    rw [(reported_inspectEntry _).2] at ha hb
    exact hne (ha.1.symm.trans hb.1)
  · have hextra : (extraNames (walkDataset fs dir) want).Nodup :=
      (List.perm_insertionSort _ _).nodup_iff.mpr (nodup_walkDataset.filter _)
    exact hextra.map fun _ _ h => congrArg Prod.fst h
  · rintro ⟨name, kind⟩ hentry _ hextra rfl
    obtain ⟨e, he, hmem⟩ := List.mem_flatMap.mp hentry
    obtain ⟨extra, hmemExtra, heq⟩ := List.mem_map.mp hextra
    cases heq
    obtain ⟨rfl, -⟩ := ((reported_inspectEntry e).2 _ _).mp hmem
    exact (mem_extraNames.mp hmemExtra).2 (List.mem_map_of_mem he)

/-- Without a discrepancy the files are those of the inventory. -/
lemma forall_not_discrepancy_iff : (∀ name kind, ¬Discrepancy b3 fs dir want name kind) ↔
    (∀ name, (∃ f, FileAt fs dir name f) ↔ name ∈ want.map InventoryEntry.name) ∧
      ∀ e ∈ want, ∀ f, FileAt fs dir e.name f → f.content.length = e.size.toNat ∧
        blake3Digest b3 f.content = e.digest ∧ f.executable = e.executable := by
  constructor
  · intro hnone
    refine ⟨fun name => ⟨?_, fun hname => ?_⟩, fun e he f hf => ?_⟩
    · rintro ⟨f, hf⟩
      by_contra hname
      exact hnone name .unexpected (.unexpected hf hname)
    · obtain ⟨e, he, rfl⟩ := List.mem_map.mp hname
      by_contra hfile
      exact hnone e.name .missing (.entry he (.missing (not_exists.mp hfile)))
    · have hsize : f.content.length = e.size.toNat := by
        by_contra hsize
        exact hnone e.name .size (.entry he (.size hf hsize))
      refine ⟨hsize, ?_, ?_⟩
      · by_contra hdigest
        exact hnone e.name .content (.entry he (.content hf hsize hdigest))
      · by_contra hmode
        exact hnone e.name .mode (.entry he (.mode hf hsize hmode))
  · rintro ⟨hset, hfiles⟩ name kind h
    cases h with
    | unexpected hf hname => exact hname ((hset name).mp ⟨_, hf⟩)
    | entry he hfault =>
      cases hfault with
      | missing hnone =>
        obtain ⟨f, hf⟩ := (hset _).mpr (List.mem_map_of_mem he)
        exact hnone f hf
      | size hf hsize => exact hsize (hfiles _ he _ hf).1
      | mode hf _ hmode => exact hmode (hfiles _ he _ hf).2.2
      | content hf _ hdigest => exact hdigest (hfiles _ he _ hf).2.1

/-- Verifying a dataset reports each discrepancy with the inventory once and nothing else, so
nothing exactly where the files are those of the inventory; it counts the files of the right size,
which are those that were hashed. -/
theorem inspectDataset_exact (b3 : Blake3) (hdir : fs.lookup dir = some .dir)
    (hnames : (want.map InventoryEntry.name).Nodup) :
    ((inspectDataset b3 fs dir want).1 = [] ↔
      (∀ name, (∃ f, FileAt fs dir name f) ↔ name ∈ want.map InventoryEntry.name) ∧
      ∀ e ∈ want, ∀ f, FileAt fs dir e.name f → f.content.length = e.size.toNat ∧
        blake3Digest b3 f.content = e.digest ∧ f.executable = e.executable) ∧
    (reported (inspectDataset b3 fs dir want).1).Nodup ∧
    (∀ name kind, (name, kind) ∈ reported (inspectDataset b3 fs dir want).1 ↔
      Discrepancy b3 fs dir want name kind) ∧
    ∃ hashed : List (Str × File), (hashed.map Prod.fst).Nodup ∧
      (∀ name f, (name, f) ∈ hashed ↔ FileAt fs dir name f ∧
        ∃ e ∈ want, e.name = name ∧ f.content.length = e.size.toNat) ∧
      (inspectDataset b3 fs dir want).2.1 = hashed.length ∧
      (inspectDataset b3 fs dir want).2.2 = (hashed.map fun x => x.2.content.length).sum := by
  have hhashed : (want.map (inspectEntry b3 fs dir (walkDataset fs dir))).filterMap Prod.snd =
      (want.filterMap (hashedFile fs dir)).map fun x => x.2.content.length := by
    rw [List.filterMap_map, List.map_filterMap]
    congr 1
    funext e
    exact inspectEntry_snd e
  refine ⟨?_, nodup_reported hdir hnames, fun _ _ => mem_reported hdir,
    want.filterMap (hashedFile fs dir), nodup_hashedFile hnames, fun name f => ?_, ?_, ?_⟩
  · rw [← forall_not_discrepancy_iff, ← List.map_eq_nil_iff]
    change reported _ = [] ↔ _
    rw [List.eq_nil_iff_forall_not_mem, Prod.forall]
    simp only [mem_reported hdir]
  · simp only [List.mem_filterMap, hashedFile_eq_some_iff]
    constructor
    · rintro ⟨e, he, rfl, hf, hsize⟩
      exact ⟨hf, e, he, rfl, hsize⟩
    · rintro ⟨hf, e, he, rfl, hsize⟩
      exact ⟨e, he, rfl, hf, hsize⟩
  · simp only [inspectDataset, hdir, hhashed, List.length_map]
  · simp only [inspectDataset, hdir, hhashed]

end Exact

/-- One file that is not executable, and one that was not sent. -/
theorem inspectDataset_exact_reference :
    let want : List InventoryEntry := [⟨relName [Reference.note], 0, zeros 32, true⟩]
    let problems := (inspectDataset Reference.b3 Reference.tree [Reference.top] want).1
    (relName [Reference.note], ProblemKind.mode) ∈ reported problems ∧
      (relName [Reference.bin, Reference.run], ProblemKind.unexpected) ∈ reported problems := by
  intro want problems
  have hnames : (want.map InventoryEntry.name).Nodup := List.nodup_singleton _
  have hexact := (inspectDataset_exact Reference.b3 Reference.lookup_top hnames).2.2.1
  constructor
  · exact (hexact _ _).mpr (.entry List.mem_cons_self
      (.mode (f := Reference.noteFile) ⟨[Reference.note], rfl, rfl⟩ rfl (by decide)))
  · exact (hexact _ _).mpr (.unexpected (f := Reference.runFile)
      ⟨[Reference.bin, Reference.run], rfl, rfl⟩ (by decide))

end Dhow
