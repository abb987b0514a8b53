import Dhow.Send

/-!
# Verifying a dataset

`inspectDataset` of `cli.go`: every discrepancy between a directory and the inventory that was
signed, with the number of files hashed and their size.
-/

namespace Dhow
open Bytes FileSystem

inductive ProblemKind
  | unreadable
  | missing
  | unexpected
  | size
  | content
  | mode
  deriving DecidableEq

structure Problem where
  file : Str
  kind : ProblemKind
  detail : Str
  deriving DecidableEq

/-- An absolute path as a string. -/
def pathBytes (p : Path Component) : Str :=
  slash :: [slash].intercalate (p.map Subtype.val)

def hexDigits (b : UInt8) : Str :=
  asBytes (String.ofList [Nat.digitChar (b.toNat / 16), Nat.digitChar (b.toNat % 16)])

def hexEncode (digest : Arr 32) : Str := digest.toList.flatMap hexDigits

def shortDigest (d : Str) : Str := if d.length ≤ 8 then d else d.take 8

def modeDetail (wantExecutable : Bool) : Str :=
  if wantExecutable then asBytes "is not executable but was sent executable"
  else asBytes "is executable but was not sent executable"

lemma hexDigits_injective : Function.Injective hexDigits := by
  intro b c h
  have hdigit : ∀ m < 16, ∀ n < 16, Nat.digitChar m = Nat.digitChar n → m = n := by decide
  have hlist := String.ofList_injective (asBytes_injective h)
  rw [List.cons.injEq, List.cons.injEq] at hlist
  have hb := b.toNat_lt
  have hc := c.toNat_lt
  have hhigh := hdigit _ (by omega) _ (by omega) hlist.1
  have hlow := hdigit _ (by omega) _ (by omega) hlist.2.1
  apply UInt8.toNat_inj.mp
  omega

lemma length_hexDigits (b : UInt8) : (hexDigits b).length = 2 := by
  have hdigit : ∀ n < 16, (Nat.digitChar n).toNat < 128 := by decide
  have hb := b.toNat_lt
  rw [hexDigits, asBytes_eq_flatMap, String.toList_ofList, List.flatMap_cons, List.flatMap_cons,
    utf8EncodeChar_of_lt (hdigit _ (by omega)), utf8EncodeChar_of_lt (hdigit _ (by omega))]
  rfl

lemma hexEncode_injective : Function.Injective hexEncode := by
  have hflat : ∀ l l' : Str, l.length = l'.length →
      l.flatMap hexDigits = l'.flatMap hexDigits → l = l' := by
    intro l
    induction l with
    | nil =>
      intro l' hlen _
      exact (List.length_eq_zero_iff.mp hlen.symm).symm
    | cons b l ih =>
      intro l' hlen h
      cases l' with
      | nil => cases hlen
      | cons c l' =>
        rw [List.flatMap_cons, List.flatMap_cons] at h
        obtain ⟨hb, hl⟩ := List.append_inj h (by rw [length_hexDigits, length_hexDigits])
        rw [hexDigits_injective hb, ih l' (Nat.succ.inj hlen) hl]
  intro d d' h
  exact List.Vector.toList_injective (hflat _ _ (by simp) h)

section Inspect
variable (b3 : Blake3) (fs : FileTree) (dir : Path Component)

/-- The regular files below a directory, by name. What is not a regular file is passed over. -/
def walkDataset : List (Str × File) :=
  (fs.walkDir dir).filterMap fun x =>
    match x.2 with
    | .file f => some (relName x.1, f)
    | .dir | .irregular => none

lemma walkDataset_eq : walkDataset fs dir = (fs.walk dir).map fun x => (relName x.1, x.2) := by
  rw [walkDataset, Fs.walk, List.map_filterMap]
  congr 1
  funext x
  obtain ⟨p, n⟩ := x
  cases n <;> rfl

/-- A regular file below the directory, by its slash-separated name. -/
def FileAt (name : Str) (f : File) : Prop :=
  ∃ p, relName p = name ∧ fs.lookup (dir ++ p) = some (.file f)

/-- The digest of a file's contents. -/
def digestFile (name : Str) : Except Str (Arr 32) :=
  match (join dir name).bind fs.lookup with
  | some (.file f) => .ok (blake3Digest b3 f.content)
  | _ => .error (asBytes "cannot read: open " ++ (pathBytes dir ++ ([slash] ++ (name ++
      asBytes ": no such file or directory"))))

/-- What is wrong with the file of one entry, and its size if it was hashed. -/
def inspectEntry (found : List (Str × File)) (entry : InventoryEntry) :
    List Problem × Option ℕ :=
  match found.find? fun x => x.1 = entry.name with
  | none => ([⟨entry.name, .missing, asBytes "missing from the dataset"⟩], none)
  | some (_, fi) =>
    if fi.content.length ≠ entry.size.toNat then
      ([⟨entry.name, .size,
        asBytes s!"is {fi.content.length} bytes, expected {entry.size.toNat}"⟩], none)
    else
      let mode : List Problem := if fi.executable ≠ entry.executable then
        [⟨entry.name, .mode, modeDetail entry.executable⟩] else []
      match digestFile b3 fs dir entry.name with
      | .error detail => (mode ++ [⟨entry.name, .unreadable, detail⟩], none)
      | .ok digest =>
        let content : List Problem := if hexEncode digest ≠ hexEncode entry.digest then
          [⟨entry.name, .content, asBytes "contents differ: digest " ++
            (shortDigest (hexEncode digest) ++ (asBytes ", expected " ++
              shortDigest (hexEncode entry.digest)))⟩] else []
        (mode ++ content, some fi.content.length)

/-- The names found that no entry has, sorted. -/
def extraNames (found : List (Str × File)) (want : List InventoryEntry) : List Str :=
  ((found.map Prod.fst).filter fun name => !want.any (·.name == name)).insertionSort
    (· ≤ ·)

/-- The problems, the number of files hashed and the number of bytes read. -/
def inspectDataset (want : List InventoryEntry) : List Problem × ℕ × ℕ :=
  match fs.lookup dir with
  | none =>
    ([⟨[], .unreadable, asBytes "cannot read " ++ (pathBytes dir ++ (asBytes ": stat " ++
      (pathBytes dir ++ asBytes ": no such file or directory")))⟩], 0, 0)
  | some .dir =>
    let found := walkDataset fs dir
    let inspected := want.map (inspectEntry b3 fs dir found)
    let hashed := inspected.filterMap Prod.snd
    let unexpected := (extraNames found want).map fun name =>
      (⟨name, .unexpected, asBytes "is not part of the transfer"⟩ : Problem)
    (inspected.flatMap Prod.fst ++ unexpected, hashed.length, hashed.sum)
  | some _ => ([⟨[], .unreadable, pathBytes dir ++ asBytes " is not a directory"⟩], 0, 0)

variable {b3 fs dir}

section FileAt
variable {name : Str} {f g : File}

lemma FileAt.unique (hf : FileAt fs dir name f) (hg : FileAt fs dir name g) : f = g := by
  obtain ⟨p, rfl, hp⟩ := hf
  obtain ⟨q, hq, hg⟩ := hg
  rw [relName_injective hq, hp] at hg
  cases hg
  rfl

lemma mem_walkDataset : (name, f) ∈ walkDataset fs dir ↔ FileAt fs dir name f := by
  simp only [walkDataset_eq, List.mem_map, Prod.mk.injEq, Prod.exists]
  constructor
  · rintro ⟨p, g, hp, rfl, rfl⟩
    exact ⟨p, rfl, Fs.mem_walk.mp hp⟩
  · rintro ⟨p, rfl, hp⟩
    exact ⟨p, f, Fs.mem_walk.mpr hp, rfl, rfl⟩

/-- The first file of a name is the file of that name. -/
lemma find?_walkDataset (hf : FileAt fs dir name f) :
    (walkDataset fs dir).find? (fun x => x.1 = name) = some (name, f) := by
  cases hx : (walkDataset fs dir).find? fun x => x.1 = name with
  | none => simpa using List.find?_eq_none.mp hx _ (mem_walkDataset.mpr hf)
  | some x =>
    have hname : x.1 = name := by simpa using List.find?_some hx
    obtain ⟨_, g⟩ := x
    subst hname
    rw [(mem_walkDataset.mp (List.mem_of_find?_eq_some hx)).unique hf]

lemma digestFile_of_fileAt (hf : FileAt fs dir name f) :
    digestFile b3 fs dir name = .ok (blake3Digest b3 f.content) := by
  obtain ⟨p, rfl, hp⟩ := hf
  have hread : (join dir (relName p)).bind fs.lookup = some (.file f) := by
    rw [join_relName]
    exact hp
  rw [digestFile, hread]

end FileAt

/-- An entry whose file is there as signed has no problem. -/
lemma inspectEntry_of_file {entry : InventoryEntry} {p : Path Component} {f : File}
    (hname : entry.name = relName p) (hf : fs.lookup (dir ++ p) = some (.file f))
    (hsize : f.content.length = entry.size.toNat) (hmode : f.executable = entry.executable)
    (hdigest : blake3Digest b3 f.content = entry.digest) :
    inspectEntry b3 fs dir (walkDataset fs dir) entry = ([], some f.content.length) := by
  have hfile : FileAt fs dir entry.name f := ⟨p, hname.symm, hf⟩
  unfold inspectEntry
  simp only [find?_walkDataset hfile, digestFile_of_fileAt hfile, ne_eq, hsize, hmode, hdigest,
    not_true_eq_false, if_false, List.append_nil]

/-- A dataset whose files are exactly those signed has no problem. -/
lemma inspectDataset_eq_nil {want : List InventoryEntry} (hdir : fs.lookup dir = some .dir)
    (hwant : ∀ e ∈ want, ∃ p f, e.name = relName p ∧ fs.lookup (dir ++ p) = some (.file f) ∧
      f.content.length = e.size.toNat ∧ f.executable = e.executable ∧
      blake3Digest b3 f.content = e.digest)
    (honly : ∀ p f, fs.lookup (dir ++ p) = some (.file f) → ∃ e ∈ want, e.name = relName p) :
    (inspectDataset b3 fs dir want).1 = [] := by
  have hextra : extraNames (walkDataset fs dir) want = [] := by
    have hfilter : ((walkDataset fs dir).map Prod.fst).filter
        (fun name => !want.any (·.name == name)) = [] := by
      rw [List.filter_eq_nil_iff]
      intro name hn
      obtain ⟨x, hx, rfl⟩ := List.mem_map.mp hn
      rw [walkDataset_eq] at hx
      obtain ⟨⟨p, f⟩, hp, rfl⟩ := List.mem_map.mp hx
      obtain ⟨e, he, hname⟩ := honly p f (Fs.mem_walk.mp hp)
      simpa using ⟨e, he, hname⟩
    rw [extraNames, hfilter]
    rfl
  have heach : (want.map (inspectEntry b3 fs dir (walkDataset fs dir))).flatMap Prod.fst = [] := by
    rw [List.flatMap_eq_nil_iff]
    intro x hx
    obtain ⟨e, he, rfl⟩ := List.mem_map.mp hx
    obtain ⟨p, f, hname, hf, hsize, hmode, hdigest⟩ := hwant e he
    rw [inspectEntry_of_file hname hf hsize hmode hdigest]
  simp only [inspectDataset, hdir, heach, hextra, List.map_nil, List.append_nil]

/-- An entry without a problem has its file, as signed. -/
lemma exists_file_of_inspectEntry {entry : InventoryEntry}
    (h : (inspectEntry b3 fs dir (walkDataset fs dir) entry).1 = []) :
    ∃ p f, entry.name = relName p ∧ fs.lookup (dir ++ p) = some (.file f) ∧
      f.content.length = entry.size.toNat ∧ f.executable = entry.executable ∧
      blake3Digest b3 f.content = entry.digest := by
  unfold inspectEntry at h
  cases hfound : (walkDataset fs dir).find? fun x => x.1 = entry.name with
  | none => simp [hfound] at h
  | some x =>
    obtain ⟨name, f⟩ := x
    obtain rfl : name = entry.name := by simpa using List.find?_some hfound
    have hfile := mem_walkDataset.mp (List.mem_of_find?_eq_some hfound)
    simp only [hfound, digestFile_of_fileAt hfile] at h
    obtain ⟨p, hp, hf⟩ := hfile
    refine ⟨p, f, hp.symm, hf, ?_⟩
    by_cases hsize : f.content.length = entry.size.toNat
    · rw [if_neg (not_not.mpr hsize), List.append_eq_nil_iff] at h
      refine ⟨hsize, ?_, ?_⟩
      · by_contra hmode
        simp [hmode] at h
      · by_contra hdigest
        simp [hexEncode_injective.eq_iff, hdigest] at h
    · simp [hsize] at h

/-- A dataset has no problem exactly if its files are those signed. -/
theorem inspectDataset_eq_nil_iff {want : List InventoryEntry} (hdir : fs.lookup dir = some .dir) :
    (inspectDataset b3 fs dir want).1 = [] ↔
      (∀ e ∈ want, ∃ p f, e.name = relName p ∧ fs.lookup (dir ++ p) = some (.file f) ∧
        f.content.length = e.size.toNat ∧ f.executable = e.executable ∧
        blake3Digest b3 f.content = e.digest) ∧
      ∀ p f, fs.lookup (dir ++ p) = some (.file f) → ∃ e ∈ want, e.name = relName p := by
  constructor
  · intro h
    simp only [inspectDataset, hdir, List.append_eq_nil_iff] at h
    obtain ⟨heach, hextra⟩ := h
    constructor
    · intro e he
      apply exists_file_of_inspectEntry
      rw [List.flatMap_eq_nil_iff] at heach
      exact heach _ (List.mem_map_of_mem he)
    · intro p f hf
      by_contra hnone
      have hmem : relName p ∈ extraNames (walkDataset fs dir) want := by
        rw [extraNames, List.mem_insertionSort, List.mem_filter, walkDataset_eq]
        refine ⟨List.mem_map_of_mem (List.mem_map_of_mem (Fs.mem_walk.mpr hf)), ?_⟩
        simpa using fun e he heq => hnone ⟨e, he, heq⟩
      rw [List.map_eq_nil_iff.mp hextra] at hmem
      cases hmem
  · rintro ⟨hwant, honly⟩
    exact inspectDataset_eq_nil hdir hwant honly

end Inspect
end Dhow
