import Dhow.Extraction
import Dhow.Lib.SystemCalls

/-!
# Extraction call by call

`Extract` and `extractAtomically` as the system calls they make, each of which may fail, into a
destination as the command line gives it: a string, resolved by the operating system where it
is used and by `filepath` where its parent is computed.
-/

namespace Dhow.Host
open Bytes FileSystem

abbrev Os (ε α : Type) := Sys Component File ε α
abbrev OsError := Failure (FsError Component)

/-! ### Paths as they are written -/

/-- Where a path that is written as `s` starts. -/
def startOf (cwd : Path Component) (s : Str) : Path Component :=
  if s.head? = some slash then [] else cwd

/-- The path that is written as `s`. The empty string is none. -/
def named (cwd : Path Component) (s : Str) : Option (Path Component) :=
  if s = [] then none else join (startOf cwd s) s

/-- What is behind the last slash. -/
def lastPart (s : Str) : Str := ((s.splitOn slash).getLast?).getD []

/-- `filepath.Dir`. -/
def parentOf (cwd : Path Component) (s : Str) : Option (Path Component) :=
  (s.splitOn slash).dropLast.foldlM joinStep (startOf cwd s)

/-- `filepath.Base`. -/
def baseName (s : Str) : Str :=
  match ((s.splitOn slash).filter (· ≠ [])).getLast? with
  | some base => base
  | none => if s = [] then dot else [slash]

/-- The directories that a path leads to from `p`, one for each part of it as it is written. -/
def dirsAlong (p : Path Component) : List Str → Option (List (Path Component))
  | [] => some []
  | part :: parts =>
    match joinStep p part with
    | none => none
    | some q => (dirsAlong q parts).map (q :: ·)

/-- The directories that the operating system goes through to the last part of a path. -/
def wayTo (cwd : Path Component) (s : Str) : Option (List (Path Component)) :=
  dirsAlong (startOf cwd s) (s.splitOn slash).dropLast

/-- The directory the operating system comes to from `p` along `parts`. -/
def walkDirs (fs : FileTree) : Path Component → List Str →
    Except (FsError Component) (Path Component)
  | p, [] => .ok p
  | p, part :: parts =>
    match joinStep p part with
    | none => .error (.invalid p)
    | some q =>
      match fs.lookup q with
      | some .dir => walkDirs fs q parts
      | some _ => .error (.noDirectory q)
      | none => .error (.notExist q)

def stat (cwd : Path Component) (s : Str) (fs : FileTree) :
    Except (FsError Component) (Node File) :=
  if s = [] then .error (.notExist cwd)
  else
    match walkDirs fs (startOf cwd s) (s.splitOn slash).dropLast with
    | .error e => .error e
    | .ok dir =>
      match joinStep dir (lastPart s) with
      | none => .error (.invalid dir)
      | some p =>
        match fs.lookup p with
        | none => .error (.notExist p)
        | some n => .ok n

/-- `os.Rename` of a directory. A path that ends in no name is one of a directory that is there,
which is in the way. -/
def renameTo (cwd src : Path Component) (s : Str) (fs : FileTree) :
    Except (FsError Component) FileTree :=
  match walkDirs fs (startOf cwd s) (s.splitOn slash).dropLast with
  | .error e => .error e
  | .ok dir =>
    if h : IsComponent (lastPart s) then fs.rename src (dir ++ [⟨lastPart s, h⟩])
    else .error (.invalid dir)

/-! ### Where a path leads -/

section Ways
variable {fs : FileTree} {cwd p q r : Path Component} {s : Str} {parts : List Str}
  {ps way : List (Path Component)}

lemma foldlM_joinStep_eq (p : Path Component) (parts : List Str) :
    parts.foldlM joinStep p = (dirsAlong p parts).map (·.getLastD p) := by
  induction parts generalizing p with
  | nil => rfl
  | cons part parts ih =>
    rw [List.foldlM_cons, dirsAlong]
    cases joinStep p part with
    | none => rfl
    | some q =>
      change parts.foldlM joinStep q = _
      rw [ih, Option.map_map]
      exact Option.map_congr fun qs _ => by rw [Function.comp_apply, List.getLastD_cons]

/-- A part of a path leads up, nowhere, or one name down. -/
lemma prefix_of_joinStep {part : Str} (h : joinStep p part = some q) (hr : r <+: q) :
    r = q ∨ r <+: p := by
  unfold joinStep at h
  split_ifs at h
  · cases h
    exact .inr hr
  · cases h
    exact .inr (hr.trans (List.dropLast_prefix p))
  · cases h
    rcases List.prefix_concat_iff.mp hr with h | h
    · exact .inl h
    · exact .inr h

/-- What lies above a directory on the way is on the way too, or above its start. -/
lemma mem_of_prefix_mem (h : dirsAlong p parts = some ps) (hq : q ∈ ps) (hr : r <+: q) :
    r ∈ ps ∨ r <+: p := by
  induction parts generalizing p ps with
  | nil =>
    cases h
    cases hq
  | cons part parts ih =>
    rw [dirsAlong] at h
    cases hp : joinStep p part with
    | none => simp [hp] at h
    | some p' =>
      simp only [hp, Option.map_eq_some_iff] at h
      obtain ⟨qs, hqs, rfl⟩ := h
      have hend : r <+: p' → r ∈ p' :: qs ∨ r <+: p := fun hr =>
        (prefix_of_joinStep hp hr).imp (fun h => by simp [h]) id
      rcases List.mem_cons.mp hq with rfl | hq
      · exact hend hr
      · exact (ih hqs hq).elim (fun h => .inl (List.mem_cons_of_mem _ h)) hend

/-- Where a path leads, the operating system has gone through directories. -/
lemma of_walkDirs (h : walkDirs fs p parts = .ok q) :
    ∃ ps, dirsAlong p parts = some ps ∧ (∀ r ∈ ps, fs.lookup r = some .dir) ∧
      q = ps.getLastD p := by
  induction parts generalizing p with
  | nil =>
    cases h
    exact ⟨[], rfl, by simp, rfl⟩
  | cons part parts ih =>
    rw [walkDirs] at h
    cases hp : joinStep p part with
    | none => simp [hp] at h
    | some p' =>
      simp only [hp] at h
      split at h
      next hdir =>
        obtain ⟨ps, hps, hdirs, rfl⟩ := ih h
        refine ⟨p' :: ps, ?_, List.forall_mem_cons.mpr ⟨hdir, hdirs⟩, List.getLastD_cons.symm⟩
        simp only [dirsAlong, hp, hps, Option.map_some]
      · cases h
      · cases h

lemma walkDirs_of_dirs (h : dirsAlong p parts = some ps)
    (hdirs : ∀ q ∈ ps, fs.lookup q = some .dir) :
    walkDirs fs p parts = .ok (ps.getLastD p) := by
  induction parts generalizing p ps with
  | nil =>
    cases h
    rfl
  | cons part parts ih =>
    rw [dirsAlong] at h
    cases hp : joinStep p part with
    | none => simp [hp] at h
    | some p' =>
      simp only [hp, Option.map_eq_some_iff] at h
      obtain ⟨qs, hqs, rfl⟩ := h
      obtain ⟨hdir, hdirs⟩ := List.forall_mem_cons.mp hdirs
      rw [walkDirs, hp, List.getLastD_cons]
      simp only [hdir]
      exact ih hqs hdirs

/-- Where no file is in the way, the operating system comes to the directory or to where it ends. -/
lemma walkDirs_or (h : dirsAlong p parts = some ps)
    (hclear : ∀ q ∈ ps, ∀ n, fs.lookup q = some n → n = .dir) :
    walkDirs fs p parts = .ok (ps.getLastD p) ∨
      ∃ r, walkDirs fs p parts = .error (.notExist r) := by
  induction parts generalizing p ps with
  | nil =>
    cases h
    exact .inl rfl
  | cons part parts ih =>
    rw [dirsAlong] at h
    cases hp : joinStep p part with
    | none => simp [hp] at h
    | some p' =>
      simp only [hp, Option.map_eq_some_iff] at h
      obtain ⟨qs, hqs, rfl⟩ := h
      obtain ⟨hp', hclear⟩ := List.forall_mem_cons.mp hclear
      rw [walkDirs, hp, List.getLastD_cons]
      cases hl : fs.lookup p' with
      | none =>
        simp only [hl]
        exact .inr ⟨_, rfl⟩
      | some n =>
        rw [hp' n hl] at hl
        simp only [hl]
        exact ih hqs hclear

lemma parentOf_eq (cwd : Path Component) (s : Str) :
    parentOf cwd s = (wayTo cwd s).map (·.getLastD (startOf cwd s)) := foldlM_joinStep_eq _ _

lemma splitOn_eq_concat (s : Str) : s.splitOn slash = (s.splitOn slash).dropLast ++ [lastPart s] := by
  have hlast : (s.splitOn slash).getLast? = some (lastPart s) := by
    rw [lastPart]
    cases hl : (s.splitOn slash).getLast? with
    | none => exact absurd (List.getLast?_eq_none_iff.mp hl) (List.splitOn_ne_nil slash s)
    | some part => rfl
  exact (List.dropLast_append_getLast? _ hlast).symm

/-- A path leads through its parent. -/
lemma named_eq (hs : s ≠ []) :
    named cwd s = (parentOf cwd s).bind fun parent => joinStep parent (lastPart s) := by
  rw [named, if_neg hs, join, parentOf]
  conv_lhs => rw [splitOn_eq_concat s]
  rw [List.foldlM_append]
  cases (s.splitOn slash).dropLast.foldlM joinStep (startOf cwd s) with
  | none => rfl
  | some parent =>
    change (joinStep parent (lastPart s)).bind pure = joinStep parent (lastPart s)
    exact Option.bind_fun_some _

/-- A path that ends in a name is that name below its parent. -/
lemma named_of_lastPart (h : IsComponent (lastPart s)) :
    named cwd s = (parentOf cwd s).map (· ++ [⟨lastPart s, h⟩]) := by
  have hs : s ≠ [] := by
    rintro rfl
    exact h.ne_nil rfl
  rw [named_eq hs, Option.map_eq_bind]
  exact congrArg _ (funext fun parent => joinStep_component parent ⟨lastPart s, h⟩)

/-- A path that ends in no name leads to its parent or above it. -/
lemma prefix_parent_of_named (h : ¬IsComponent (lastPart s)) (hq : named cwd s = some q) :
    ∃ parent, parentOf cwd s = some parent ∧ q <+: parent := by
  have hs : s ≠ [] := by
    rintro rfl
    cases hq
  rw [named_eq hs, Option.bind_eq_some_iff] at hq
  obtain ⟨parent, hparent, hstep⟩ := hq
  refine ⟨parent, hparent, ?_⟩
  unfold joinStep at hstep
  split_ifs at hstep
  · cases hstep
    exact List.prefix_rfl
  · cases hstep
    exact List.dropLast_prefix parent

/-- Where nothing is at the end of a path and no file in the way, `Stat` finds nothing. -/
lemma stat_of_absent (hway : wayTo cwd s = some way) (hnamed : named cwd s = some q)
    (hfree : fs.lookup q = none)
    (hclear : ∀ r ∈ way, ∀ n, fs.lookup r = some n → n = .dir) :
    ∃ r, stat cwd s fs = .error (.notExist r) := by
  have hs : s ≠ [] := by
    rintro rfl
    cases hnamed
  rw [stat, if_neg hs]
  rcases walkDirs_or hway hclear with hw | ⟨r, hw⟩
  · rw [named_eq hs, parentOf_eq, hway, Option.map_some, Option.bind_some] at hnamed
    simp only [hw, hnamed, hfree]
    exact ⟨_, rfl⟩
  · rw [hw]
    exact ⟨r, rfl⟩

/-- Where all directories of the way are there, a path that ends in a name can be one's new name. -/
lemma renameTo_of_dirs {src : Path Component} {fs' : FileTree} (hlast : IsComponent (lastPart s))
    (hway : wayTo cwd s = some way) (hdirs : ∀ q ∈ way, fs.lookup q = some .dir)
    (hnamed : named cwd s = some q) (h : fs.rename src q = .ok fs') :
    renameTo cwd src s fs = .ok fs' := by
  rw [named_of_lastPart hlast, parentOf_eq, hway, Option.map_some, Option.map_some,
    Option.some.injEq] at hnamed
  rw [renameTo, walkDirs_of_dirs hway hdirs]
  simp only [dif_pos hlast, hnamed, h]

end Ways

/-! ### The archive -/

def writeFile (umask : UInt32) (absDest : Path Component) (e : Pack.Entry) (body : Str) :
    Os (Failure Pack.PackError) Unit :=
  match join absDest e.name with
  | none => Sys.throw (.error (.creating e.name (.invalid absDest)))
  | some target =>
    if target ≠ absDest ∧ ¬(absDest ≠ [] ∧ absDest <+: target) then
      Sys.throw (.error (.pathTraversal e.name))
    else do
      Sys.mapError (.map (.creatingDirectory e.name)) (Sys.mkdirAll target.dropLast)
      Sys.mapError (.map (.creating e.name))
        (Sys.create target ⟨[], Pack.fileMode e.executable &&& ~~~umask⟩)
      Sys.mapError (.map (.creating e.name))
        (Sys.write target (fun f => { f with content := body })
          fun n f => { f with content := body.take n })
      -- Close.
      Sys.mapError (.map (.creating e.name)) Sys.settle

def extractFrom (umask : UInt32) (data : Str) (absDest : Path Component) :
    (left offset total : ℕ) → Os (Failure Pack.PackError) (List Pack.Entry)
  | 0, _, _ => pure []
  | left + 1, offset, total =>
    match Pack.readEntry data offset with
    | .error e => Sys.throw (.error e)
    | .ok (entry, next) =>
      if Pack.maxTotalSize < total + entry.size then Sys.throw (.error .extractionTooLarge)
      else do
        writeFile umask absDest entry (slice data next entry.size)
        let entries ← extractFrom umask data absDest left (next + entry.size) (total + entry.size)
        pure (entry :: entries)

def extract (umask : UInt32) (data : Str) (dest : Path Component) :
    Os (Failure Pack.PackError) (List Pack.Entry) :=
  if data.length < 12 then Sys.throw (.error .truncated)
  else if arrAt 4 data 0 ≠ Pack.magic then Sys.throw (.error .badMagic)
  else if u8At data 4 ≠ Pack.version then Sys.throw (.error (.badVersion (u8At data 4)))
  else
    let count := (u32At data 8).toNat
    if Pack.maxEntries < count then Sys.throw (.error (.tooManyFiles count))
    else do
      Sys.mapError (.map .creatingDestination) (Sys.mkdirAll dest)
      extractFrom umask data dest count 12 0

/-! ### Beside the destination -/

inductive ExtractError
  | outExists
  | checking (e : OsError)
  | creatingParent (e : OsError)
  | staging (e : OsError)
  | extracting (e : Failure Pack.PackError)
  | moving (e : OsError)

/-- `os.MkdirTemp`, given the random part of the name it comes to. -/
def mkdirTemp (dir : Path Component) (pattern : Str) (random : Component) :
    Os OsError (Path Component) :=
  if h : IsComponent (tempName pattern random.1) then do
    Sys.mkdir (dir ++ [⟨tempName pattern random.1, h⟩])
    pure (dir ++ [⟨tempName pattern random.1, h⟩])
  else Sys.throw (.error (.invalid dir))

/-- An error, after a staging directory is removed as far as it can be. -/
def abandon {α : Type} (staging : Path Component) (e : ExtractError) : Os ExtractError α := do
  let _ ← Sys.attempt (Sys.removeAll staging)
  Sys.throw e

def extractAtomically (umask : UInt32) (random : Component) (cwd : Path Component)
    (payload outDir : Str) : Os ExtractError (List Pack.Entry) := do
  match ← Sys.attempt (Sys.query (stat cwd outDir)) with
  | .ok _ => Sys.throw .outExists
  | .error (.error (.notExist _)) =>
    match parentOf cwd outDir with
    | none => Sys.throw (.creatingParent (.error (.invalid cwd)))
    | some parent => do
      Sys.mapError .creatingParent (Sys.mkdirAll parent)
      let staging ← Sys.mapError .staging
        (mkdirTemp parent (stagingPattern (baseName outDir)) random)
      match ← Sys.attempt (extract umask payload staging) with
      | .error e => abandon staging (.extracting e)
      | .ok entries =>
        match ← Sys.attempt (Sys.change (renameTo cwd staging outDir)) with
        | .error e => abandon staging (.moving e)
        | .ok () => pure entries
  | .error e => Sys.throw (.checking e)

/-! ### Where it succeeds -/

section Success
variable {umask : UInt32} {dest : Path Component} {data : Str} {w w' : World Component File}

lemma of_runs_writeFile {e : Pack.Entry} {body : Str} {u : Unit}
    (h : Sys.Runs (writeFile umask dest e body) w u w') :
    Pack.writeFile umask w.fs dest e body = .ok w'.fs := by
  unfold writeFile at h
  unfold Pack.writeFile
  cases hj : join dest e.name with
  | none =>
    rw [hj] at h
    cases h
  | some target =>
    simp only [hj] at h ⊢
    split_ifs at h ⊢ with htarget
    · cases h
    · obtain ⟨_, w₁, hmk, h⟩ := h.of_bind
      obtain ⟨_, w₂, hcreate, h⟩ := h.of_bind
      obtain ⟨_, w₃, hwrite, h⟩ := h.of_bind
      have hcreate := hcreate.of_mapError.of_create
      obtain ⟨hfree, hdir⟩ := Fs.of_create_eq_ok hcreate
      obtain ⟨fs₂, hcreate', hmodify⟩ := Fs.create_modify (g := fun f : File => { f with content := body })
        (f := ⟨[], Pack.fileMode e.executable &&& ~~~umask⟩) (Fs.create_eq hfree hdir)
      rw [hcreate, Except.ok.injEq] at hcreate'
      have hwritten := hwrite.of_mapError.of_write
      rw [hcreate', hmodify] at hwritten
      rw [hmk.of_mapError.of_mkdirAll]
      simp only [Fs.create_eq hfree hdir, h.of_mapError.of_settle, hwritten]

lemma of_runs_extractFrom {left offset total : ℕ} {entries : List Pack.Entry}
    (h : Sys.Runs (extractFrom umask data dest left offset total) w entries w') :
    Pack.extractFrom umask data dest left offset total w.fs = (.ok entries, w'.fs) := by
  induction left generalizing offset total w entries with
  | zero =>
    cases h
    rfl
  | succ left ih =>
    rw [extractFrom] at h
    rw [Pack.extractFrom]
    cases hr : Pack.readEntry data offset with
    | error e =>
      rw [hr] at h
      cases h
    | ok r =>
      simp only [hr] at h ⊢
      split_ifs at h ⊢ with htotal
      · cases h
      · obtain ⟨_, w₁, hwrite, h⟩ := h.of_bind
        obtain ⟨rest, w₂, hrest, h⟩ := h.of_bind
        cases h
        simp only [of_runs_writeFile hwrite, ih hrest]

/-- An extraction that succeeds has met no fault. -/
lemma of_runs_extract {entries : List Pack.Entry}
    (h : Sys.Runs (extract umask data dest) w entries w') :
    Pack.extract umask w.fs data dest = (.ok entries, w'.fs) := by
  unfold extract at h
  unfold Pack.extract
  dsimp only at h ⊢
  split_ifs at h ⊢
  all_goals try cases h
  obtain ⟨_, w₁, hmk, h⟩ := Sys.Runs.of_bind h
  simp only [hmk.of_mapError.of_mkdirAll, of_runs_extractFrom h]

end Success

/-! ### What is never there -/

section Absent
variable {umask : UInt32} {out dest : Path Component} {e : Pack.Entry} {body data : Str}

/-- What the guard of the writing lets through is below the destination. -/
lemma prefix_of_guard {target : Path Component}
    (h : ¬(target ≠ dest ∧ ¬(dest ≠ [] ∧ dest <+: target))) : dest <+: target := by
  by_cases heq : target = dest
  · exact heq ▸ List.prefix_rfl
  · rw [not_and, not_not] at h
    exact (h heq).2

/-- What the calls of an extraction into `dest` keep. -/
structure KeptBelow (dest : Path Component) (P : FileTree → Prop) : Prop where
  mkdirAll : ∀ p target, dest <+: target → p <+: target → Sys.Keeps P (Sys.mkdirAll p)
  create : ∀ target f, dest <+: target → Sys.Keeps P (Sys.create target f)
  write : ∀ target g cut, dest <+: target → Sys.Keeps P (Sys.write target g cut)

section KeptBelow
variable {P : FileTree → Prop}

lemma KeptBelow.writeFile (h : KeptBelow dest P) : Sys.Keeps P (writeFile umask dest e body) := by
  unfold Host.writeFile
  split
  · exact .throw fun _ h => h
  next target _ =>
    split_ifs with htarget
    · exact .throw fun _ h => h
    · have hbelow := prefix_of_guard htarget
      exact .bind (.mapError (h.mkdirAll _ target hbelow (List.dropLast_prefix _))) fun _ =>
        .bind (.mapError (h.create target _ hbelow)) fun _ =>
        .bind (.mapError (h.write target _ _ hbelow)) fun _ => .mapError .query

lemma KeptBelow.extractFrom (h : KeptBelow dest P) {left offset total : ℕ} :
    Sys.Keeps P (extractFrom umask data dest left offset total) := by
  induction left generalizing offset total with
  | zero => exact .pure fun _ h => h
  | succ left ih =>
    rw [Host.extractFrom]
    split
    · exact .throw fun _ h => h
    · split_ifs
      · exact .throw fun _ h => h
      · exact .bind h.writeFile fun _ => .bind ih fun _ => .pure fun _ h => h

/-- Whatever fails, an extraction keeps what its calls keep. -/
lemma KeptBelow.extract (h : KeptBelow dest P) : Sys.Keeps P (extract umask data dest) := by
  unfold Host.extract
  dsimp only
  split_ifs
  all_goals try exact .throw fun _ h => h
  exact .bind (.mapError (h.mkdirAll dest dest List.prefix_rfl List.prefix_rfl)) fun _ =>
    h.extractFrom

lemma keptBelow_absent (hout : ∀ p, dest <+: p → ¬out <+: p) : KeptBelow dest (Sys.Absent out) where
  mkdirAll _ target hbelow hp := Sys.keeps_mkdirAll fun h => hout target hbelow (h.trans hp)
  create target _ hbelow := Sys.keeps_create fun h => hout target hbelow (h ▸ List.prefix_rfl)
  write _ _ _ _ := Sys.keeps_write

lemma keptBelow_stays (q : Path Component) : KeptBelow dest (Sys.Stays q) where
  mkdirAll _ _ _ _ := Sys.stays_ensureDirs
  create _ _ _ := Sys.stays_create
  write _ _ _ _ := Sys.stays_write

end KeptBelow

/-- What an extraction that succeeds tells of the archive. -/
structure OfArchive (data : Str) (entries : List Pack.Entry) : Prop where
  extractable : Pack.Extractable data
  items : ∃ items, Pack.parse data = .ok items ∧ entries = items.map Prod.fst

/-- Nothing is at `out`, and nothing in the directory `dest`. -/
def EmptyStaging (out dest : Path Component) (fs : FileTree) : Prop :=
  Sys.Absent out fs ∧ ∀ p ≠ [], fs.lookup (dest ++ p) = none

/-- The entries that are extracted are those of the archive, whatever fails. -/
lemma ensures_extract (hdest : dest ≠ []) (hout : ∀ p, dest <+: p → ¬out <+: p) :
    Sys.Ensures (EmptyStaging out dest) (extract umask data dest)
      (fun entries fs => OfArchive data entries ∧ Sys.Absent out fs) fun _ => Sys.Absent out := by
  refine ((keptBelow_absent hout).extract.weaken (fun _ h => h.1) (fun _ _ h => h) fun _ _ h => h).of_runs ?_
  intro w entries w' hw hruns
  have hx := of_runs_extract hruns
  obtain ⟨_, items, -, -, -, -, hparse, hentries, -⟩ := Pack.exists_items_of_extract hx
  exact ⟨⟨umask, w.fs, dest, entries, w'.fs, hdest, hw.2, hx⟩, items, hparse, hentries⟩

/-- A path that ends in a name has it as its base name. -/
lemma baseName_of_lastPart {s : Str} (h : IsComponent (lastPart s)) : baseName s = lastPart s := by
  have hlast : ((s.splitOn slash).filter (· ≠ [])).getLast? = some (lastPart s) := by
    rw [splitOn_eq_concat s, List.filter_append]
    simp [h.ne_nil]
  rw [baseName, hlast]

lemma not_prefix_of_ne {parent p : Path Component} {a b : Component} (hab : a ≠ b)
    (ha : parent ++ [a] <+: p) : ¬parent ++ [b] <+: p := by
  intro hb
  have heq : parent ++ [a] = parent ++ [b] := by
    rcases List.prefix_or_prefix_of_prefix ha hb with h | h
    · exact h.eq_of_length (by simp)
    · exact (h.eq_of_length (by simp)).symm
  rw [List.append_cancel_left_eq, List.cons.injEq] at heq
  exact hab heq.1

lemma keeps_abandon {α : Type} {Q : α → FileTree → Prop} {staging : Path Component}
    {e : ExtractError} :
    Sys.Ensures (Sys.Absent out) (abandon staging e) Q fun _ => Sys.Absent out :=
  .attempt Sys.keeps_removeAll (fun _ => .throw fun _ h => h) fun _ => .throw fun _ h => h

lemma ensures_mkdirTemp {dir : Path Component} {pattern : Str} {random : Component}
    (hne : ∀ h, dir ++ [⟨tempName pattern random.1, h⟩] ≠ out) :
    Sys.Ensures (Sys.Absent out) (mkdirTemp dir pattern random)
      (fun staging fs => (∃ h, staging = dir ++ [⟨tempName pattern random.1, h⟩]) ∧
        EmptyStaging out staging fs) fun _ => Sys.Absent out := by
  unfold mkdirTemp
  split_ifs with h
  · refine .bind (R := fun _ => EmptyStaging out (dir ++ [⟨tempName pattern random.1, h⟩]))
      (.change_ok fun fs fs' hfs hmk => ⟨hfs.mkdir_fs (hne h) hmk, fun p hp => ?_⟩)
      fun _ => .pure fun _ hfs => ⟨⟨h, rfl⟩, hfs⟩
    obtain ⟨hfree, hdir⟩ := Fs.of_mkdir_eq_ok hmk
    rw [Fs.mkdir_eq hfree hdir, Except.ok.injEq] at hmk
    rw [← hmk, Fs.lookup_insert, if_neg (by simpa using hp), Fs.lookup_append_of_none hfree]
  · exact .throw fun _ hfs => hfs

/-- The operating system does not go through the end of a path to come to it. -/
def Straight (cwd : Path Component) (s : Str) (out : Path Component) : Prop :=
  ∀ way, wayTo cwd s = some way → out ∉ way

/-- A new name is one of a path that is straight. -/
lemma ensures_renameTo {cwd src : Path Component} {s : Str} :
    Sys.Ensures (Sys.Absent out) (Sys.change (renameTo cwd src s)) (fun _ _ => Straight cwd s out)
      fun _ => Sys.Absent out := by
  refine .change_ok fun fs fs' hfs hrename way hway hmem => ?_
  unfold renameTo at hrename
  cases hw : walkDirs fs (startOf cwd s) (s.splitOn slash).dropLast with
  | error e => simp [hw] at hrename
  | ok dir =>
    obtain ⟨ps, hps, hdirs, -⟩ := of_walkDirs hw
    rw [wayTo, hps, Option.some.injEq] at hway
    have hdir := hdirs out (hway ▸ hmem)
    rw [hfs] at hdir
    cases hdir

/-- Whatever fails, a destination that was not there is not there after an extraction that did
not succeed, and the entries of one that did are those of the archive. -/
lemma ensures_extractAtomically {random : Component} {cwd : Path Component} {payload outDir : Str}
    (hname : IsComponent (lastPart outDir)) (hout : named cwd outDir = some out) :
    Sys.Ensures (Sys.Absent out) (extractAtomically umask random cwd payload outDir)
      (fun entries _ => OfArchive payload entries ∧ Straight cwd outDir out)
      fun _ => Sys.Absent out := by
  rw [named_of_lastPart hname] at hout
  obtain ⟨parent, hparent, rfl⟩ := Option.map_eq_some_iff.mp hout
  have hbelow : ¬parent ++ [⟨lastPart outDir, hname⟩] <+: parent := fun h => by
    have hle := h.length_le
    rw [List.length_append, List.length_singleton] at hle
    omega
  have hne : ∀ hcomp, (⟨tempName (stagingPattern (lastPart outDir)) random.1, hcomp⟩ : Component) ≠
      ⟨lastPart outDir, hname⟩ := by
    intro hcomp h
    have hval : tempName (stagingPattern (lastPart outDir)) random.1 = lastPart outDir :=
      congrArg Subtype.val h
    have hlen := length_tempName (stagingPattern (lastPart outDir)) random.1
    rw [hval, length_stagingPattern] at hlen
    omega
  refine .attempt .query (fun _ => .throw fun _ h => h) fun e => ?_
  split
  · contradiction
  · rw [hparent]
    refine .bind (.mapError (Sys.keeps_mkdirAll hbelow)) fun _ => ?_
    rw [baseName_of_lastPart hname]
    refine .bind (.mapError (ensures_mkdirTemp fun hcomp h => hne hcomp ?_)) fun staging => .of_and ?_
    · simpa using h
    · rintro ⟨hcomp, rfl⟩
      refine .attempt (ensures_extract (by simp) fun p => not_prefix_of_ne (hne hcomp))
        (fun entries => ?_) fun e => keeps_abandon
      exact .of_and fun hitems => .attempt ensures_renameTo
        (fun _ => .pure fun _ hstraight => ⟨hitems, hstraight⟩) fun e => keeps_abandon
  · exact .throw fun _ h => h

end Absent
end Dhow.Host
