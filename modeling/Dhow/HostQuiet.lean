import Dhow.HostReceive

/-!
# Calls that do not fail

Where no system call fails, the commands call by call do what the model without calls says.
-/

namespace Dhow.Host
open Bytes FileSystem

section Extraction
variable {umask : UInt32} {fs fs' : FileTree} {dest : Path Component} {data : Str}
  {entries : List Pack.Entry}

lemma runs_writeFile {e : Pack.Entry} {body : Str}
    (h : Pack.writeFile umask fs dest e body = .ok fs') :
    Sys.Runs (writeFile umask dest e body) ⟨fs, []⟩ () ⟨fs', []⟩ := by
  unfold Pack.writeFile at h
  unfold writeFile
  cases hj : join dest e.name with
  | none => simp [hj] at h
  | some target =>
    simp only [hj] at h ⊢
    split_ifs at h ⊢ with htarget
    cases hmk : fs.mkdirAll target.dropLast with
    | error e => simp [hmk] at h
    | ok fs₁ =>
      simp only [hmk] at h
      cases hc : fs₁.create target ⟨body, Pack.fileMode e.executable &&& ~~~umask⟩ with
      | error e => simp [hc] at h
      | ok fs₂ =>
        simp only [hc, Except.ok.injEq] at h
        subst h
        obtain ⟨fs₃, hc', hmod⟩ := Fs.create_modify (g := fun f : File => { f with content := body })
          (f := ⟨[], Pack.fileMode e.executable &&& ~~~umask⟩) hc
        exact .bind (.mapError (.mkdirAll hmk)) (.bind (.mapError (.change hc'))
          (.bind (.mapError (.update (by rw [hmod]))) (.mapError .settle)))

lemma runs_extractFrom {left offset total : ℕ}
    (h : Pack.extractFrom umask data dest left offset total fs = (.ok entries, fs')) :
    Sys.Runs (extractFrom umask data dest left offset total) ⟨fs, []⟩ entries ⟨fs', []⟩ := by
  induction left generalizing offset total fs entries with
  | zero =>
    cases h
    exact .pure
  | succ left ih =>
    rw [Pack.extractFrom] at h
    rw [extractFrom]
    cases hr : Pack.readEntry data offset with
    | error e => simp [hr] at h
    | ok r =>
      simp only [hr] at h ⊢
      split_ifs at h ⊢ with htotal
      · cases h
      · cases hw : Pack.writeFile umask fs dest r.1 (slice data r.2 r.1.size) with
        | error e => simp [hw] at h
        | ok fs₁ =>
          simp only [hw] at h
          cases hx : Pack.extractFrom umask data dest left (r.2 + r.1.size) (total + r.1.size)
            fs₁ with
          | mk result fs₂ =>
            cases result with
            | error e => simp [hx] at h
            | ok rest =>
              simp only [hx, Prod.mk.injEq, Except.ok.injEq] at h
              obtain ⟨rfl, rfl⟩ := h
              exact .bind (runs_writeFile hw) (.bind (ih hx) .pure)

lemma runs_extract (h : Pack.extract umask fs data dest = (.ok entries, fs')) :
    Sys.Runs (extract umask data dest) ⟨fs, []⟩ entries ⟨fs', []⟩ := by
  unfold Pack.extract at h
  unfold extract
  dsimp only at h ⊢
  split_ifs at h ⊢
  all_goals try cases h
  cases hmk : fs.mkdirAll dest with
  | error e => simp [hmk] at h
  | ok fs₁ =>
    simp only [hmk] at h
    exact .bind (.mapError (.mkdirAll hmk)) (runs_extractFrom h)

/-- Where no call fails and all directories on the way are there once the parent is made, a
destination that ends in a name is extracted into as the model without calls says. -/
theorem runs_extractAtomically {random : Component} {cwd dst : Path Component}
    {payload outDir : Str} {out : FileTree} {way : List (Path Component)}
    (hlast : IsComponent (lastPart outDir)) (hway : wayTo cwd outDir = some way)
    (hnamed : named cwd outDir = some dst)
    (hdirs : ∀ q ∈ way, q <+: dst.dropLast ∨ fs.lookup q = some .dir)
    (h : Dhow.extractAtomically umask random fs payload dst = (.ok entries, out)) :
    Sys.Runs (extractAtomically umask random cwd payload outDir) ⟨fs, []⟩ entries ⟨out, []⟩ := by
  obtain ⟨base, fs₁, fs₂, fs₃, hfree, hbase, hmk, hmkdir, hextract, hmove⟩ :=
    stages_of_extractAtomically h
  have hat := hnamed
  rw [named_of_lastPart hlast, Option.map_eq_some_iff] at hat
  obtain ⟨parent, hparent, rfl⟩ := hat
  rw [List.getLast?_concat, Option.some.injEq] at hbase
  subst hbase
  rw [List.dropLast_concat] at hdirs hmk hmkdir hextract hmove
  have hclear := Fs.eq_dir_of_mkdirAll hmk
  obtain ⟨r, hstat⟩ := stat_of_absent hway hnamed hfree fun q hq n hn => by
    rcases hdirs q hq with hpre | hdir
    · exact hclear q hpre n hn
    · rw [hdir, Option.some.injEq] at hn
      exact hn.symm
  have hruns : Sys.Runs (mkdirTemp parent (stagingPattern (lastPart outDir)) random) ⟨fs₁, []⟩
      (parent ++ [stagingName ⟨lastPart outDir, hlast⟩ random]) ⟨fs₂, []⟩ := by
    have hname : IsComponent (tempName (stagingPattern (lastPart outDir)) random.1) :=
      (stagingName ⟨lastPart outDir, hlast⟩ random).2
    rw [mkdirTemp, dif_pos hname]
    exact .bind (.change hmkdir) .pure
  -- What the way goes through is above the destination or was there before.
  have hthere : ∀ q ∈ way, fs₃.lookup q = some .dir := by
    intro q hq
    rcases hdirs q hq with ⟨rest, rfl⟩ | hdir
    · unfold Fs.rename at hmove
      split_ifs at hmove with hm
      have hd := hm.directory
      rw [List.dropLast_concat] at hd
      by_cases hrest : rest = []
      · rwa [hrest, List.append_nil] at hd
      · exact Fs.lookup_of_append hd hrest
    · have h₁ := Sys.stays_ensureDirs.of_run (Sys.Runs.mkdirAll hmk) hdir
      have h₂ := h₁.mkdir_fs hmkdir
      exact (keptBelow_stays q).extract.of_run (runs_extract hextract) h₂
  refine .bind (.query_error hstat) ?_
  rw [hparent, baseName_of_lastPart hlast]
  exact .bind (.mapError (.mkdirAll hmk)) (.bind (.mapError hruns) (.bind (.attempt
    (runs_extract hextract)) (.bind (.attempt (.change (renameTo_of_dirs hlast hway hthere hnamed
    hmove))) .pure)))

/-! ### A destination below the working directory -/

/-- The name of a path does not start with a slash. -/
lemma relName_ne {p : Path Component} (hp : p ≠ []) :
    relName p ≠ [] ∧ (relName p).head? ≠ some slash := by
  have hparts := splitOn_relName hp
  obtain ⟨c, rest, rfl⟩ := List.exists_cons_of_ne_nil hp
  cases hname : relName (c :: rest) with
  | nil =>
    rw [hname, List.splitOn_nil, List.map_cons, List.cons.injEq] at hparts
    exact absurd hparts.1.symm c.2.ne_nil
  | cons b name =>
    refine ⟨List.cons_ne_nil _ _, ?_⟩
    rw [List.head?_cons, ne_eq, Option.some.injEq]
    rintro rfl
    rw [hname, List.splitOn_cons_eq_if_modifyHead, if_pos (beq_self_eq_true _), List.map_cons,
      List.cons.injEq] at hparts
    exact absurd hparts.1.symm c.2.ne_nil

lemma startOf_relName {cwd p : Path Component} (hp : p ≠ []) : startOf cwd (relName p) = cwd :=
  if_neg (relName_ne hp).2

lemma named_relName {cwd p : Path Component} (hp : p ≠ []) :
    named cwd (relName p) = some (cwd ++ p) := by
  rw [named, if_neg (relName_ne hp).1, startOf_relName hp, join_relName]

lemma lastPart_relName {p : Path Component} {base : Component} :
    lastPart (relName (p ++ [base])) = base.1 := by
  rw [lastPart, splitOn_relName (by simp), List.map_append, List.map_singleton,
    List.getLast?_concat, Option.getD_some]

lemma exists_dirsAlong (base p : Path Component) :
    ∃ ps, dirsAlong base (p.map Subtype.val) = some ps ∧ ∀ q ∈ ps, q <+: base ++ p := by
  induction p generalizing base with
  | nil => exact ⟨[], rfl, by simp⟩
  | cons c p ih =>
    obtain ⟨ps, hps, hprefix⟩ := ih (base ++ [c])
    have hsplit : base ++ c :: p = base ++ [c] ++ p := by simp
    refine ⟨(base ++ [c]) :: ps, ?_, ?_⟩
    · rw [List.map_cons, dirsAlong, joinStep_component]
      simp only [hps, Option.map_some]
    · rw [hsplit]
      exact List.forall_mem_cons.mpr ⟨List.prefix_append _ _, hprefix⟩

/-- Where no call fails, a destination below the working directory is extracted into as the model
without calls says. -/
theorem runs_extractAtomically_relName {random : Component} {cwd p : Path Component}
    {payload : Str} {out : FileTree} (hp : p ≠ [])
    (h : Dhow.extractAtomically umask random fs payload (cwd ++ p) = (.ok entries, out)) :
    Sys.Runs (extractAtomically umask random cwd payload (relName p)) ⟨fs, []⟩ entries
      ⟨out, []⟩ := by
  obtain ⟨p, base, rfl⟩ : ∃ q base, p = q ++ [base] :=
    ⟨_, _, (List.dropLast_append_getLast hp).symm⟩
  obtain ⟨way, hway, hprefix⟩ := exists_dirsAlong cwd p
  refine runs_extractAtomically (lastPart_relName (p := p) ▸ base.2)
    (?_ : wayTo cwd (relName (p ++ [base])) = some way) (named_relName hp) (fun q hq => .inl ?_) h
  · rw [wayTo, splitOn_relName hp, List.map_append, List.map_singleton, List.dropLast_concat,
      startOf_relName hp, hway]
  · rw [← List.append_assoc, List.dropLast_concat]
    exact hprefix q hq

end Extraction

/-! ### The state directory -/

section State
variable {rq : RaptorQ} {b3 : Blake3} {fs fs₀ : FileTree}

/-- Where no file is in the way, the directories along a path are made. -/
lemma runs_ensureDirs {p : Path Component} {parts : List Str} {ps : List (Path Component)}
    (h : dirsAlong p parts = some ps) (hp : fs.lookup p = some .dir)
    (hclear : ∀ q ∈ ps, ∀ n, fs.lookup q = some n → n = .dir) :
    ∃ fs', Sys.Runs (Sys.ensureDirs ps : Os OsError Unit) ⟨fs, []⟩ () ⟨fs', []⟩ ∧
      ∀ q, fs'.lookup q = if q ∈ ps then some .dir else fs.lookup q := by
  induction parts generalizing p ps fs with
  | nil =>
    cases h
    exact ⟨fs, .pure, fun q => by simp⟩
  | cons part parts ih =>
    rw [dirsAlong] at h
    cases hstep : joinStep p part with
    | none => simp [hstep] at h
    | some p' =>
      simp only [hstep, Option.map_eq_some_iff] at h
      obtain ⟨qs, hqs, rfl⟩ := h
      obtain ⟨hp', hclear⟩ := List.forall_mem_cons.mp hclear
      obtain ⟨fs₁, hmk, hlook⟩ : ∃ fs₁, fs.ensureDir p' = .ok fs₁ ∧
          ∀ q, fs₁.lookup q = if q = p' then some .dir else fs.lookup q := by
        cases hl : fs.lookup p' with
        | some n =>
          refine ⟨fs, by rw [Fs.ensureDir, hl, hp' n hl], fun q => ?_⟩
          split_ifs with hq
          · rw [hq, hl, hp' n hl]
          · rfl
        | none =>
          -- Only a name that goes down leads to where nothing is.
          have hparent : fs.lookup p'.dropLast = some .dir := by
            unfold joinStep at hstep
            split_ifs at hstep
            · cases hstep
              rw [hp] at hl
              cases hl
            · cases hstep
              rw [Fs.dropLast_of_lookup hp] at hl
              cases hl
            · cases hstep
              rwa [List.dropLast_concat]
          exact ⟨_, by rw [Fs.ensureDir, hl]; exact Fs.mkdir_eq hl hparent,
            Fs.lookup_insert fs p' .dir hl hparent⟩
      obtain ⟨fs', hruns, hlook'⟩ := ih hqs (by rw [hlook, if_pos rfl]) fun q hq n hn => by
        rw [hlook] at hn
        split_ifs at hn with heq
        · exact (Option.some.inj hn).symm
        · exact hclear q hq n hn
      refine ⟨fs', .bind (.change hmk) hruns, fun q => ?_⟩
      rw [hlook', hlook]
      by_cases hq : q ∈ qs
      · simp [hq]
      · simp [hq]

/-- A store in use. But for its journal and its state the file system is `fs₀`. -/
structure Store.Kept (s : Store) (fs₀ fs : FileTree) : Prop where
  isOpen : s.journalOpen = true
  directory : fs₀.lookup s.dir = some .dir
  free : ∀ name ∈ [journalName, stateName, tmpName], fs₀.lookup (s.dir ++ [name]) = none
  journal : ∃ f, fs.lookup s.journal = some (.file f)
  state : ∀ n, fs.lookup (s.dir ++ [stateName]) = some n → ∃ f, n = .file f
  elsewhere : ∀ q, q ≠ s.journal → q ≠ s.dir ++ [stateName] → fs.lookup q = fs₀.lookup q

lemma names_ne : journalName ≠ stateName ∧ journalName ≠ tmpName ∧ tmpName ≠ stateName := by
  decide +kernel

lemma Store.Kept.modify {s : Store} (h : s.Kept fs₀ fs) (g : File → File) {s' : Store}
    (hdir : s'.dir = s.dir) (hopen : s'.journalOpen = true) :
    s'.Kept fs₀ (fs.modify s.journal g) := by
  have hjournal : s'.journal = s.journal := by rw [Store.journal, hdir, Store.journal]
  obtain ⟨f, hf⟩ := h.journal
  refine ⟨hopen, hdir ▸ h.directory, hdir ▸ h.free, ⟨g f, ?_⟩, fun n hn => ?_, fun q hq hq' => ?_⟩
  · rw [hjournal, Fs.lookup_modify, hf]
    simp [Node.map]
  · have hne : s.dir ++ [stateName] ≠ s.journal := by
      rw [Store.journal]
      simpa using names_ne.1.symm
    rw [hdir, Fs.lookup_modify] at hn
    simp only [if_neg hne, Option.map_id'] at hn
    exact h.state n hn
  · rw [hjournal] at hq
    rw [hdir] at hq'
    rw [Fs.lookup_modify, ← h.elsewhere q hq hq']
    simp [hq]

lemma Store.Kept.lookup_dir {s : Store} (h : s.Kept fs₀ fs) : fs.lookup s.dir = some .dir := by
  rw [h.elsewhere s.dir (by simp [Store.journal]) (by simp), h.directory]

lemma Store.Kept.lookup_tmp {s : Store} (h : s.Kept fs₀ fs) :
    fs.lookup (s.dir ++ [tmpName]) = none := by
  rw [h.elsewhere _ (by simpa [Store.journal] using names_ne.2.1.symm)
    (by simpa using names_ne.2.2), h.free _ (by simp)]

lemma Store.Kept.runs_append {s : Store} (h : s.Kept fs₀ fs) {frame : Str}
    (hfits : FitsJournal frame) : ∃ s' fs', Sys.Runs (s.append frame) ⟨fs, []⟩ s' ⟨fs', []⟩ ∧
      s'.dir = s.dir ∧ s'.Kept fs₀ fs' := by
  refine ⟨{ s with written := s.written + UInt64.ofNat (journalRecord frame).length }, _, ?_, rfl,
    h.modify (fun f => { f with content := f.content ++ journalRecord frame }) rfl h.isOpen⟩
  have hrefused : ¬(frame = [] ∨ maxRecord < frame.length) :=
    not_or.mpr ⟨hfits.1, Nat.not_lt.mpr hfits.2⟩
  rw [Store.append, h.isOpen, if_neg (by simp), if_neg hrefused]
  exact .bind (.mapError (.update rfl)) .pure

/-- A save makes the state, and its temporary file is no more. -/
lemma Store.Kept.runs_save {s : Store} (h : s.Kept fs₀ fs) {state : Str} (hne : state ≠ []) :
    ∃ s' fs', Sys.Runs (s.save state) ⟨fs, []⟩ s' ⟨fs', []⟩ ∧ s'.dir = s.dir ∧ s'.Kept fs₀ fs' ∧
      ∃ f, fs'.lookup (s.dir ++ [stateName]) = some (.file f) := by
  have htmp : s.dir ++ [tmpName] ≠ s.dir ++ [stateName] := by simpa using names_ne.2.2
  obtain ⟨fs₁, g, hopen, hlook₁⟩ := Fs.ensureFile_spec (⟨[], 0o600 &&& ~~~s.umask⟩ : File)
    (by rw [List.dropLast_concat, h.lookup_dir]) (p := s.dir ++ [tmpName]) fun n hn => by
      rw [h.lookup_tmp] at hn
      cases hn
  have hlook₂ : ∀ q, (fs₁.modify (s.dir ++ [tmpName]) fun f => { f with content := state }).lookup q =
      if q = s.dir ++ [tmpName] then some (.file ⟨state, g.mode⟩) else fs.lookup q := by
    intro q
    rw [Fs.lookup_modify, hlook₁]
    split_ifs with hq
    · simp [Node.map]
    · simp
  have hwritten := hlook₂ (s.dir ++ [tmpName])
  rw [if_pos rfl] at hwritten
  obtain ⟨fs₃, hreplace, hlook₃⟩ := Fs.replace_spec hwritten htmp
    (by rw [hlook₂, List.dropLast_concat, if_neg (by simp), h.lookup_dir]) fun n hn => by
      rw [hlook₂, if_neg htmp.symm] at hn
      exact h.state n hn
  have hstate : fs₃.lookup (s.dir ++ [stateName]) = some (.file ⟨state, g.mode⟩) := by
    rw [hlook₃, if_neg, if_pos rfl]
    exact fun hpre => htmp (hpre.eq_of_length (by simp))
  refine ⟨{ s with state := state }, fs₃, ?_, rfl, ⟨h.isOpen, h.directory, h.free, ?_, fun n hn => ?_,
    fun q hq hq' => ?_⟩, _, hstate⟩
  · rw [Store.save, if_neg hne]
    have hsettle : Sys.Runs s.settleJournal ⟨fs, []⟩ () ⟨fs, []⟩ := by
      rw [Store.settleJournal, h.isOpen]
      exact .mapError .settle
    exact .bind hsettle (.bind (.mapError (.change hopen)) (.bind (.mapError (.update rfl))
      (.bind (.mapError .settle) (.bind (.mapError .settle) (.bind (.mapError (.change hreplace))
      .pure)))))
  · obtain ⟨f, hf⟩ := h.journal
    have hj : ¬s.dir ++ [tmpName] <+: s.dir ++ [journalName] := fun hpre =>
      names_ne.2.1.symm (by simpa using hpre.eq_of_length (by simp))
    refine ⟨f, ?_⟩
    change fs₃.lookup (s.dir ++ [journalName]) = _
    rw [hlook₃, if_neg hj, if_neg (by simpa using names_ne.1), hlook₂,
      if_neg (by simpa using names_ne.2.1)]
    exact hf
  · change fs₃.lookup (s.dir ++ [stateName]) = some n at hn
    rw [hstate, Option.some.injEq] at hn
    exact ⟨_, hn.symm⟩
  · change q ≠ s.dir ++ [stateName] at hq'
    rw [hlook₃, if_neg hq', hlook₂]
    split_ifs with hpre hqt
    · obtain ⟨rest, rfl⟩ := hpre
      exact (Fs.lookup_append_of_none (h.free _ (by simp)) rest).symm
    · exact absurd (hqt ▸ List.prefix_rfl) hpre
    · exact h.elsewhere q hq hq'

/-- A state directory that can be made: no file is in the way of it, and nothing where its files
go. -/
structure StateFree (cwd : Path Component) (dir : Str) (dirs : List (Path Component))
    (path : Path Component) (fs : FileTree) : Prop where
  dirs_eq : dirsAlong (startOf cwd dir) (dir.splitOn slash) = some dirs
  path_eq : named cwd dir = some path
  start : fs.lookup (startOf cwd dir) = some .dir
  clear : ∀ q ∈ dirs, ∀ n, fs.lookup q = some n → n = .dir
  free : ∀ name ∈ [journalName, stateName, tmpName],
    path ++ [name] ∉ dirs ∧ fs.lookup (path ++ [name]) = none

variable {cwd path : Path Component} {dir : Str} {dirs : List (Path Component)}

lemma StateFree.path_mem (h : StateFree cwd dir dirs path fs) : path ∈ dirs := by
  have hne : dir ≠ [] := by
    rintro rfl
    cases h.path_eq
  have hpath := h.path_eq
  rw [named, if_neg hne, join, foldlM_joinStep_eq, h.dirs_eq, Option.map_some,
    Option.some.injEq] at hpath
  have hdirs : dirs ≠ [] := by
    rintro rfl
    have hsplit := h.dirs_eq
    cases hparts : dir.splitOn slash with
    | nil => exact List.splitOn_ne_nil slash dir hparts
    | cons part parts =>
      rw [hparts, dirsAlong] at hsplit
      cases hstep : joinStep (startOf cwd dir) part with
      | none => simp [hstep] at hsplit
      | some q => simp [hstep] at hsplit
  rw [← hpath, List.getLastD_eq_getLast?, List.getLast?_eq_getLast_of_ne_nil hdirs]
  exact List.getLast_mem hdirs

/-- A state directory that is not there yet is made, and begins with an empty journal. -/
lemma StateFree.runs_restoreProgress (h : StateFree cwd dir dirs path fs) (b3 : Blake3)
    (umask : UInt32) (sessionId : Arr 16) (d : PipelineDecoder rq) :
    ∃ s fs₀ fs₁, Sys.Runs (restoreProgress b3 umask cwd dir sessionId d) ⟨fs, []⟩ (some s, 0, d)
        ⟨fs₁, []⟩ ∧ s.dir = path ∧ s.Kept fs₀ fs₁ ∧
      ∀ q, fs₀.lookup q = if q ∈ dirs then some .dir else fs.lookup q := by
  have hne : dir ≠ [] := by
    rintro rfl
    cases h.path_eq
  obtain ⟨fs₀, hdirs, hlook⟩ := runs_ensureDirs h.dirs_eq h.start h.clear
  have hpath : fs₀.lookup path = some .dir := by rw [hlook, if_pos h.path_mem]
  have hfree : ∀ name ∈ [journalName, stateName, tmpName], fs₀.lookup (path ++ [name]) = none :=
    fun name hname => by rw [hlook, if_neg (h.free name hname).1, (h.free name hname).2]
  have hopen : Sys.Runs (Store.openDir umask cwd dir) ⟨fs, []⟩ ⟨path, umask, [], false, 0⟩
      ⟨fs₀, []⟩ := by
    have hread : fs₀.read (path ++ [stateName]) = .error (.notExist (path ++ [stateName])) := by
      rw [Fs.read, hfree _ (by simp)]
    unfold Store.openDir
    rw [h.dirs_eq, h.path_eq]
    exact .bind hdirs (.bind (.query_error hread) .pure)
  obtain ⟨fs₁, f, hfile, hlook₁⟩ := Fs.ensureFile_spec (⟨[], 0o600 &&& ~~~umask⟩ : File)
    (by rw [List.dropLast_concat, hpath]) (p := path ++ [journalName]) fun n hn => by
      rw [hfree _ (by simp)] at hn
      cases hn
  have hkept : Store.Kept ⟨path, umask, [], true, 0⟩ fs₀ fs₁ := by
    refine ⟨rfl, hpath, hfree, ⟨f, by rw [Store.journal, hlook₁, if_pos rfl]⟩, fun n hn => ?_,
      fun q hq _ => (hlook₁ q).trans (if_neg hq)⟩
    rw [hlook₁, if_neg (by simpa using names_ne.1.symm), hfree _ (by simp)] at hn
    cases hn
  refine ⟨⟨path, umask, [], true, 0⟩, fs₀, _, ?_, rfl,
    hkept.modify (fun f => { f with content := truncate f.content (0 : UInt64).toNat }) rfl rfl, hlook⟩
  rw [restoreProgress, if_neg hne]
  refine .bind (.mapError hopen) ?_
  rw [if_pos rfl]
  exact .bind (.mapError (.bind (.mapError (.change hfile)) (.bind (.mapError (.update rfl))
    (.bind (.mapError .settle) .pure)))) .pure

/-- A sink that runs on, whose store is in use if it has one. -/
structure FrameSink.Kept (sink : FrameSink rq) (dir : Option (Path Component))
    (fs₀ fs : FileTree) : Prop where
  dir_eq : sink.store.map Store.dir = dir
  same : sink.store = none → fs = fs₀
  store : ∀ s, sink.store = some s → s.Kept fs₀ fs
  stopAfter_eq : sink.stopAfter = 0

variable {dir? : Option (Path Component)}

lemma FrameSink.Kept.of_store {sink : FrameSink rq} {s : Store} (hstore : sink.store = some s)
    (hdir : some s.dir = dir?) (hs : s.Kept fs₀ fs) (hstop : sink.stopAfter = 0) :
    sink.Kept dir? fs₀ fs := by
  refine ⟨by rw [hstore, ← hdir]; rfl, fun h => ?_, fun s' hs' => ?_, hstop⟩
  · rw [hstore] at h
    cases h
  · rw [hstore, Option.some.injEq] at hs'
    exact hs' ▸ hs

/-- An accepted frame is recorded. -/
lemma FrameSink.Kept.runs_record {sink : FrameSink rq} (h : sink.Kept dir? fs₀ fs) (b3 : Blake3)
    {frame : Str}
    (hfits : dir? ≠ none → FitsJournal frame) :
    ∃ sink' fs', Sys.Runs (sink.record b3 frame) ⟨fs, []⟩ sink' ⟨fs', []⟩ ∧
      sink'.Kept dir? fs₀ fs' ∧ sink'.dec = sink.dec := by
  unfold FrameSink.record
  cases hs : sink.store with
  | none => exact ⟨sink, fs, .pure, h, rfl⟩
  | some s =>
    have hdir : some s.dir = dir? := by
      rw [← h.dir_eq, hs]
      rfl
    have hsome : dir? ≠ none := hdir ▸ Option.some_ne_none _
    obtain ⟨s₁, fs₁, happend, hdir₁, hkept₁⟩ := (h.store s hs).runs_append (hfits hsome)
    by_cases hdue : sink.accepted % sink.saveEvery = 0
    · obtain ⟨s₂, fs₂, hsave, hdir₂, hkept₂, -⟩ := hkept₁.runs_save
        (ResumeFile.toVec_ne_nil (sink.dec.resumeState b3 s₁.written))
      refine ⟨{ sink with store := some s₂ }, fs₂, .bind (.mapError happend) ?_,
        .of_store rfl (by rw [hdir₂, hdir₁, hdir]) hkept₂ h.stopAfter_eq, rfl⟩
      rw [if_pos hdue]
      exact .bind (.mapError hsave) .pure
    · refine ⟨{ sink with store := some s₁ }, fs₁, .bind (.mapError happend) ?_,
        .of_store rfl (by rw [hdir₁, hdir]) hkept₁ h.stopAfter_eq, rfl⟩
      rw [if_neg hdue]
      exact .pure

/-- A frame that is offered to a sink without an end of its own goes to the decoder. -/
lemma FrameSink.Kept.runs_apply {sink : FrameSink rq} (h : sink.Kept dir? fs₀ fs) (b3 : Blake3)
    {frame : Str}
    (hfits : dir? ≠ none → FitsJournal frame) :
    ∃ verdict sink' fs', Sys.Runs (sink.apply b3 frame) ⟨fs, []⟩ (verdict, sink') ⟨fs', []⟩ ∧
      verdict ≠ .stop ∧ sink'.Kept dir? fs₀ fs' ∧
      sink'.dec = (decoderAccept b3 sink.dec frame).2 := by
  unfold FrameSink.apply
  split
  next dec hdec =>
    have hcounted : FrameSink.Kept { sink with dec := dec, accepted := sink.accepted + 1 } dir? fs₀ fs :=
      ⟨h.dir_eq, h.same, h.store, h.stopAfter_eq⟩
    obtain ⟨sink', fs', hrecord, hkept, hdec'⟩ := hcounted.runs_record b3 hfits
    have hno : ¬(0 < sink'.stopAfter ∧ sink'.stopAfter ≤ sink'.accepted) := by
      simp [hkept.stopAfter_eq]
    refine ⟨.accepted, sink', fs', .bind hrecord ?_, by simp, hkept, by rw [hdec', hdec]⟩
    rw [if_neg hno]
    exact .pure
  next dec _ hdec =>
    exact ⟨.refused, _, fs, .pure, by simp, ⟨h.dir_eq, h.same, h.store, h.stopAfter_eq⟩,
      by rw [hdec]⟩

/-- The loop without an end of its own hands every frame to the decoder. -/
lemma FrameSink.Kept.runs_deliver {sink : FrameSink rq} (h : sink.Kept dir? fs₀ fs) (b3 : Blake3)
    {frames : List Str} (hfits : dir? ≠ none → ∀ frame ∈ frames, FitsJournal frame) :
    ∃ sink' fs', Sys.Runs (deliver b3 none sink frames) ⟨fs, []⟩ (false, sink') ⟨fs', []⟩ ∧
      sink'.Kept dir? fs₀ fs' ∧
      sink'.dec = frames.foldl (fun dec frame => (decoderAccept b3 dec frame).2) sink.dec := by
  induction frames generalizing sink fs with
  | nil => exact ⟨sink, fs, .pure, h, rfl⟩
  | cons frame frames ih =>
    obtain ⟨verdict, sink₁, fs₁, happly, hverdict, hkept₁, hdec₁⟩ :=
      h.runs_apply b3 fun hdir => hfits hdir frame (by simp)
    obtain ⟨sink', fs', hruns, hkept, hdec⟩ := ih hkept₁ fun hdir frame' hmem =>
      hfits hdir frame' (List.mem_cons_of_mem _ hmem)
    refine ⟨sink', fs', ?_, hkept, by rw [List.foldl_cons, ← hdec₁, hdec]⟩
    refine .bind (.mapError .settle) (.bind (.mapError happly) ?_)
    simp only [hverdict, if_false, Option.map_none]
    exact hruns

/-- The progress of a sink is saved. -/
lemma FrameSink.Kept.runs_saveSink {sink : FrameSink rq} (h : sink.Kept dir? fs₀ fs) (b3 : Blake3) :
    ∃ fs', Sys.Runs (saveSink b3 sink) ⟨fs, []⟩ () ⟨fs', []⟩ ∧ (dir? = none → fs' = fs₀) ∧
      ∀ path, dir? = some path →
        (∀ name ∈ [journalName, stateName], ∃ f, fs'.lookup (path ++ [name]) = some (.file f)) ∧
        ∀ q, (∀ name ∈ [journalName, stateName], q ≠ path ++ [name]) →
          fs'.lookup q = fs₀.lookup q := by
  unfold saveSink
  cases hs : sink.store with
  | none =>
    have hdir : dir? = none := by rw [← h.dir_eq, hs, Option.map_none]
    refine ⟨fs, .pure, fun _ => h.same hs, fun path hpath => ?_⟩
    rw [hdir] at hpath
    cases hpath
  | some s =>
    have hdir : some s.dir = dir? := by
      rw [← h.dir_eq, hs]
      rfl
    obtain ⟨s', fs', hsave, hdir', hkept, hstate⟩ := (h.store s hs).runs_save
      (ResumeFile.toVec_ne_nil (sink.dec.resumeState b3 s.written))
    refine ⟨fs', .bind (.mapError (.mapError hsave)) .pure, fun hnone => ?_, fun path hpath => ?_⟩
    · rw [← hdir] at hnone
      cases hnone
    · rw [← hdir, Option.some.injEq] at hpath
      subst hpath
      have hjournal := hkept.journal
      have helsewhere := hkept.elsewhere
      rw [Store.journal, hdir'] at hjournal
      simp only [Store.journal, hdir'] at helsewhere
      refine ⟨by simpa using ⟨hjournal, hstate⟩, fun q hq => ?_⟩
      exact helsewhere q (hq _ (by simp)) (hq _ (by simp))

end State

/-! ### The receiving command -/

section Receive
variable {ed : Ed25519} {b3 : Blake3} {aead : Aead} {rq : RaptorQ} {fs out : FileTree}
  {manifest : Str} {frames : List Str}

/-- The command as the model without calls has it: no state directory, all frames from files, and
a destination below the working directory. -/
structure Command.Plain (c : Command ed) (frames : List Str) (p : Path Component) : Prop where
  stateDir_eq : c.stateDir = []
  stopAfter_eq : c.stopAfter = 0
  interrupt_eq : c.interrupt = none
  source_eq : c.source = .files frames
  outDir_eq : c.outDir = relName p
  ne_nil : p ≠ []

/-- What is left of the state directory when all frames are in: nothing without one, and else its
directories, the journal and the state. -/
structure Command.StateLeft (c : Command ed) (fs fs₁ : FileTree) : Prop where
  same : c.stateDir = [] → fs₁ = fs
  made : ∀ dirs path, StateFree c.cwd c.stateDir dirs path fs →
    (∀ name ∈ [journalName, stateName], ∃ f, fs₁.lookup (path ++ [name]) = some (.file f)) ∧
      ∀ q, (∀ name ∈ [journalName, stateName], q ≠ path ++ [name]) →
        fs₁.lookup q = if q ∈ dirs then some .dir else fs.lookup q

variable (b3) in
/-- With a state directory to be made or without one, the sink is kept where the command starts to
receive. -/
lemma exists_restored {c : Command ed} (sessionId : Arr 16) (dec : PipelineDecoder rq)
    (hstop : c.stopAfter = 0)
    (hstate : c.stateDir ≠ [] → ∃ dirs path, StateFree c.cwd c.stateDir dirs path fs) :
    ∃ (store : Option Store) (dir? : Option (Path Component)) (fs₀ fs' : FileTree),
      Sys.Runs (restoreProgress b3 c.umask c.cwd c.stateDir sessionId dec) ⟨fs, []⟩
        (store, 0, dec) ⟨fs', []⟩ ∧
      FrameSink.Kept ⟨dec, store, c.saveEvery, c.stopAfter, 0, 0, c.saveEvery_pos⟩ dir? fs₀ fs' ∧
      (c.stateDir = [] → dir? = none ∧ fs₀ = fs) ∧
      ∀ dirs path, StateFree c.cwd c.stateDir dirs path fs → dir? = some path ∧
        ∀ q, fs₀.lookup q = if q ∈ dirs then some .dir else fs.lookup q := by
  by_cases hdir : c.stateDir = []
  · refine ⟨none, none, fs, fs, ?_, ⟨rfl, fun _ => rfl, by simp, hstop⟩, fun _ => ⟨rfl, rfl⟩,
      fun dirs path h => ?_⟩
    · rw [restoreProgress, if_pos hdir]
      exact .pure
    · have hpath := h.path_eq
      rw [hdir] at hpath
      cases hpath
  · obtain ⟨dirs, path, hfree⟩ := hstate hdir
    obtain ⟨s, fs₀, fs', hrestore, hpath, hkept, hlook⟩ :=
      hfree.runs_restoreProgress b3 c.umask sessionId dec
    refine ⟨some s, some path, fs₀, fs', hrestore, .of_store rfl (by rw [hpath]) hkept hstop,
      fun h => absurd h hdir, fun dirs' path' h => ?_⟩
    have hdirs := h.dirs_eq
    have hnamed := h.path_eq
    rw [hfree.dirs_eq, Option.some.injEq] at hdirs
    rw [hfree.path_eq] at hnamed
    exact ⟨hnamed, hdirs ▸ hlook⟩

variable (aead fs) in
/-- Where no call fails and the state directory, if there is to be one, can be made, the command goes
on from what the decoder holds once the frames are in. -/
lemma runRecv_of_frames {c : Command ed} {transfer : Transfer} {dec : PipelineDecoder rq}
    (hstart : startReceiver ed b3 rq c.key c.signer manifest = .ok (transfer, dec))
    (hreceive : ∀ sink : FrameSink rq,
      receive b3 c.interrupt sink c.source = deliver b3 none sink frames)
    (hstop : c.stopAfter = 0)
    (hstate : c.stateDir ≠ [] → ∃ dirs path, StateFree c.cwd c.stateDir dirs path fs)
    (hfits : c.stateDir ≠ [] → ∀ frame ∈ frames, FitsJournal frame) :
    ∃ (sink : FrameSink rq) (fs₁ : FileTree),
      sink.dec = frames.foldl (fun dec frame => (decoderAccept b3 dec frame).2) dec ∧
      (c.stateDir = [] → sink.store = none) ∧ c.StateLeft fs fs₁ ∧
      runRecv b3 aead rq c manifest ⟨fs, []⟩ = (do
        let payload ← Sys.lift (finish b3 aead c.key transfer sink.dec)
        let entries ← Sys.mapError .extraction
          (extractAtomically c.umask c.random c.cwd payload c.outDir)
        match reconcile entries transfer.inventory with
        | .error e => Sys.throw (.reconciling e)
        | .ok () => do
          clear c.keepState sink.store
          pure entries) ⟨fs₁, []⟩ := by
  obtain ⟨store, dir?, fs₀, fs', hrestore, hkept, hnone, hsome⟩ :=
    exists_restored b3 transfer.sessionId dec hstop hstate
  have hdir : dir? ≠ none → c.stateDir ≠ [] := fun h hnil => h (hnone hnil).1
  obtain ⟨sink, fs₂, hdeliver, hkept₂, hdec⟩ := hkept.runs_deliver b3 fun h => hfits (hdir h)
  obtain ⟨fs₁, hsave, hsame, hleft⟩ := hkept₂.runs_saveSink b3
  refine ⟨sink, fs₁, hdec, fun hnil => ?_, ⟨fun hnil => ?_, fun dirs path h => ?_⟩, ?_⟩
  · have hmap := hkept₂.dir_eq
    rw [(hnone hnil).1] at hmap
    exact Option.map_eq_none_iff.mp hmap
  · rw [hsame (hnone hnil).1, (hnone hnil).2]
  · obtain ⟨hpath, hlook⟩ := hsome dirs path h
    obtain ⟨hfiles, helsewhere⟩ := hleft path hpath
    exact ⟨hfiles, fun q hq => (helsewhere q hq).trans (hlook q)⟩
  · rw [runRecv, Sys.bind_of_runs (.mapError .settle), hstart]
    dsimp only
    rw [Sys.bind_of_runs (.mapError hrestore)]
    dsimp only
    rw [hreceive]
    exact (Sys.bind_of_runs hdeliver).trans (Sys.bind_of_runs hsave)

/-- Where no call fails, a command that comes to the comparison ends as the comparison does. -/
lemma runRecv_of_extracted {c : Command ed} {p : Path Component} (hc : c.Plain frames p)
    {transfer : Transfer} {dec dec' : PipelineDecoder rq} {payload : Str}
    {entries : List Pack.Entry}
    (hstart : startReceiver ed b3 rq c.key c.signer manifest = .ok (transfer, dec))
    (hframes : receiveFromFrames b3 dec frames = .ok dec') (hcomplete : dec'.isComplete = true)
    (hfinish : dhowDecoderFinish b3 aead dec' c.key transfer.sessionId transfer.salt
      transfer.nonce = .ok payload)
    (hextract : Dhow.extractAtomically c.umask c.random fs payload (c.cwd ++ p) =
      (.ok entries, out)) :
    runRecv b3 aead rq c manifest ⟨fs, []⟩ =
      match reconcile entries transfer.inventory with
      | .error e => (.error (.reconciling e), ⟨out, []⟩)
      | .ok () => (.ok entries, ⟨out, []⟩) := by
  have hne : frames ≠ [] := by
    rintro rfl
    cases hframes
  rw [receiveFromFrames, if_neg hne, Except.ok.injEq] at hframes
  have hreceive : ∀ sink : FrameSink rq,
      receive b3 c.interrupt sink c.source = deliver b3 none sink frames := by
    obtain ⟨frame, rest, rfl⟩ := List.exists_cons_of_ne_nil hne
    intro sink
    rw [hc.source_eq, hc.interrupt_eq]
    rfl
  obtain ⟨sink, fs₁, hdec, hstore, hleft, hrun⟩ := runRecv_of_frames aead fs hstart hreceive
    hc.stopAfter_eq (absurd hc.stateDir_eq) (absurd hc.stateDir_eq)
  obtain rfl := hleft.same hc.stateDir_eq
  have hpayload : finish b3 aead c.key transfer sink.dec = .ok payload := by
    rw [hdec, hframes, finish, hcomplete, hfinish]
    rfl
  have hextracted := runs_extractAtomically_relName hc.ne_nil hextract
  rw [← hc.outDir_eq] at hextracted
  have hlift : Sys.Runs (Sys.lift (finish b3 aead c.key transfer sink.dec)) ⟨fs₁, []⟩ payload
      ⟨fs₁, []⟩ := by
    rw [Sys.Runs, Sys.lift, hpayload]
  rw [hrun, Sys.bind_of_runs hlift, Sys.bind_of_runs (.mapError hextracted),
    hstore hc.stateDir_eq]
  cases reconcile entries transfer.inventory with
  | error e => rfl
  | ok _ => rfl

/-- Only the comparison fails as the comparison does. -/
def BeforeComparison (e : ReceiveError) : Prop := ∀ e', e ≠ .reconciling e'

lemma startReceiver_eq_error {key : Arr 32} {signer : ed.PublicIdentity} {e : ReceiveError}
    (h : startReceiver ed b3 rq key signer manifest = .error e) : BeforeComparison e := by
  intro e'
  unfold startReceiver readManifest at h
  grind

lemma receiveFromFrames_eq_error {dec : PipelineDecoder rq} {e : ReceiveError}
    (h : receiveFromFrames b3 dec frames = .error e) : BeforeComparison e := by
  intro e'
  unfold receiveFromFrames at h
  grind

lemma extractAtomically_eq_error {umask : UInt32} {random : Component} {payload : Str}
    {outDir : Path Component} {e : ReceiveError}
    (h : Dhow.extractAtomically umask random fs payload outDir = (.error e, out)) :
    BeforeComparison e := by
  intro e'
  unfold Dhow.extractAtomically at h
  dsimp only at h
  repeat' split at h
  all_goals cases h <;> simp

/-- The stages of a command that comes to the comparison. -/
lemma stages_of_runRecv {r : Receiver ed} {outDir : Path Component}
    {result : Except ReceiveError (List Pack.Entry)}
    (h : Dhow.runRecv b3 aead rq r manifest frames fs outDir = (result, out))
    (hdone : ∀ e, result = .error e → ∃ e', e = .reconciling e') :
    ∃ transfer dec dec' payload entries,
      startReceiver ed b3 rq r.key r.signer manifest = .ok (transfer, dec) ∧
      receiveFromFrames b3 dec frames = .ok dec' ∧ dec'.isComplete = true ∧
      dhowDecoderFinish b3 aead dec' r.key transfer.sessionId transfer.salt transfer.nonce =
        .ok payload ∧
      Dhow.extractAtomically r.umask r.random fs payload outDir = (.ok entries, out) ∧
      result = match reconcile entries transfer.inventory with
        | .error e => .error (.reconciling e)
        | .ok () => .ok entries := by
  have hbefore : ∀ e, BeforeComparison e → result ≠ .error e := by
    intro e he hresult
    obtain ⟨e', rfl⟩ := hdone e hresult
    exact he e' rfl
  unfold Dhow.runRecv at h
  cases hstart : startReceiver ed b3 rq r.key r.signer manifest with
  | error e =>
    simp only [hstart, Prod.mk.injEq] at h
    exact absurd h.1.symm (hbefore e (startReceiver_eq_error hstart))
  | ok started =>
    simp only [hstart] at h
    cases hframes : receiveFromFrames b3 started.2 frames with
    | error e =>
      simp only [hframes, Prod.mk.injEq] at h
      exact absurd h.1.symm (hbefore e (receiveFromFrames_eq_error hframes))
    | ok dec' =>
      simp only [hframes] at h
      split_ifs at h with hcomplete
      · rw [Prod.mk.injEq] at h
        exact absurd h.1.symm (hbefore _ nofun)
      · cases hfinish : dhowDecoderFinish b3 aead dec' r.key started.1.sessionId started.1.salt
          started.1.nonce with
        | error e =>
          simp only [hfinish, Prod.mk.injEq] at h
          exact absurd h.1.symm (hbefore _ nofun)
        | ok payload =>
          simp only [hfinish] at h
          cases hextract : Dhow.extractAtomically r.umask r.random fs payload outDir with
          | mk extracted fs' =>
            cases extracted with
            | error e =>
              simp only [hextract, Prod.mk.injEq] at h
              exact absurd h.1.symm (hbefore e (extractAtomically_eq_error hextract))
            | ok entries =>
              simp only [hextract] at h
              refine ⟨started.1, started.2, dec', payload, entries, rfl, hframes,
                by simpa using hcomplete, hfinish, ?_, ?_⟩
              · cases hr : reconcile entries started.1.inventory <;>
                  simp only [hr, Prod.mk.injEq] at h <;> rw [hextract, h.2]
              · cases hr : reconcile entries started.1.inventory <;>
                  simp only [hr, Prod.mk.injEq] at h <;> exact h.1.symm

/-- Where no call fails, a command that receives a dataset does so call by call. -/
theorem runRecv_of_ok {c : Command ed} {p : Path Component} (hc : c.Plain frames p)
    {entries : List Pack.Entry}
    (h : Dhow.runRecv b3 aead rq c.toReceiver manifest frames fs (c.cwd ++ p) =
      (.ok entries, out)) : runRecv b3 aead rq c manifest ⟨fs, []⟩ = (.ok entries, ⟨out, []⟩) := by
  obtain ⟨transfer, dec, dec', payload, entries', hstart, hframes, hcomplete, hfinish, hextract,
    hresult⟩ := stages_of_runRecv h nofun
  rw [runRecv_of_extracted hc hstart hframes hcomplete hfinish hextract]
  cases hr : reconcile entries' transfer.inventory with
  | error e => simp [hr] at hresult
  | ok _ =>
    simp only [hr, Except.ok.injEq] at hresult
    rw [hresult]

/-- Where no call fails, a command whose comparison fails does so call by call. -/
theorem runRecv_of_reconciling {c : Command ed} {p : Path Component} (hc : c.Plain frames p)
    {e : ReconcileError}
    (h : Dhow.runRecv b3 aead rq c.toReceiver manifest frames fs (c.cwd ++ p) =
      (.error (.reconciling e), out)) :
    runRecv b3 aead rq c manifest ⟨fs, []⟩ = (.error (.reconciling e), ⟨out, []⟩) := by
  obtain ⟨transfer, dec, dec', payload, entries', hstart, hframes, hcomplete, hfinish, hextract,
    hresult⟩ := stages_of_runRecv h fun e' he' => ⟨e, (Except.error.inj he').symm⟩
  rw [runRecv_of_extracted hc hstart hframes hcomplete hfinish hextract]
  cases hr : reconcile entries' transfer.inventory with
  | ok _ => simp [hr] at hresult
  | error e' =>
    simp only [hr, Except.error.injEq, ReceiveError.reconciling.injEq] at hresult
    rw [hresult]

end Receive
end Dhow.Host
