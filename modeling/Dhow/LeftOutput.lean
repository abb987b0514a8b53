import Dhow.HostQuiet

/-!
# Output of a failed receive

Runs of the receiving command that fail and leave something at `-out`: because the state directory
makes it, because the destination ends in no name, or because the archive is not what the inventory
says.
-/

namespace Dhow.Host
open Bytes FileSystem

section LeftOutput
variable {ed : Ed25519} {b3 : Blake3} {aead : Aead} {rq : RaptorQ} {c : Command ed}
  {manifest payload : Str} {transfer : Transfer} {out : Path Component} {fs fs₁ : FileTree}

/-- Commands that receive the same from the same into the same directories, whatever comes over the
link. -/
structure Command.SameTask (c c' : Command ed) : Prop where
  key_eq : c'.key = c.key
  signer_eq : c'.signer = c.signer
  cwd_eq : c'.cwd = c.cwd
  outDir_eq : c'.outDir = c.outDir
  stateDir_eq : c'.stateDir = c.stateDir

/-- No failed receive leaves anything at `-out`, whatever comes over the link, whenever the operator
stops it and whatever system calls fail. -/
def Command.LeavesNothing (b3 : Blake3) (aead : Aead) (rq : RaptorQ) (c : Command ed)
    (manifest : Str) : Prop :=
  ∀ c', c.SameTask c' → ∀ w e w', w.fs.lookup c.cwd = some .dir → c.OutAbsent w.fs →
    runRecv b3 aead rq c' manifest w = (.error e, w') → e.Failed → c.OutAbsent w'.fs

/-- A state directory that can be used: where its files go is no directory by its own path or the
working directory, and `-out` as it is written does not lead through them. -/
def StateUsable (cwd : Path Component) (stateDir outDir : Str) : Prop :=
  ∃ dirs path, dirsAlong (startOf cwd stateDir) (stateDir.splitOn slash) = some dirs ∧
    named cwd stateDir = some path ∧ ∀ name ∈ [journalName, stateName, tmpName],
      path ++ [name] ∉ dirs ∧ ¬path ++ [name] <+: cwd ∧
        ∀ way, wayTo cwd outDir = some way → path ++ [name] ∉ way

/-- What a command needs to get an archive as far as the extraction: the sender has frames for it,
which RaptorQ makes the ciphertext of again, and the state directory can be used. -/
structure Command.Carries (b3 : Blake3) (rq : RaptorQ) (c : Command ed) (manifest : Str) :
    Prop where
  frames : ∀ transfer (dec : PipelineDecoder rq) ciphertext,
    startReceiver ed b3 rq c.key c.signer manifest = .ok (transfer, dec) →
    ciphertext.length = transfer.params.payloadSize.toNat →
    blake3Digest b3 ciphertext = transfer.params.payloadDigest →
    ∃ frames, dec.toPipeline.encodeToBytes b3 rq ciphertext = .ok frames ∧
      dec.toPipeline.RaptorQIdeal rq ciphertext
  state : c.stateDir ≠ [] → StateUsable c.cwd c.stateDir c.outDir

/-- The command before a screen that shows these frames. -/
def Command.before (c : Command ed) (frames : List Str) (random : Component) : Command ed :=
  { c with random := random, source := .images frames, interrupt := none, stopAfter := 0 }

lemma Command.SameTask.sound {c' : Command ed} (h : c.SameTask c')
    (hsound : c.Sound b3 aead rq manifest) : c'.Sound b3 aead rq manifest := by
  obtain ⟨hkey, hsigner, hcwd, hout, hstate⟩ := h
  have haims : ∀ {transfer out}, c'.Aims b3 rq manifest transfer out →
      c.Aims b3 rq manifest transfer out := by
    rintro transfer out ⟨hstarts, hnamed, houtside⟩
    rw [hkey, hsigner] at hstarts
    rw [hcwd, hout] at hnamed
    rw [hcwd] at houtside
    exact ⟨hstarts, hnamed, houtside⟩
  refine ⟨fun transfer out h => ?_, fun transfer out payload h => ?_,
    fun transfer out payload items h => ?_⟩
  · rw [hcwd, hstate]
    exact hsound.state transfer out (haims h)
  · rw [hkey, hout]
    exact hsound.name transfer out payload (haims h)
  · rw [hkey, hcwd, hout]
    exact hsound.archives transfer out payload items (haims h)

/-- A sound command leaves nothing. -/
theorem Command.Sound.leavesNothing (h : c.Sound b3 aead rq manifest) :
    c.LeavesNothing b3 aead rq manifest := by
  intro c' hsame w e w' hcwd habsent hrun he out hout
  have hnone : w.fs.lookup out = none := habsent out hout
  have houtside : ¬out <+: c.cwd := by
    rintro ⟨rest, hrest⟩
    rw [← hrest, Fs.lookup_append_of_none hnone rest] at hcwd
    cases hcwd
  rw [← hsame.cwd_eq] at houtside
  rw [← hsame.cwd_eq, ← hsame.outDir_eq] at hout
  have hensures := ensures_runRecv hout houtside (hsame.sound h) w hnone
  rw [hrun] at hensures
  exact hensures he

lemma Command.Aims.ne_nil (h : c.Aims b3 rq manifest transfer out) : out ≠ [] := by
  rintro rfl
  exact h.outside List.nil_prefix

/-- One run that fails and leaves something is enough. -/
lemma Command.Aims.not_leavesNothing (h : c.Aims b3 rq manifest transfer out) {frames : List Str}
    {random : Component} {e : RunError} {w' : World Component File}
    (hcwd : fs.lookup c.cwd = some .dir) (habsent : fs.lookup out = none)
    (hrun : runRecv b3 aead rq (c.before frames random) manifest ⟨fs, []⟩ = (.error e, w'))
    (he : e.Failed) (hthere : w'.fs.lookup out ≠ none) :
    ¬c.LeavesNothing b3 aead rq manifest := by
  intro hleaves
  have hout : c.OutAbsent fs := by
    intro p hp
    rw [h.named, Option.some.injEq] at hp
    rwa [← hp]
  exact hthere (hleaves (c.before frames random) ⟨rfl, rfl, rfl, rfl, rfl⟩ ⟨fs, []⟩ e w' hcwd hout
    hrun he out h.named)

/-! ### What comes over the link -/

lemma failed_of_finish {key : Arr 32} {dec : PipelineDecoder rq} {e : RunError}
    (h : finish b3 aead key transfer dec = .error e) : e.Failed := by
  unfold finish at h
  split_ifs at h
  · cases h
    exact .inr (.inl rfl)
  · split at h
    next e' _ =>
      cases h
      cases e' with
      | incomplete => exact .inr (.inl rfl)
      | verificationFailed _ => exact .inl rfl
      | keyFailed _ => exact .inl rfl
      | cryptoFailed _ => exact .inl rfl
    · cases h

/-- Without a frame there is nothing to extract. -/
lemma exists_finish_eq_error (aead : Aead) {dec : PipelineDecoder rq}
    (hstart : startReceiver ed b3 rq c.key c.signer manifest = .ok (transfer, dec)) :
    ∃ e, finish b3 aead c.key transfer dec = .error e ∧ e.Failed := by
  cases hfinish : finish b3 aead c.key transfer dec with
  | error e => exact ⟨e, rfl, failed_of_finish hfinish⟩
  | ok payload =>
    obtain ⟨ciphertext, keys, hd, -, hdecrypt⟩ := stages_of_finish hfinish
    have hlen := length_of_finish hd
    have hne : ciphertext ≠ [] := by
      rintro rfl
      cases hdecrypt
    have hdone := (PipelineDecoder.of_finish_eq_ok hd).1
    obtain ⟨p, rfl, -⟩ := of_startReceiver hstart
    have hblocks : ((PipelineDecoder.start rq p).run b3 []).HasBlocks ciphertext := by
      intro k block hk
      have hinitial : (PipelineDecoder.start rq p).blocks[k]? =
          some (PipelineDecoder.initialBlock rq p block) := PipelineDecoder.start_blocks k hk
      obtain ⟨data, hdata⟩ := hdone _ (List.mem_of_getElem? hinitial)
      rw [PipelineDecoder.run_nil, hinitial]
      unfold PipelineDecoder.initialBlock at hdata ⊢
      split_ifs at hdata ⊢ with hsize
      rw [ChunkMap.blockBytes, hsize]
      simp [slice]
    have hsize : ciphertext.length = p.chunkMap.params.payloadSize := by
      rw [hlen, p.chunkMap_params.1]
      rfl
    exact absurd rfl (ne_nil_of_hasBlocks hsize hne hblocks)

/-- The frames of an archive that the manifest stands for bring it. -/
lemma Command.Carries.exists_frames (h : c.Carries b3 rq manifest) {dec : PipelineDecoder rq}
    (hstart : startReceiver ed b3 rq c.key c.signer manifest = .ok (transfer, dec))
    (hsigned : SignedArchive b3 aead c.key transfer payload) :
    ∃ frames : List Str, (∀ frame ∈ frames, FitsJournal frame) ∧
      finish b3 aead c.key transfer
        (frames.foldl (fun dec frame => (decoderAccept b3 dec frame).2) dec) = .ok payload := by
  obtain ⟨ciphertext, keys, hlen, hdigest, hk, hp⟩ := hsigned
  obtain ⟨frames, hf, hi⟩ := h.frames transfer dec ciphertext hstart hlen hdigest
  obtain ⟨p, rfl, hparams⟩ := of_startReceiver hstart
  refine ⟨frames, fun frame hmem => fitsJournal_of_encode hf hmem, ?_⟩
  have hblocks : ((PipelineDecoder.start rq p).run b3 frames).HasBlocks ciphertext :=
    hasBlocks_run hf hi (List.Subset.refl frames) fun pre bytes post he => .inl (he ▸ by simp)
  have hpipe : ((PipelineDecoder.start rq p).run b3 frames).toPipeline = p :=
    PipelineDecoder.run_toPipeline _ _
  have hfinish : ((PipelineDecoder.start rq p).run b3 frames).finish b3 = .ok ciphertext := by
    refine hblocks.finish ?_ ?_
    · rw [hpipe]
      exact Pipeline.payload_length_of_encode hf
    · rw [hpipe, hparams]
      exact hdigest.symm
  rw [foldl_decoderAccept, finish, hblocks.isComplete]
  simp only [Bool.not_true, Bool.false_eq_true, if_false, dhowDecoderFinish, hblocks.isComplete,
    hfinish, hk, hp]

/-! ### The file system it starts in -/

/-- A file system of nothing but some directories, the working directory among them, and those they
lie in. -/
structure Bare (cwd : Path Component) (ps : List (Path Component)) (fs : FileTree) : Prop where
  lookup_eq : ∀ q, fs.lookup q = if q = [] ∨ ∃ p ∈ ps, q <+: p then some .dir else none
  cwd_mem : cwd ∈ ps

section Bare
variable {cwd q : Path Component} {ps : List (Path Component)}

lemma Bare.dir_of_mem (h : Bare cwd ps fs) (hq : q ∈ ps) : fs.lookup q = some .dir := by
  rw [h.lookup_eq, if_pos (.inr ⟨q, hq, List.prefix_rfl⟩)]

lemma Bare.eq_dir (h : Bare cwd ps fs) {n : Node File} (hn : fs.lookup q = some n) : n = .dir := by
  rw [h.lookup_eq] at hn
  split_ifs at hn
  exact (Option.some.inj hn).symm

lemma Bare.absent (h : Bare cwd ps fs) (hq : q ≠ []) (hps : ∀ p ∈ ps, ¬q <+: p) :
    fs.lookup q = none := by
  rw [h.lookup_eq, if_neg]
  rintro (rfl | ⟨p, hp, hpre⟩)
  · exact hq rfl
  · exact hps p hp hpre

lemma startOf_prefix_cwd (cwd : Path Component) (s : Str) : startOf cwd s <+: cwd := by
  unfold startOf
  split_ifs
  · exact List.nil_prefix
  · exact List.prefix_rfl

/-- What is not on the way and not above the working directory is not above the way either. -/
lemma not_prefix_of_way {s : Str} {way : List (Path Component)} (hway : wayTo cwd s = some way)
    (hq : q ∉ way) (hcwd : ¬q <+: cwd) {p : Path Component} (hp : p ∈ way) : ¬q <+: p := fun hpre =>
  (mem_of_prefix_mem hway hp hpre).elim hq fun h => hcwd (h.trans (startOf_prefix_cwd cwd s))

/-- The parent of a path is on the way to it or above the working directory. -/
lemma exists_way {s : Str} {parent : Path Component} (h : parentOf cwd s = some parent) :
    ∃ way, wayTo cwd s = some way ∧ ∃ p ∈ cwd :: way, parent <+: p := by
  rw [parentOf_eq, Option.map_eq_some_iff] at h
  obtain ⟨way, hway, rfl⟩ := h
  refine ⟨way, hway, ?_⟩
  by_cases hnil : way = []
  · rw [hnil, List.getLastD_nil]
    exact ⟨cwd, by simp, startOf_prefix_cwd cwd s⟩
  · rw [List.getLastD_eq_getLast?, List.getLast?_eq_getLast_of_ne_nil hnil, Option.getD_some]
    exact ⟨_, List.mem_cons_of_mem _ (List.getLast_mem hnil), List.prefix_rfl⟩

/-- In a bare file system a usable state directory can be made. -/
lemma StateUsable.free {stateDir outDir : Str} (h : StateUsable cwd stateDir outDir)
    (hfs : Bare cwd ps fs)
    (hps : ∀ p ∈ ps, p = cwd ∨ ∃ way, wayTo cwd outDir = some way ∧ p ∈ way) :
    ∃ dirs path, StateFree cwd stateDir dirs path fs := by
  obtain ⟨dirs, path, hdirs, hpath, hnames⟩ := h
  refine ⟨dirs, path, hdirs, hpath, ?_, fun q _ n hn => hfs.eq_dir hn, fun name hname => ?_⟩
  · unfold startOf
    split_ifs
    · rfl
    · exact hfs.dir_of_mem hfs.cwd_mem
  · obtain ⟨hdir, hcwd, hway⟩ := hnames name hname
    refine ⟨hdir, hfs.absent (by simp) fun p hp => ?_⟩
    rcases hps p hp with rfl | ⟨way, hway', hmem⟩
    · exact hcwd
    · exact not_prefix_of_way hway' (hway way hway') hcwd hmem

end Bare

/-! ### The file system it comes to the extraction with -/

section Left
variable {q : Path Component} {ps dirs : List (Path Component)} {path : Path Component}

/-- Where a file of the state directory goes. -/
def Command.IsStateFile (c : Command ed) (q : Path Component) : Prop :=
  c.stateDir ≠ [] ∧ ∃ path, named c.cwd c.stateDir = some path ∧
    ∃ name ∈ [journalName, stateName], q = path ++ [name]

/-- What is there is a directory or a file of the state directory. -/
lemma Command.StateLeft.eq_dir (h : c.StateLeft fs fs₁) (hbare : Bare c.cwd ps fs)
    (hstate : c.stateDir ≠ [] → ∃ dirs path, StateFree c.cwd c.stateDir dirs path fs)
    (hq : ¬c.IsStateFile q) {n : Node File} (hn : fs₁.lookup q = some n) : n = .dir := by
  by_cases hdir : c.stateDir = []
  · rw [h.same hdir] at hn
    exact hbare.eq_dir hn
  · obtain ⟨dirs, path, hfree⟩ := hstate hdir
    rw [(h.made dirs path hfree).2 q fun name hname heq =>
      hq ⟨hdir, path, hfree.path_eq, name, hname, heq⟩] at hn
    split_ifs at hn
    · exact (Option.some.inj hn).symm
    · exact hbare.eq_dir hn

/-- No file of a usable state directory lies on the way to `-out` or above the working directory. -/
lemma Command.not_isStateFile (husable : c.stateDir ≠ [] → StateUsable c.cwd c.stateDir c.outDir)
    {way : List (Path Component)} (hway : wayTo c.cwd c.outDir = some way) {p : Path Component}
    (hp : p ∈ c.cwd :: way) (hq : q <+: p) : ¬c.IsStateFile q := by
  rintro ⟨hdir, path, hpath, name, hname, rfl⟩
  obtain ⟨dirs, path', -, hpath', hnames⟩ := husable hdir
  rw [hpath, Option.some.injEq] at hpath'
  subst hpath'
  obtain ⟨-, hcwd, hout⟩ := hnames name (by simp at hname ⊢; tauto)
  rcases List.mem_cons.mp hp with rfl | hp
  · exact hcwd hq
  · exact not_prefix_of_way hway (hout way hway) hcwd hp hq

/-- What was there is still there. -/
lemma Command.StateLeft.stays (h : c.StateLeft fs fs₁)
    (hstate : c.stateDir ≠ [] → ∃ dirs path, StateFree c.cwd c.stateDir dirs path fs)
    (hq : fs.lookup q = some .dir) : fs₁.lookup q = some .dir := by
  by_cases hdir : c.stateDir = []
  · rwa [h.same hdir]
  · obtain ⟨dirs, path, hfree⟩ := hstate hdir
    rw [(h.made dirs path hfree).2 q, hq, ite_self]
    rintro name hname rfl
    rw [(hfree.free name (by simp at hname ⊢; tauto)).2] at hq
    cases hq

/-- Nothing comes to be where the state directory leaves nothing. -/
lemma Command.StateLeft.absent (h : c.StateLeft fs fs₁)
    (hstate : c.stateDir ≠ [] → ∃ dirs path, StateFree c.cwd c.stateDir dirs path fs)
    (hq : c.stateDir ≠ [] → StateApart q c.cwd c.stateDir) (hnone : fs.lookup q = none) :
    fs₁.lookup q = none := by
  by_cases hdir : c.stateDir = []
  · rwa [h.same hdir]
  · obtain ⟨dirs, path, hfree⟩ := hstate hdir
    have hapart := hq hdir
    rw [(h.made dirs path hfree).2 q fun name hname heq =>
      hapart.files path hfree.path_eq name hname heq.symm,
      if_neg (hapart.dirs dirs hfree.dirs_eq), hnone]

/-- What the state directory leaves at `-out` is there. -/
lemma Command.StateLeft.there (h : c.StateLeft fs fs₁)
    (hfree : StateFree c.cwd c.stateDir dirs path fs) (hq : ¬StateApart q c.cwd c.stateDir) :
    fs₁.lookup q ≠ none := by
  obtain ⟨hfiles, helsewhere⟩ := h.made dirs path hfree
  by_cases hfile : ∃ name ∈ [journalName, stateName], path ++ [name] = q
  · obtain ⟨name, hname, rfl⟩ := hfile
    obtain ⟨f, hf⟩ := hfiles name hname
    rw [hf]
    simp
  · have hne : ∀ name ∈ [journalName, stateName], q ≠ path ++ [name] := fun name hname heq =>
      hfile ⟨name, hname, heq.symm⟩
    rw [helsewhere q hne, if_pos]
    · simp
    · by_contra hmem
      refine hq ⟨fun ds hds => ?_, fun p hp name hname heq => ?_⟩
      · rw [hfree.dirs_eq, Option.some.injEq] at hds
        exact hds ▸ hmem
      · rw [hfree.path_eq, Option.some.injEq] at hp
        exact hne name hname (hp ▸ heq.symm)

end Left

/-! ### The state directory makes it -/

/-- Without a frame the command ends incomplete, and its state directory is made. -/
theorem state_leaves (haims : c.Aims b3 rq manifest transfer out)
    (husable : StateUsable c.cwd c.stateDir c.outDir) (hapart : ¬StateApart out c.cwd c.stateDir) :
    ¬c.LeavesNothing b3 aead rq manifest := by
  obtain ⟨dec, hstart⟩ := haims.starts
  obtain ⟨fs, hfs⟩ := Fs.exists_dirs (F := File) [c.cwd]
  have hbare : Bare c.cwd [c.cwd] fs := ⟨hfs, by simp⟩
  obtain ⟨dirs, path, hfree⟩ := husable.free hbare fun p hp => .inl (List.mem_singleton.mp hp)
  have hreceive : ∀ sink : FrameSink rq, receive b3 none sink (.images []) =
      deliver b3 none sink [] := fun _ => rfl
  obtain ⟨sink, fs₁, hdec, -, hleft, hrun⟩ := runRecv_of_frames (c := c.before [] journalName) aead fs
    hstart hreceive rfl (fun _ => ⟨dirs, path, hfree⟩) (by simp)
  obtain ⟨e, hfinish, he⟩ := exists_finish_eq_error aead hstart
  have hends : runRecv b3 aead rq (c.before [] journalName) manifest ⟨fs, []⟩ =
      (.error e, ⟨fs₁, []⟩) := by
    rw [hrun, hdec]
    exact Sys.bind_of_fails (congrArg (·, _) hfinish)
  have habsent := hbare.absent haims.ne_nil (by simpa using haims.outside)
  exact haims.not_leavesNothing (hbare.dir_of_mem hbare.cwd_mem) habsent hends he
    (hleft.there hfree hapart)

/-! ### The archive comes to the extraction -/

/-- The frames of an archive that the manifest stands for, and what there is before the extraction:
the command fails if the extraction does or what it extracts is not the inventory. -/
lemma Command.Aims.exists_reached (h : c.Aims b3 rq manifest transfer out)
    (hcarries : c.Carries b3 rq manifest) (hsigned : SignedArchive b3 aead c.key transfer payload)
    (hstate : c.stateDir ≠ [] → ∃ dirs path, StateFree c.cwd c.stateDir dirs path fs)
    (random : Component) : ∃ (frames : List Str) (fs₁ : FileTree), c.StateLeft fs fs₁ ∧
      (∀ e w', extractAtomically c.umask random c.cwd payload c.outDir ⟨fs₁, []⟩ = (.error e, w') →
        ∃ e', runRecv b3 aead rq (c.before frames random) manifest ⟨fs, []⟩ = (.error e', w') ∧
          e'.Failed) ∧
      ∀ entries w', Sys.Runs (extractAtomically c.umask random c.cwd payload c.outDir) ⟨fs₁, []⟩
          entries w' → ¬List.Forall₂ Agrees entries transfer.inventory →
        ∃ e', runRecv b3 aead rq (c.before frames random) manifest ⟨fs, []⟩ = (.error e', w') ∧
          e'.Failed := by
  obtain ⟨dec, hstart⟩ := h.starts
  obtain ⟨frames, hfits, hfinish⟩ := hcarries.exists_frames hstart hsigned
  have hreceive : ∀ sink : FrameSink rq, receive b3 none sink (.images frames) =
      deliver b3 none sink frames := by
    intro sink
    rw [receive]
  obtain ⟨sink, fs₁, hdec, -, hleft, hrun⟩ := runRecv_of_frames (c := c.before frames random)
    aead fs hstart hreceive rfl hstate fun _ => hfits
  have hlift : Sys.Runs (Sys.lift (finish b3 aead c.key transfer sink.dec)) ⟨fs₁, []⟩ payload
      ⟨fs₁, []⟩ := by
    rw [Sys.Runs, Sys.lift, hdec, hfinish]
  refine ⟨frames, fs₁, ⟨hleft.same, hleft.made⟩, fun e w' hextract => ?_,
    fun entries w' hextract hdiffers => ?_⟩
  · refine ⟨.extraction e, ?_, .inr (.inr (.inl ⟨e, rfl⟩))⟩
    rw [hrun]
    exact (Sys.bind_of_runs hlift).trans (Sys.bind_of_fails (Sys.mapError_of_fails hextract))
  · cases hr : reconcile entries transfer.inventory with
    | ok _ => exact absurd (reconcile_eq_ok_iff.mp hr) hdiffers
    | error e =>
      refine ⟨.reconciling e, ?_, .inr (.inr (.inr ⟨e, rfl⟩))⟩
      rw [hrun]
      refine (Sys.bind_of_runs hlift).trans ((Sys.bind_of_runs (.mapError hextract)).trans ?_)
      rw [hr]
      rfl

/-! ### The destination ends in no name -/

section Nameless
variable {cwd parent staging : Path Component} {outDir : Str}

lemma stays_abandon {α : Type} {Q : α → FileTree → Prop} {e : ExtractError} (hne : staging ≠ [])
    (hout : ¬staging <+: out) :
    Sys.Ensures (Sys.Stays out) (abandon staging e) Q fun _ => Sys.Stays out :=
  .attempt (Sys.stays_removeAll hne hout) (fun _ => .throw fun _ h => h) fun _ => .throw fun _ h => h

/-- Once the parent is made, which `-out` is or lies above, the renaming cannot succeed. -/
lemma extractAtomically_nameless (umask : UInt32) (random : Component) (payload : Str)
    (hlast : ¬IsComponent (lastPart outDir))
    (hparent : parentOf cwd outDir = some parent) (hout : out <+: parent)
    (hstat : ∃ r, stat cwd outDir fs = .error (.notExist r))
    (hmk : fs.mkdirAll parent = .ok fs₁) :
    ∃ e w', extractAtomically umask random cwd payload outDir ⟨fs, []⟩ = (.error e, w') ∧
      w'.fs.lookup out = some .dir := by
  have hrename : ∀ staging, Sys.Ensures (Sys.Stays out)
      (Sys.change (renameTo cwd staging outDir)) (fun _ _ => False) fun _ => Sys.Stays out := by
    refine fun staging => .change_ok fun fs fs' _ h => ?_
    unfold renameTo at h
    split at h
    · cases h
    · rw [dif_neg hlast] at h
      cases h
  have hstays : fs₁.lookup out = some .dir := by
    obtain ⟨_, hmk', hlook⟩ := Fs.mkdirAll_spec fs parent (Fs.eq_dir_of_mkdirAll hmk)
    rw [hmk, Except.ok.injEq] at hmk'
    rw [hmk', hlook, if_pos hout]
  have hmkdirTemp : Sys.Ensures (Sys.Stays out)
      (mkdirTemp parent (stagingPattern (baseName outDir)) random)
      (fun staging fs => (staging ≠ [] ∧ ¬staging <+: out) ∧ Sys.Stays out fs)
      fun _ => Sys.Stays out := by
    unfold mkdirTemp
    split_ifs
    · refine .bind Sys.stays_mkdir fun _ => .pure fun _ h => ⟨⟨by simp, fun hpre => ?_⟩, h⟩
      have hle := (hpre.trans hout).length_le
      rw [List.length_append, List.length_singleton] at hle
      omega
    · exact .throw fun _ h => h
  obtain ⟨r, hstat⟩ := hstat
  unfold extractAtomically
  rw [Sys.bind_of_runs (Sys.Runs.query_error hstat)]
  dsimp only
  rw [hparent]
  dsimp only
  rw [Sys.bind_of_runs (.mapError (.mkdirAll hmk))]
  refine Sys.Ensures.exists_error (E := fun _ => Sys.Stays out) (.bind (.mapError hmkdirTemp)
    fun staging => .of_and fun hstaging => ?_) hstays
  exact .attempt (keptBelow_stays out).extract (fun entries => .attempt (hrename staging)
    (fun _ _ h => h.elim) fun _ => stays_abandon hstaging.1 hstaging.2)
    fun _ => stays_abandon hstaging.1 hstaging.2

end Nameless

/-- The parent of a destination without a name at its end is made, and stays. -/
theorem name_leaves (haims : c.Aims b3 rq manifest transfer out)
    (hcarries : c.Carries b3 rq manifest)
    (hapart : c.stateDir ≠ [] → StateApart out c.cwd c.stateDir)
    (hsigned : SignedArchive b3 aead c.key transfer payload)
    (hlast : ¬IsComponent (lastPart c.outDir)) : ¬c.LeavesNothing b3 aead rq manifest := by
  obtain ⟨fs, hfs⟩ := Fs.exists_dirs (F := File) [c.cwd]
  have hbare : Bare c.cwd [c.cwd] fs := ⟨hfs, by simp⟩
  have hstate : c.stateDir ≠ [] → ∃ dirs path, StateFree c.cwd c.stateDir dirs path fs := fun hdir =>
    (hcarries.state hdir).free hbare fun p hp => .inl (List.mem_singleton.mp hp)
  obtain ⟨frames, fs₁, hleft, hfails, -⟩ := haims.exists_reached hcarries hsigned hstate journalName
  have habsent := hbare.absent haims.ne_nil (by simpa using haims.outside)
  obtain ⟨parent, hparent, hpre⟩ := prefix_parent_of_named hlast haims.named
  obtain ⟨way, hway, p, hp, hparent'⟩ := exists_way hparent
  have hclear : ∀ p ∈ c.cwd :: way, ∀ q, q <+: p → ∀ n, fs₁.lookup q = some n → n = .dir :=
    fun p hp q hq n hn => hleft.eq_dir hbare hstate
      (Command.not_isStateFile hcarries.state hway hp hq) hn
  have hstat := stat_of_absent hway haims.named (hleft.absent hstate hapart habsent) fun q hq =>
    hclear q (List.mem_cons_of_mem _ hq) q List.prefix_rfl
  obtain ⟨fs₂, hmk, -⟩ := Fs.mkdirAll_spec fs₁ parent fun q hq =>
    hclear p hp q (hq.trans hparent')
  obtain ⟨e, w', hextract, hthere⟩ := extractAtomically_nameless c.umask journalName payload hlast
    hparent hpre hstat hmk
  obtain ⟨e', hends, he'⟩ := hfails e w' hextract
  exact haims.not_leavesNothing (hbare.dir_of_mem hbare.cwd_mem) habsent hends he' (by simp [hthere])

/-! ### The archive is not what the inventory says -/

/-- There is a random part that brings none of some names about. -/
lemma exists_random (used : List Component) : ∃ random, ∀ base, stagingName base random ∉ used := by
  let n := (used.map fun c => c.1.length).sum
  have hrandom : IsComponent (List.replicate (n + 3) 0x61) := by
    refine ⟨by simp, by simp [slash], by simp, ?_, ?_⟩
    all_goals
      intro h
      have hlen := congrArg List.length h
      simp [dot, dotdot] at hlen
  refine ⟨⟨_, hrandom⟩, fun base hmem => ?_⟩
  have hle : (stagingName base ⟨_, hrandom⟩).1.length ≤ n :=
    List.single_le_sum (by simp) _ (List.mem_map_of_mem hmem)
  have hlen := length_tempName (stagingPattern base.1) (List.replicate (n + 3) 0x61)
  rw [length_stagingPattern, List.length_replicate] at hlen
  change (tempName (stagingPattern base.1) (List.replicate (n + 3) 0x61)).length ≤ n at hle
  omega

/-- In a bare file system there is a random part for which no staging directory is there, whatever
the state directory has made. -/
lemma Bare.exists_fresh {ps : List (Path Component)} (hbare : Bare c.cwd ps fs)
    (hstate : c.stateDir ≠ [] → ∃ dirs path, StateFree c.cwd c.stateDir dirs path fs)
    (parent : Path Component) : ∃ random, ∀ fs₁, c.StateLeft fs fs₁ → ∀ base,
      fs₁.lookup (parent ++ [stagingName base random]) = none := by
  obtain ⟨random, hrandom⟩ := exists_random (ps.flatten ++
    ((dirsAlong (startOf c.cwd c.stateDir) (c.stateDir.splitOn slash)).getD []).flatten ++
      [journalName, stateName])
  refine ⟨random, fun fs₁ hleft base => ?_⟩
  have hfresh := hrandom base
  simp only [List.mem_append, List.mem_cons, not_or] at hfresh
  obtain ⟨⟨hps, hdirs⟩, hjournal, hstateName, -⟩ := hfresh
  refine hleft.absent hstate (fun _ =>
    ⟨fun dirs hd hmem => hdirs ?_, fun path _ name hname heq => ?_⟩) (hbare.absent (by simp) ?_)
  · rw [hd]
    exact List.mem_flatten.mpr ⟨_, hmem, by simp⟩
  · obtain rfl := (List.cons.inj (List.append_inj' heq rfl).2).1
    rcases List.mem_pair.mp hname with h | h
    · exact hjournal h
    · exact hstateName h
  · exact fun q hq hpre => hps (List.mem_flatten.mpr ⟨q, hq, hpre.subset (by simp)⟩)

/-- An archive that the manifest stands for is extracted and renamed before it is compared with the
inventory. -/
theorem archive_leaves (haims : c.Aims b3 rq manifest transfer out)
    (hcarries : c.Carries b3 rq manifest)
    (hapart : c.stateDir ≠ [] → StateApart out c.cwd c.stateDir)
    (hlast : IsComponent (lastPart c.outDir)) (hstraight : Straight c.cwd c.outDir out)
    (hsigned : SignedArchive b3 aead c.key transfer payload) (hextractable : Pack.Extractable payload)
    {items : List (Pack.Entry × Str)} (hparse : Pack.parse payload = .ok items)
    (hdiffers : ¬List.Forall₂ Agrees (items.map Prod.fst) transfer.inventory) :
    ¬c.LeavesNothing b3 aead rq manifest := by
  have hat := haims.named
  rw [named_of_lastPart hlast, Option.map_eq_some_iff] at hat
  obtain ⟨parent, hparent, hout⟩ := hat
  obtain ⟨way, hway, p, hp, hparent'⟩ := exists_way hparent
  obtain ⟨fs, hfs⟩ := Fs.exists_dirs (F := File) (c.cwd :: way)
  have hbare : Bare c.cwd (c.cwd :: way) fs := ⟨hfs, by simp⟩
  have hstate : c.stateDir ≠ [] → ∃ dirs path, StateFree c.cwd c.stateDir dirs path fs := fun hdir =>
    (hcarries.state hdir).free hbare fun p hp => (List.mem_cons.mp hp).imp id fun h => ⟨way, hway, h⟩
  obtain ⟨random, hrandom⟩ := hbare.exists_fresh hstate parent
  obtain ⟨frames, fs₁, hleft, -, hfails⟩ := haims.exists_reached hcarries hsigned hstate random
  have habsent : fs.lookup out = none := hbare.absent haims.ne_nil <|
    List.forall_mem_cons.mpr ⟨haims.outside, fun _ hq =>
      not_prefix_of_way hway (hstraight way hway) haims.outside hq⟩
  have habsent₁ := hleft.absent hstate hapart habsent
  have hthere : ∀ q ∈ c.cwd :: way, fs₁.lookup q = some .dir := fun q hq =>
    hleft.stays hstate (hbare.dir_of_mem hq)
  have hready : Ready fs₁ out random := by
    refine ⟨habsent₁, fun q hq n hn => ?_, fun base hbase => ?_⟩
    · rw [← hout, List.prefix_concat_iff] at hq
      rcases hq with rfl | hq
      · rw [hout, habsent₁] at hn
        cases hn
      · exact hleft.eq_dir hbare hstate
          (Command.not_isStateFile hcarries.state hway hp (hq.trans hparent')) hn
    · rw [← hout, List.dropLast_concat]
      exact hrandom fs₁ hleft base
  obtain ⟨items', fs₂, hparse', hextract, hholds⟩ := hextractable.extractAtomically c.umask hready
  rw [hparse, Except.ok.injEq] at hparse'
  subst hparse'
  have hextracted := runs_extractAtomically hlast hway haims.named
    (fun q hq => .inr (hthere q (List.mem_cons_of_mem _ hq))) hextract
  obtain ⟨e, hends, he⟩ := hfails _ _ hextracted hdiffers
  exact haims.not_leavesNothing (hbare.dir_of_mem hbare.cwd_mem) habsent hends he
    (by simp [hholds.directory])

/-- A command whose failures leave nothing is sound. -/
theorem sound_of_leavesNothing (hcarries : c.Carries b3 rq manifest)
    (h : c.LeavesNothing b3 aead rq manifest) : c.Sound b3 aead rq manifest := by
  have hapart : ∀ transfer out, c.Aims b3 rq manifest transfer out → c.stateDir ≠ [] →
      StateApart out c.cwd c.stateDir := fun transfer out haims hdir =>
    by_contra fun hnot => state_leaves haims (hcarries.state hdir) hnot h
  have hname : ∀ transfer out payload, c.Aims b3 rq manifest transfer out →
      SignedArchive b3 aead c.key transfer payload → IsComponent (lastPart c.outDir) :=
    fun transfer out payload haims hsigned => by_contra fun hnot =>
      name_leaves haims hcarries (hapart transfer out haims) hsigned hnot h
  refine ⟨hapart, hname, fun transfer out payload items haims hsigned hextractable hstraight hparse =>
    by_contra fun hnot => ?_⟩
  exact archive_leaves haims hcarries (hapart transfer out haims)
    (hname transfer out payload haims hsigned) hstraight hsigned hextractable hparse hnot h

end LeftOutput
end Dhow.Host
