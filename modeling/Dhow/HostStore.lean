import Dhow.HostExtraction
import Dhow.Replay
import Dhow.Transfer

/-!
# The state directory call by call

The store of `resume.go` as the system calls it makes, each of which may fail, on the file system
the dataset is extracted into.
-/

namespace Dhow.Host
open Bytes FileSystem

def journalName : Component := ⟨asBytes "journal.bin", by decide +kernel⟩
def stateName : Component := ⟨asBytes "resume.dhrs", by decide +kernel⟩

/-- The temporary file of a save. -/
def tmpName : Component := ⟨asBytes "resume.dhrs.tmp", by decide +kernel⟩

inductive StoreFailure
  | os (e : OsError)
  | store (e : StoreError)

inductive ProgressError
  | opening (e : OsError)
  | stateUnusable (e : ResumeError)
  | foreignSession (saved current : Arr 16)
  | replaying (e : StoreFailure)
  | progressMismatch (e : CodecError)
  | preparing (e : StoreFailure)
  | recording (e : StoreFailure)
  | saving (e : StoreFailure)

/-- A state directory in use. -/
structure Store where
  dir : Path Component
  umask : UInt32
  state : Str
  journalOpen : Bool
  written : UInt64

namespace Store

def openDir (umask : UInt32) (cwd : Path Component) (dir : Str) : Os OsError Store :=
  match dirsAlong (startOf cwd dir) (dir.splitOn slash), named cwd dir with
  | some dirs, some path => do
    Sys.ensureDirs dirs
    match ← Sys.attempt (Sys.read (path ++ [stateName])) with
    | .ok f => pure ⟨path, umask, f.content, false, 0⟩
    | .error (.error (.notExist _)) => pure ⟨path, umask, [], false, 0⟩
    | .error e => Sys.throw e
  | _, _ => Sys.throw (.error (.invalid cwd))

def journal (s : Store) : Path Component := s.dir ++ [journalName]

/-- A call of the operating system on behalf of the store. -/
def call {α : Type} (m : Os OsError α) : Os StoreFailure α := Sys.mapError .os m

/-- A file opened for writing, and made if it is not there. -/
def openFile (s : Store) (p : Path Component) : Os StoreFailure Unit :=
  call (Sys.ensureFile p ⟨[], 0o600 &&& ~~~s.umask⟩)

def replay {σ : Type} (s : Store) (limit : UInt64) (fn : σ → Str → DhowStatus × σ) (x : σ) :
    Os StoreFailure (ℕ × σ) := do
  let f ← call (Sys.read s.journal)
  if f.content.length < limit.toNat then
    Sys.throw (.store (.journalShorter f.content.length limit.toNat))
  else
    match Dhow.Store.replayFrom f.content limit.toNat fn 0 0 x with
    | .error e => Sys.throw (.store e)
    | .ok r => pure r

def begin (s : Store) (covered : UInt64) : Os StoreFailure Store := do
  s.openFile s.journal
  call (Sys.write s.journal (fun f => { f with content := truncate f.content covered.toNat })
    fun _ f => f)
  -- Seek.
  call Sys.settle
  pure { s with journalOpen := true, written := covered }

def append (s : Store) (frame : Str) : Os StoreFailure Store :=
  if !s.journalOpen then Sys.throw (.store .journalNotOpen)
  else if frame = [] ∨ maxRecord < frame.length then
    Sys.throw (.store (.frameRefused frame.length))
  else do
    let record := journalRecord frame
    call (Sys.write s.journal (fun f => { f with content := f.content ++ record })
      fun n f => { f with content := f.content ++ record.take n })
    pure { s with written := s.written + UInt64.ofNat record.length }

/-- The journal flushed, or closed, if it is open. -/
def settleJournal (s : Store) : Os StoreFailure Unit :=
  if s.journalOpen then call Sys.settle else pure ()

def save (s : Store) (state : Str) : Os StoreFailure Store :=
  if state = [] then Sys.throw (.store .emptyState)
  else do
    s.settleJournal
    s.openFile (s.dir ++ [tmpName])
    call (Sys.write (s.dir ++ [tmpName]) (fun f => { f with content := state })
      fun n f => { f with content := state.take n })
    -- Sync and Close of the temporary file.
    call Sys.settle
    call Sys.settle
    call (Sys.replace (s.dir ++ [tmpName]) (s.dir ++ [stateName]))
    pure { s with state := state }

/-- A file removed, which may be missing already. -/
def removeFile (p : Path Component) : Os StoreFailure Unit := do
  match ← Sys.attempt (Sys.remove p) with
  | .ok () => pure ()
  | .error (.error (.notExist _)) => pure ()
  | .error e => Sys.throw (.os e)

def discard (s : Store) : Os StoreFailure Unit := do
  s.settleJournal
  s.settleJournal
  removeFile s.journal
  removeFile (s.dir ++ [stateName])

end Store

section Receiver
variable {rq : RaptorQ} {b3 : Blake3}

/-- The store if there is to be one, the number of frames replayed, and the decoder they were
replayed into. -/
def restoreProgress (b3 : Blake3) (umask : UInt32) (cwd : Path Component) (dir : Str)
    (sessionId : Arr 16) (dec : PipelineDecoder rq) :
    Os ProgressError (Option Store × ℕ × PipelineDecoder rq) :=
  if dir = [] then pure (none, 0, dec)
  else do
    let store ← Sys.mapError .opening (Store.openDir umask cwd dir)
    if store.state = [] then
      let store ← Sys.mapError .preparing (store.begin 0)
      pure (some store, 0, dec)
    else
      match ResumeFile.fromBytes b3 store.state with
      | .error e => Sys.throw (.stateUnusable e)
      | .ok info =>
        if info.header.sessionId ≠ sessionId then
          Sys.throw (.foreignSession info.header.sessionId sessionId)
        else do
          let (replayed, dec) ← Sys.mapError .replaying
            (store.replay info.header.journalBytes (decoderAccept b3) dec)
          match decoderVerifyResume b3 dec store.state with
          | .error e => Sys.throw (.progressMismatch e)
          | .ok () =>
            let store ← Sys.mapError .preparing (store.begin info.header.journalBytes)
            pure (some store, replayed, dec)

def saveProgress (b3 : Blake3) (store : Store) (dec : PipelineDecoder rq) :
    Os ProgressError Store :=
  Sys.mapError .saving (store.save (dec.resumeState b3 store.written).toVec)

structure FrameSink (rq : RaptorQ) where
  dec : PipelineDecoder rq
  store : Option Store
  saveEvery : ℕ
  stopAfter : ℕ
  accepted : ℕ
  rejected : ℕ
  saveEvery_pos : 0 < saveEvery

/-- What became of a frame: it was refused, or accepted, and then perhaps as the last. -/
inductive Verdict
  | refused
  | accepted
  | stop
  deriving DecidableEq

namespace FrameSink

/-- An accepted frame goes to the journal, and the index is saved now and then. -/
def record (b3 : Blake3) (s : FrameSink rq) (frame : Str) : Os ProgressError (FrameSink rq) :=
  match s.store with
  | none => pure s
  | some store => do
    let store ← Sys.mapError .recording (store.append frame)
    if s.accepted % s.saveEvery = 0 then
      let store ← saveProgress b3 store s.dec
      pure { s with store := some store }
    else pure { s with store := some store }

def apply (b3 : Blake3) (s : FrameSink rq) (frame : Str) :
    Os ProgressError (Verdict × FrameSink rq) :=
  match decoderAccept b3 s.dec frame with
  | (.ok, dec) => do
    let s ← record b3 { s with dec := dec, accepted := s.accepted + 1 } frame
    if 0 < s.stopAfter ∧ s.stopAfter ≤ s.accepted then pure (.stop, s) else pure (.accepted, s)
  | (_, dec) => pure (.refused, { s with dec := dec, rejected := s.rejected + 1 })

end FrameSink
end Receiver

/-! ### What is never there -/

section Absent
variable {rq : RaptorQ} {b3 : Blake3} {out : Path Component}

/-- Nothing that a store leaves in its directory is at `out`. -/
structure Store.Apart (out : Path Component) (s : Store) : Prop where
  journal : s.dir ++ [journalName] ≠ out
  state : s.dir ++ [stateName] ≠ out

/-- Nothing that opening and using the state directory `dir` leaves there is at `out`. -/
structure StateApart (out cwd : Path Component) (dir : Str) : Prop where
  dirs : ∀ dirs, dirsAlong (startOf cwd dir) (dir.splitOn slash) = some dirs → out ∉ dirs
  files : ∀ path, named cwd dir = some path → ∀ name ∈ [journalName, stateName],
    path ++ [name] ≠ out

/-- A store that is still apart. -/
def ApartStore (out : Path Component) (s : Store) (fs : FileTree) : Prop :=
  s.Apart out ∧ Sys.Absent out fs

lemma ensures_openDir {umask : UInt32} {cwd : Path Component} {dir : Str}
    (h : StateApart out cwd dir) : Sys.Ensures (Sys.Absent out) (Store.openDir umask cwd dir)
      (ApartStore out) fun _ _ => True := by
  unfold Store.openDir
  split
  next dirs path hdirs hpath =>
    have hfiles := h.files path hpath
    have hapart : ∀ state, Store.Apart out ⟨path, umask, state, false, 0⟩ := fun state =>
      ⟨hfiles _ (by simp), hfiles _ (by simp)⟩
    refine .bind (.forget (Sys.keeps_ensureDirs (h.dirs dirs hdirs))) fun _ => .attempt .query
      (fun f => .pure fun _ hfs => ⟨hapart _, hfs⟩) fun e => ?_
    split
    · contradiction
    · exact .pure fun _ hfs => ⟨hapart _, hfs⟩
    · exact .throw fun _ _ => trivial
  · exact .throw fun _ _ => trivial

lemma ensures_openFile {s : Store} {p : Path Component} (hp : p ≠ out) :
    Sys.Ensures (Sys.Absent out) (s.openFile p) (fun _ => Sys.Absent out) fun _ _ => True :=
  .mapError (.forget (Sys.keeps_ensureFile hp))

lemma ensures_begin {s : Store} {covered : UInt64} :
    Sys.Ensures (ApartStore out s) (s.begin covered) (ApartStore out) fun _ _ => True :=
  .of_and fun h => .bind (ensures_openFile h.journal) fun _ =>
    .bind (.mapError (.forget Sys.keeps_write)) fun _ =>
    .bind (.mapError (.forget .query)) fun _ => .pure fun _ hfs => ⟨⟨h.journal, h.state⟩, hfs⟩

lemma ensures_append {s : Store} {frame : Str} :
    Sys.Ensures (ApartStore out s) (s.append frame) (ApartStore out) fun _ _ => True := by
  refine .of_and fun h => ?_
  unfold Store.append
  split_ifs
  · exact .throw fun _ _ => trivial
  · exact .throw fun _ _ => trivial
  · exact .bind (.mapError (.forget Sys.keeps_write)) fun _ =>
      .pure fun _ hfs => ⟨⟨h.journal, h.state⟩, hfs⟩

lemma ensures_settleJournal {s : Store} : Sys.Ensures (Sys.Absent out) s.settleJournal
    (fun _ => Sys.Absent out) fun _ _ => True := by
  unfold Store.settleJournal
  split_ifs
  · exact .mapError (.forget .query)
  · exact .pure fun _ hfs => hfs

/-- The temporary file of a save that succeeds has been renamed, so `out` may be where it was. -/
lemma ensures_save {s : Store} {state : Str} :
    Sys.Ensures (ApartStore out s) (s.save state) (ApartStore out) fun _ _ => True := by
  refine .of_and fun h => ?_
  unfold Store.save
  split_ifs with hstate
  · exact .throw fun _ _ => trivial
  by_cases htmp : s.dir ++ [tmpName] = out
  · have hne : s.dir ++ [tmpName] ≠ s.dir ++ [stateName] := htmp ▸ h.state.symm
    refine .bind .any fun _ => .bind .any fun _ => .bind .any fun _ => .bind .any fun _ =>
      .bind .any fun _ => .bind (R := fun _ => Sys.Absent out) ?_ fun _ =>
      .pure fun _ hfs => ⟨⟨h.journal, h.state⟩, hfs⟩
    rw [← htmp]
    exact .mapError (.forget (Sys.ensures_replace_absent (by simp) hne))
  · exact .bind ensures_settleJournal fun _ => .bind (ensures_openFile htmp) fun _ =>
      .bind (.mapError (.forget Sys.keeps_write)) fun _ => .bind (.mapError (.forget .query))
      fun _ => .bind (.mapError (.forget .query)) fun _ =>
      .bind (.mapError (.forget (Sys.keeps_replace h.state))) fun _ =>
      .pure fun _ hfs => ⟨⟨h.journal, h.state⟩, hfs⟩

variable {d : PipelineDecoder rq}

lemma decoderAccept_toPipeline (b3 : Blake3) (d : PipelineDecoder rq) (frame : Str) :
    (decoderAccept b3 d frame).2.toPipeline = d.toPipeline := by
  rw [decoderAccept_snd, d.accept_toPipeline]

/-- A replay stays in the session of the decoder. -/
lemma toPipeline_replayFrom {journal : Str} {limit offset count n : ℕ} {d' : PipelineDecoder rq}
    (h : Dhow.Store.replayFrom journal limit (decoderAccept b3) offset count d = .ok (n, d')) :
    d'.toPipeline = d.toPipeline := by
  fun_induction Dhow.Store.replayFrom journal limit (decoderAccept b3) offset count d with
  | case6 offset count d hlt h1 h2 length h3 h4 h5 s hs ih =>
    rw [ih h, ← decoderAccept_toPipeline b3 d, hs]
  | case8 => cases h; rfl
  | _ => cases h

/-- A decoder in the session `p` and a store, if there is one, that is apart. -/
structure InSession (out : Path Component) (p : Pipeline) (store : Option Store)
    (d : PipelineDecoder rq) : Prop where
  apart : ∀ s, store = some s → s.Apart out
  toPipeline_eq : d.toPipeline = p

lemma InSession.some {p : Pipeline} {s : Store} (hs : s.Apart out) (hd : d.toPipeline = p) :
    InSession out p (Option.some s) d :=
  ⟨fun _ h => Option.some.inj h ▸ hs, hd⟩

lemma ensures_replay {s : Store} {limit : UInt64} :
    Sys.Ensures (ApartStore out s) (s.replay limit (decoderAccept b3) d)
      (fun r fs => r.2.toPipeline = d.toPipeline ∧ ApartStore out s fs) fun _ _ => True := by
  refine .of_and fun hs => .bind (.mapError (.forget .query)) fun f => ?_
  split_ifs
  · exact .throw fun _ _ => trivial
  · split
    · exact .throw fun _ _ => trivial
    next r hr => exact .pure fun _ hfs => ⟨toPipeline_replayFrom hr, hs, hfs⟩

/-- Restoring progress leaves a store that is apart and a decoder of the session. -/
lemma ensures_restoreProgress {umask : UInt32} {cwd : Path Component} {dir : Str}
    {sessionId : Arr 16} (h : dir ≠ [] → StateApart out cwd dir) :
    Sys.Ensures (Sys.Absent out) (restoreProgress b3 umask cwd dir sessionId d)
      (fun r fs => InSession out d.toPipeline r.1 r.2.2 ∧ Sys.Absent out fs)
      fun _ _ => True := by
  unfold restoreProgress
  split_ifs with hdir
  · exact .pure fun _ hfs => ⟨⟨fun _ h => absurd h (by simp), rfl⟩, hfs⟩
  · refine .bind (.mapError (ensures_openDir (h hdir))) fun store => ?_
    split_ifs with hstate
    · exact .bind (.mapError ensures_begin) fun s => .pure fun _ hs => ⟨.some hs.1 rfl, hs.2⟩
    · split
      · exact .throw fun _ _ => trivial
      · split_ifs
        · exact .throw fun _ _ => trivial
        · refine .bind (.mapError ensures_replay) fun r => .of_and fun hd => ?_
          obtain ⟨replayed, dec⟩ := r
          dsimp only
          split
          · exact .throw fun _ _ => trivial
          · exact .bind (.mapError ensures_begin) fun s =>
              .pure fun _ hs => ⟨.some hs.1 hd, hs.2⟩

lemma ensures_saveProgress {s : Store} :
    Sys.Ensures (ApartStore out s) (saveProgress b3 s d) (ApartStore out) fun _ _ => True :=
  .mapError ensures_save

/-- A frame leaves the sink in its session. -/
lemma ensures_apply {p : Pipeline} {s : FrameSink rq} {frame : Str}
    (hs : InSession out p s.store s.dec) :
    Sys.Ensures (Sys.Absent out) (s.apply b3 frame)
      (fun r fs => InSession out p r.2.store r.2.dec ∧ Sys.Absent out fs)
      fun _ _ => True := by
  have hd := (decoderAccept_toPipeline b3 s.dec frame).trans hs.toPipeline_eq
  unfold FrameSink.apply
  split
  next dec hdec =>
    rw [hdec] at hd
    refine .bind (R := fun r fs => InSession out p r.store r.dec ∧ Sys.Absent out fs) ?_ fun r =>
      .of_and fun hr => ?_
    · unfold FrameSink.record
      split
      next hnone => exact .pure fun _ hfs => ⟨⟨hs.apart, hd⟩, hfs⟩
      next store hstore =>
        have hpre : ∀ fs, Sys.Absent out fs → ApartStore out store fs := fun _ hfs =>
          ⟨hs.apart store hstore, hfs⟩
        refine .bind (.mapError (ensures_append.weaken hpre (fun _ _ h => h) fun _ _ h => h))
          fun store => ?_
        split_ifs
        · exact .bind ensures_saveProgress fun store => .pure fun _ h => ⟨.some h.1 hd, h.2⟩
        · exact .pure fun _ h => ⟨.some h.1 hd, h.2⟩
    · split_ifs
      · exact .pure fun _ hfs => ⟨hr, hfs⟩
      · exact .pure fun _ hfs => ⟨hr, hfs⟩
  next dec _ hdec =>
    rw [hdec] at hd
    exact .pure fun _ hfs => ⟨⟨hs.apart, hd⟩, hfs⟩

end Absent
end Dhow.Host
