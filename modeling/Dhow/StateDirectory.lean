import Dhow.Replay
import Dhow.Lib.DataFile
import Dhow.Lib.Steps

/-!
# The state directory step by step

The store of `resume.go` as the steps it makes on the files of its directory. A step may fail or
be the last before a crash, a write with any part of its bytes in the file, and of a file that was
not flushed a loss of power may leave less than was written.
-/

namespace Dhow.StateDirectory
open Bytes

/-- The files of a state directory: the journal, the index, and the temporary file of a save. -/
structure Files where
  journal : Option DataFile
  index : Option DataFile
  tmp : Option DataFile

/-- The index as it was read or saved, the offset of the journal if it is open, and the number of
bytes it holds. -/
structure Store where
  state : Str
  journal : Option ℕ
  written : UInt64

structure Machine where
  files : Files
  store : Store

/-- What a step does. -/
inductive Action
  | creatingDirectory
  | readingState
  | openingJournal
  | readingJournal
  | truncatingJournal
  | seekingJournal
  | appending
  | flushingJournal
  | closingJournal
  | creatingTmp
  | writingTmp
  | flushingTmp
  | closingTmp
  | renamingTmp
  | removingJournal
  | removingState
  deriving DecidableEq

inductive Failure
  | os (a : Action)
  | store (e : StoreError)
  deriving DecidableEq

abbrev Op := Steps Machine Failure

def Files.mapJournal (f : DataFile → DataFile) (files : Files) : Files :=
  { files with journal := files.journal.map f }

def Files.mapTmp (f : DataFile → DataFile) (files : Files) : Files :=
  { files with tmp := files.tmp.map f }

/-- A step that changes the files. -/
def changeFiles (a : Action) (f : Files → Files) : Op Unit :=
  Steps.change (.os a) fun m => { m with files := f m.files }

def openDir : Op Unit := do
  Steps.settle (.os .creatingDirectory)
  Steps.settle (.os .readingState)
  Steps.modify fun m => { m with store := ⟨(m.files.index.map DataFile.content).getD [], none, 0⟩ }

def replay {τ : Type} (limit : UInt64) (fn : τ → Str → DhowStatus × τ) (x : τ) : Op (ℕ × τ) := do
  Steps.settle (.os .readingJournal)
  match ← Steps.get fun m => m.files.journal with
  | none => Steps.throw (.store .noJournal)
  | some f =>
    if f.content.length < limit.toNat then
      Steps.throw (.store (.journalShorter f.content.length limit.toNat))
    else do
      Steps.settle (.os .openingJournal)
      Steps.settle (.os .readingJournal)
      match Dhow.Store.replayFrom f.content limit.toNat fn 0 0 x with
      | .error e => Steps.throw (.store e)
      | .ok r => pure r

def begin (covered : UInt64) : Op Unit := do
  changeFiles .openingJournal fun files =>
    { files with journal := some (files.journal.getD .empty) }
  Steps.step (.os .truncatingJournal) (fun m =>
    if h : covered.toNat ≤ maxOffset then
      (.ok (), { m with files := m.files.mapJournal (·.truncate covered.toNat h) })
    else (.error (.os .truncatingJournal), m)) fun _ m => m
  Steps.settle (.os .seekingJournal)
  Steps.modify fun m =>
    { m with store := { m.store with journal := some covered.toNat, written := covered } }

/-- Bytes that reach the journal: the offset and the count move with them. -/
def Machine.wrote (m : Machine) (offset : ℕ) (bytes : Str) : Machine where
  files := m.files.mapJournal (·.write offset bytes)
  store := {
    m.store with
    journal := some (offset + (DataFile.fitting offset bytes).length)
    written := m.store.written + UInt64.ofNat (DataFile.fitting offset bytes).length }

/-- A record written at the offset of the journal. What reached the file is counted whether the
write succeeds or fails. -/
def writeRecord (offset : ℕ) (record : Str) : Op Unit :=
  Steps.step (.os .appending) (fun m =>
    if DataFile.fitting offset record = record then (.ok (), m.wrote offset record)
    else (.error (.os .appending), m.wrote offset record))
    fun n m => m.wrote offset (record.take n)

def append (frame : Str) : Op Unit := do
  match ← Steps.get fun m => m.store.journal with
  | none => Steps.throw (.store .journalNotOpen)
  | some offset =>
    if frame = [] ∨ maxRecord < frame.length then
      Steps.throw (.store (.frameRefused frame.length))
    else writeRecord offset (journalRecord frame)

/-- The journal flushed if it is open. -/
def flushJournal : Op Unit := do
  match ← Steps.get fun m => m.store.journal with
  | none => pure ()
  | some _ => changeFiles .flushingJournal (·.mapJournal .sync)

def writeTmp (state : Str) : Op Unit :=
  Steps.step (.os .writingTmp) (fun m =>
    if DataFile.fitting 0 state = state then
      (.ok (), { m with files := m.files.mapTmp (·.write 0 state) })
    else (.error (.os .writingTmp), { m with files := m.files.mapTmp (·.write 0 state) }))
    fun n m => { m with files := m.files.mapTmp (·.write 0 (state.take n)) }

def save (state : Str) : Op Unit :=
  if state = [] then Steps.throw (.store .emptyState)
  else do
    flushJournal
    changeFiles .creatingTmp fun files =>
      { files with tmp := some ((files.tmp.getD .empty).truncate 0 (Nat.zero_le _)) }
    writeTmp state
    changeFiles .flushingTmp (·.mapTmp .sync)
    Steps.settle (.os .closingTmp)
    changeFiles .renamingTmp fun files => { files with index := files.tmp, tmp := none }
    Steps.modify fun m => { m with store := { m.store with state := state } }

def close : Op Unit := do
  match ← Steps.get fun m => m.store.journal with
  | none => pure ()
  | some _ => do
    Steps.modify fun m => { m with store := { m.store with journal := none } }
    changeFiles .flushingJournal (·.mapJournal .sync)
    Steps.settle (.os .closingJournal)

def discard : Op Unit := do
  close
  changeFiles .removingJournal fun files => { files with journal := none }
  changeFiles .removingState fun files => { files with index := none }
  Steps.modify fun m => { m with store := { m.store with state := [], written := 0 } }

/-! ### Indexes -/

/-- The index is one over the first `n` bytes of a journal. -/
def Covers (b3 : Blake3) (state : Str) (n : UInt64) : Prop :=
  ∃ info, ResumeFile.fromBytes b3 state = .ok info ∧ info.header.journalBytes = n

lemma Covers.unique {b3 : Blake3} {state : Str} {n n' : UInt64} (h : Covers b3 state n)
    (h' : Covers b3 state n') : n = n' := by
  obtain ⟨info, hinfo, rfl⟩ := h
  obtain ⟨info', hinfo', rfl⟩ := h'
  rw [hinfo] at hinfo'
  cases hinfo'
  rfl

lemma Covers.ne_nil {b3 : Blake3} {state : Str} {n : UInt64} (h : Covers b3 state n) :
    state ≠ [] := by
  rintro rfl
  obtain ⟨info, hinfo, -⟩ := h
  cases hinfo

/-- An index over so much of a journal, of a session without blocks. -/
def bareState (b3 : Blake3) (n : UInt64) : Str :=
  (ResumeFile.new b3 (zeros 16) n (zeros 32) []).toVec

lemma covers_bareState (b3 : Blake3) (n : UInt64) : Covers b3 (bareState b3 n) n :=
  ⟨_, ResumeFile.fromBytes_toVec (.new b3 (zeros 16) n (zeros 32) []) rfl
    (fun e he => absurd he List.not_mem_nil) fun j e he => (by cases he), rfl⟩

lemma length_bareState (b3 : Blake3) (n : UInt64) : (bareState b3 n).length = resumeHeaderSize := by
  simp [bareState, ResumeFile.toVec, ResumeFile.new, ResumeFile.build]

/-! ### Restoring progress -/

inductive ProgressError
  | opening (e : Failure)
  | preparing (e : Failure)
  | stateUnusable (e : ResumeError)
  | foreignSession (saved current : Arr 16)
  | replaying (e : Failure)
  | progressMismatch (e : CodecError)
  deriving DecidableEq

/-- The number of frames replayed, and the decoder they were replayed into. -/
def restoreProgress {rq : RaptorQ} (b3 : Blake3) (sessionId : Arr 16) (dec : PipelineDecoder rq) :
    Steps Machine ProgressError (ℕ × PipelineDecoder rq) := do
  Steps.mapError .opening openDir
  let state ← Steps.get fun m => m.store.state
  if state = [] then
    Steps.mapError .preparing (begin 0)
    pure (0, dec)
  else
    match ResumeFile.fromBytes b3 state with
    | .error e => Steps.throw (.stateUnusable e)
    | .ok info =>
      if info.header.sessionId ≠ sessionId then
        Steps.throw (.foreignSession info.header.sessionId sessionId)
      else do
        let (replayed, dec) ← Steps.mapError .replaying
          (replay info.header.journalBytes (decoderAccept b3) dec)
        match decoderVerifyResume b3 dec state with
        | .error e => Steps.throw (.progressMismatch e)
        | .ok () =>
          Steps.mapError .preparing (begin info.header.journalBytes)
          pure (replayed, dec)

end Dhow.StateDirectory
