import Dhow.Rejection

/-!
# Resumable progress

The state directory of a receiver (`resume.go`) and its use in `cli.go`: a journal of the
accepted frames, each behind its length, and an index over a prefix of it. A restart replays the
covered prefix into a new decoder, checks the decoder against the index and cuts the journal
there; a running receiver appends every accepted frame and saves the index now and then.
-/

namespace Dhow
open Bytes

def maxRecord : ℕ := 2 ^ 20
def recordPrefix : ℕ := 4

/-- A frame as the journal holds it. -/
def journalRecord (frame : Str) : Str := u32le (UInt32.ofNat frame.length) ++ frame

inductive StoreError
  | noJournal
  | journalShorter (size covered : ℕ)
  | recordCutShort (offset : ℕ)
  | headerUnreadable (offset : ℕ)
  | recordDeclares (offset length : ℕ)
  | recordRunsPast (offset : ℕ)
  | recordUnreadable (offset : ℕ)
  | replaying (offset : ℕ) (status : DhowStatus)
  | journalNotOpen
  | frameRefused (length : ℕ)
  | emptyState
  deriving DecidableEq

inductive RecvError
  | stateUnusable (e : ResumeError)
  | foreignSession (saved current : Arr 16)
  | replaying (e : StoreError)
  | progressMismatch (e : CodecError)
  | recording (e : StoreError)
  | saving (e : StoreError)
  deriving DecidableEq

/-- An index file, beside the decoder and the journal length it was written for. Only its bytes
are ever read. -/
structure Index (rq : RaptorQ) (b3 : Blake3) where
  decoder : PipelineDecoder rq
  covered : UInt64
  bytes : Str
  bytes_eq : bytes = (decoder.resumeState b3 covered).toVec

/-- A state directory. -/
structure Disk (rq : RaptorQ) (b3 : Blake3) where
  journal : Option Str
  index : Option (Index rq b3)

/-- A state directory in use: the index as it was read, whether the journal is open for
appending, and its length. -/
structure Store (rq : RaptorQ) (b3 : Blake3) extends Disk rq b3 where
  state : Str
  journalOpen : Bool
  written : UInt64

/-- `Decoder.Accept` of the Go bindings. -/
def decoderAccept {rq : RaptorQ} (b3 : Blake3) (d : PipelineDecoder rq) (frame : Str) :
    DhowStatus × PipelineDecoder rq :=
  if frame = [] then (.frameRejected, d) else d.dhowDecoderAccept b3 frame

/-- `Decoder.VerifyResume` of the Go bindings. -/
def decoderVerifyResume {rq : RaptorQ} (b3 : Blake3) (d : PipelineDecoder rq) (state : Str) :
    Except CodecError Unit :=
  match ResumeFile.fromBytes b3 state with
  | .error e => .error (.resume e)
  | .ok file => d.verifyResume file

/-- A file cut to `n` bytes, or filled up to them. -/
def truncate (file : Str) (n : ℕ) : Str := file.take n ++ List.replicate (n - file.length) 0

namespace Store
variable {rq : RaptorQ} {b3 : Blake3}

def openDir (disk : Disk rq b3) : Store rq b3 where
  toDisk := disk
  state := (disk.index.map Index.bytes).getD []
  journalOpen := false
  written := 0

/-- The replay loop at `offset`, with `count` frames handed over. -/
def replayFrom {σ : Type} (journal : Str) (limit : ℕ) (fn : σ → Str → DhowStatus × σ)
    (offset count : ℕ) (s : σ) : Except StoreError (ℕ × σ) :=
  if _hlt : offset < limit then
    if limit - offset < recordPrefix then .error (.recordCutShort offset)
    else if journal.length < offset + recordPrefix then .error (.headerUnreadable offset)
    else
      let length := (u32At journal offset).toNat
      if length = 0 ∨ maxRecord < length then .error (.recordDeclares offset length)
      else if limit - offset - recordPrefix < length then .error (.recordRunsPast offset)
      else if journal.length < offset + recordPrefix + length then
        .error (.recordUnreadable offset)
      else
        match fn s (slice journal (offset + recordPrefix) length) with
        | (.ok, s) => replayFrom journal limit fn (offset + recordPrefix + length) (count + 1) s
        | (status, _) => .error (.replaying offset status)
  else .ok (count, s)
  termination_by limit - offset
  decreasing_by
    unfold recordPrefix
    omega

/-- `Replay`: the frames of the journal's first `limit` bytes, in order. -/
def replay {σ : Type} (store : Store rq b3) (limit : UInt64) (fn : σ → Str → DhowStatus × σ)
    (s : σ) : Except StoreError (ℕ × σ) :=
  match store.journal with
  | none => .error .noJournal
  | some journal =>
    if journal.length < limit.toNat then .error (.journalShorter journal.length limit.toNat)
    else replayFrom journal limit.toNat fn 0 0 s

/-- `Begin`: the journal cut to what is covered, and open for appending there. -/
def begin (store : Store rq b3) (covered : UInt64) : Store rq b3 :=
  { store with
    journal := some (truncate (store.journal.getD []) covered.toNat)
    journalOpen := true
    written := covered }

def append (store : Store rq b3) (frame : Str) : Except StoreError (Store rq b3) :=
  if !store.journalOpen then .error .journalNotOpen
  else if frame = [] ∨ maxRecord < frame.length then .error (.frameRefused frame.length)
  else
    .ok { store with
      journal := store.journal.map (· ++ journalRecord frame)
      written := store.written + UInt64.ofNat (journalRecord frame).length }

/-- `Save`: the new index replaces the old one. -/
def save (store : Store rq b3) (index : Index rq b3) : Except StoreError (Store rq b3) :=
  if index.bytes = [] then .error .emptyState
  else .ok { store with index := some index, state := index.bytes }

end Store

section Receiver
variable {rq : RaptorQ} {b3 : Blake3}

/-- The store, the number of frames replayed and the decoder they were replayed into. -/
def restoreProgress (disk : Disk rq b3) (sessionId : Arr 16) (dec : PipelineDecoder rq) :
    Except RecvError (Store rq b3 × ℕ × PipelineDecoder rq) :=
  let store := Store.openDir disk
  if store.state = [] then .ok (store.begin 0, 0, dec)
  else
    match ResumeFile.fromBytes b3 store.state with
    | .error e => .error (.stateUnusable e)
    | .ok info =>
      if info.header.sessionId ≠ sessionId then
        .error (.foreignSession info.header.sessionId sessionId)
      else
        match store.replay info.header.journalBytes (decoderAccept b3) dec with
        | .error e => .error (.replaying e)
        | .ok (replayed, dec) =>
          match decoderVerifyResume b3 dec store.state with
          | .error e => .error (.progressMismatch e)
          | .ok () => .ok (store.begin info.header.journalBytes, replayed, dec)

def saveProgress (store : Store rq b3) (dec : PipelineDecoder rq) :
    Except RecvError (Store rq b3) :=
  match store.save ⟨dec, store.written, (dec.resumeState b3 store.written).toVec, rfl⟩ with
  | .error e => .error (.saving e)
  | .ok store => .ok store

/-- `frameSink` with a state directory. -/
structure FrameSink (rq : RaptorQ) (b3 : Blake3) where
  dec : PipelineDecoder rq
  store : Store rq b3
  saveEvery : ℕ
  accepted : ℕ
  rejected : ℕ
  saveEvery_pos : 0 < saveEvery

namespace FrameSink

/-- The first half of `apply`: an accepted frame goes to the journal. -/
def take (s : FrameSink rq b3) (frame : Str) : Except RecvError (Bool × FrameSink rq b3) :=
  match decoderAccept b3 s.dec frame with
  | (.ok, dec) =>
    match s.store.append frame with
    | .error e => .error (.recording e)
    | .ok store => .ok (true, { s with dec := dec, store := store, accepted := s.accepted + 1 })
  | (_, dec) => .ok (false, { s with dec := dec, rejected := s.rejected + 1 })

/-- The index of the moment is saved. -/
def save (s : FrameSink rq b3) : Except RecvError (FrameSink rq b3) :=
  match saveProgress s.store s.dec with
  | .error e => .error e
  | .ok store => .ok { s with store := store }

def apply (s : FrameSink rq b3) (frame : Str) : Except RecvError (Bool × FrameSink rq b3) :=
  match s.take frame with
  | .error e => .error e
  | .ok (false, s) => .ok (false, s)
  | .ok (true, s) =>
    if s.accepted % s.saveEvery = 0 then
      match s.save with
      | .error e => .error e
      | .ok s => .ok (true, s)
    else .ok (true, s)

end FrameSink
end Receiver

end Dhow
