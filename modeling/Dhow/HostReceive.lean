import Dhow.HostStore
import Dhow.Partition

/-!
# The receiving command call by call

`recv` of `cli.go` with all the system calls it makes, each of which may fail: the manifest, the
state directory, frames from files or from captured images, the extraction, the comparison with
the inventory, and the end of the state directory.
-/

namespace Dhow.Host
open Bytes FileSystem

inductive RunError
  | reading (e : OsError)
  | starting (e : ReceiveError)
  | progress (e : ProgressError)
  | noFrames
  | incomplete
  | verifying (e : FinishError)
  | extraction (e : ExtractError)
  | reconciling (e : ReconcileError)
  | clearing (e : StoreFailure)

def exitInput : ℕ := 2
def exitVerifyFailed : ℕ := 3
def exitIncomplete : ℕ := 4

def RunError.exitCode : RunError → ℕ
  | .starting .emptyManifest | .starting (.manifest _) => exitVerifyFailed
  | .incomplete | .verifying .incomplete => exitIncomplete
  | .verifying _ | .extraction (.extracting _) | .reconciling _ => exitVerifyFailed
  | _ => exitInput

/-- Where the frames come from: files that are read in order, or images, of which the reader
hands on these frames. -/
inductive Source
  | files (frames : List Str)
  | images (frames : List Str)

/-- The flags of the command and what it runs in. The operator stops it after `interrupt`
frames, if at all. -/
structure Command (ed : Ed25519) extends Receiver ed where
  cwd : Path Component
  outDir : Str
  stateDir : Str
  saveEvery : ℕ
  stopAfter : ℕ
  keepState : Bool
  source : Source
  interrupt : Option ℕ
  saveEvery_pos : 0 < saveEvery

/-- The loop over the frames, and whether it was stopped. -/
def deliver {rq : RaptorQ} (b3 : Blake3) : Option ℕ → FrameSink rq → List Str →
    Os RunError (Bool × FrameSink rq)
  | _, sink, [] => pure (false, sink)
  | some 0, sink, _ => pure (true, sink)
  | interrupt, sink, frame :: frames => do
    Sys.mapError .reading Sys.settle
    let (verdict, sink) ← Sys.mapError .progress (sink.apply b3 frame)
    if verdict = .stop then pure (true, sink)
    else deliver b3 (interrupt.map (· - 1)) sink frames

def receive {rq : RaptorQ} (b3 : Blake3) (interrupt : Option ℕ) (sink : FrameSink rq) :
    Source → Os RunError (Bool × FrameSink rq)
  | .files [] => Sys.throw .noFrames
  | .files frames | .images frames => deliver b3 interrupt sink frames

/-- What the decoder holds once the frames are in, decrypted. -/
def finish {rq : RaptorQ} (b3 : Blake3) (aead : Aead) (key : Arr 32) (transfer : Transfer)
    (dec : PipelineDecoder rq) : Except RunError Str :=
  if !dec.isComplete then .error .incomplete
  else
    match dhowDecoderFinish b3 aead dec key transfer.sessionId transfer.salt transfer.nonce with
    | .error e => .error (.verifying e)
    | .ok payload => .ok payload

/-- The saved progress of a sink with a store. -/
def saveSink {rq : RaptorQ} (b3 : Blake3) (sink : FrameSink rq) : Os RunError Unit :=
  match sink.store with
  | none => pure ()
  | some store => do
    let _ ← Sys.mapError .progress (saveProgress b3 store sink.dec)
    pure ()

/-- The state directory has done its job. -/
def clear (keepState : Bool) (store : Option Store) : Os RunError Unit :=
  match store with
  | none => pure ()
  | some store => if keepState then pure () else Sys.mapError .clearing store.discard

def runRecv {ed : Ed25519} (b3 : Blake3) (aead : Aead) (rq : RaptorQ) (c : Command ed)
    (manifest : Str) : Os RunError (List Pack.Entry) := do
  -- The manifest, the signer's identity and the key are read.
  Sys.mapError .reading Sys.settle
  match startReceiver ed b3 rq c.key c.signer manifest with
  | .error e => Sys.throw (.starting e)
  | .ok (transfer, dec) => do
    let (store, _, dec) ← Sys.mapError .progress
      (restoreProgress b3 c.umask c.cwd c.stateDir transfer.sessionId dec)
    let (_, sink) ← receive b3 c.interrupt ⟨dec, store, c.saveEvery, c.stopAfter, 0, 0,
      c.saveEvery_pos⟩ c.source
    saveSink b3 sink
    let payload ← Sys.lift (finish b3 aead c.key transfer sink.dec)
    let entries ← Sys.mapError .extraction
      (extractAtomically c.umask c.random c.cwd payload c.outDir)
    match reconcile entries transfer.inventory with
    | .error e => Sys.throw (.reconciling e)
    | .ok () => do
      clear c.keepState sink.store
      pure entries

/-! ### No output -/

section NoOutput
variable {ed : Ed25519} {b3 : Blake3} {aead : Aead} {rq : RaptorQ} {out : Path Component}

/-- Nothing is where `-out` is. -/
def Command.OutAbsent (c : Command ed) (fs : FileTree) : Prop :=
  ∀ out, named c.cwd c.outDir = some out → fs.lookup out = none

/-- The errors of a failed receive: exit code 3 or 4, or an error from the extraction, the final
rename or the comparison with the inventory. -/
def RunError.Failed (e : RunError) : Prop :=
  e.exitCode = exitVerifyFailed ∨ e.exitCode = exitIncomplete ∨ (∃ e', e = .extraction e') ∨
    ∃ e', e = .reconciling e'

/-- An archive that the digest of the manifest stands for. -/
def SignedArchive (b3 : Blake3) (aead : Aead) (key : Arr 32) (transfer : Transfer)
    (payload : Str) : Prop :=
  ∃ ciphertext keys, ciphertext.length = transfer.params.payloadSize.toNat ∧
    blake3Digest b3 ciphertext = transfer.params.payloadDigest ∧
    TransferKeys.derive b3 key transfer.salt = .ok keys ∧
    decryptPayloadInPlace aead keys transfer.nonce transfer.sessionId ciphertext = .ok payload

/-- The receiver starts on the manifest, and what it extracts is to be at `out`, which the working
directory is not in. -/
structure Command.Aims (b3 : Blake3) (rq : RaptorQ) (c : Command ed) (manifest : Str)
    (transfer : Transfer) (out : Path Component) : Prop where
  starts : ∃ dec : PipelineDecoder rq,
    startReceiver ed b3 rq c.key c.signer manifest = .ok (transfer, dec)
  named : named c.cwd c.outDir = some out
  outside : ¬out <+: c.cwd

/-- The state directory leaves nothing at `-out`; if there is an archive that the manifest stands
for, `-out` ends in a name; and such an archive, if it can be extracted and renamed, has the entries
of the inventory. -/
structure Command.Sound (b3 : Blake3) (aead : Aead) (rq : RaptorQ) (c : Command ed)
    (manifest : Str) : Prop where
  state : ∀ transfer out, c.Aims b3 rq manifest transfer out → c.stateDir ≠ [] →
    StateApart out c.cwd c.stateDir
  name : ∀ transfer out payload, c.Aims b3 rq manifest transfer out →
    SignedArchive b3 aead c.key transfer payload → IsComponent (lastPart c.outDir)
  archives : ∀ transfer out payload items, c.Aims b3 rq manifest transfer out →
    SignedArchive b3 aead c.key transfer payload → Pack.Extractable payload →
    Straight c.cwd c.outDir out → Pack.parse payload = .ok items →
    List.Forall₂ Agrees (items.map Prod.fst) transfer.inventory

/-- Nothing is at `out` after a failed receive. -/
def NoOutput (out : Path Component) (e : RunError) (fs : FileTree) : Prop :=
  e.Failed → Sys.Absent out fs

lemma noOutput {α : Type} {P : FileTree → Prop} {Q : α → FileTree → Prop} {m : Os RunError α}
    (h : Sys.Ensures P m Q fun _ => Sys.Absent out) : Sys.Ensures P m Q (NoOutput out) :=
  h.weaken (fun _ h => h) (fun _ _ h => h) fun _ _ hfs _ => hfs

lemma RunError.not_failed_progress (e : ProgressError) : ¬(RunError.progress e).Failed := by
  rintro (h | h | ⟨_, h⟩ | ⟨_, h⟩) <;> cases h

lemma RunError.not_failed_clearing (e : StoreFailure) : ¬(RunError.clearing e).Failed := by
  rintro (h | h | ⟨_, h⟩ | ⟨_, h⟩) <;> cases h

/-- What is wrong with the state directory is not among the failures. -/
lemma noOutput_progress {α : Type} {P : FileTree → Prop} {Q : α → FileTree → Prop}
    {m : Os ProgressError α} (h : Sys.Ensures P m Q fun _ _ => True) :
    Sys.Ensures P (Sys.mapError RunError.progress m) Q (NoOutput out) :=
  .mapError (h.weaken (fun _ h => h) (fun _ _ h => h) fun e _ _ he =>
    absurd he (RunError.not_failed_progress e))

/-- The frames leave the sink in its session. -/
lemma ensures_deliver {p : Pipeline} {interrupt : Option ℕ} {sink : FrameSink rq}
    {frames : List Str} (hs : InSession out p sink.store sink.dec) :
    Sys.Ensures (Sys.Absent out) (deliver b3 interrupt sink frames)
      (fun r fs => InSession out p r.2.store r.2.dec ∧ Sys.Absent out fs) (NoOutput out) := by
  induction frames generalizing interrupt sink with
  | nil => exact .pure fun _ hfs => ⟨hs, hfs⟩
  | cons frame frames ih =>
    have hstep : Sys.Ensures (Sys.Absent out) (do
        Sys.mapError .reading Sys.settle
        let (verdict, sink) ← Sys.mapError .progress (sink.apply b3 frame)
        if verdict = .stop then pure (true, sink)
        else deliver b3 (interrupt.map (· - 1)) sink frames)
        (fun r fs => InSession out p r.2.store r.2.dec ∧ Sys.Absent out fs) (NoOutput out) := by
      refine .bind (noOutput (.mapError .query)) fun _ =>
        .bind (noOutput_progress (ensures_apply hs)) fun r => .of_and fun hsink => ?_
      obtain ⟨verdict, sink⟩ := r
      dsimp only
      split_ifs
      · exact .pure fun _ hfs => ⟨hsink, hfs⟩
      · exact ih hsink
    rcases interrupt with _ | _ | n
    · exact hstep
    · exact .pure fun _ hfs => ⟨hs, hfs⟩
    · exact hstep

lemma ensures_receive {p : Pipeline} {interrupt : Option ℕ} {sink : FrameSink rq}
    {source : Source} (hs : InSession out p sink.store sink.dec) :
    Sys.Ensures (Sys.Absent out) (receive b3 interrupt sink source)
      (fun r fs => InSession out p r.2.store r.2.dec ∧ Sys.Absent out fs) (NoOutput out) := by
  unfold receive
  split
  · exact .throw fun _ hfs _ => hfs
  · exact ensures_deliver hs
  · exact ensures_deliver hs

lemma ensures_saveSink {p : Pipeline} {sink : FrameSink rq}
    (hs : InSession out p sink.store sink.dec) :
    Sys.Ensures (Sys.Absent out) (saveSink b3 sink) (fun _ => Sys.Absent out) (NoOutput out) := by
  unfold saveSink
  split
  · exact .pure fun _ hfs => hfs
  next store hstore =>
    exact .bind (noOutput_progress (ensures_saveProgress.weaken
      (fun _ hfs => ⟨hs.apart store hstore, hfs⟩) (fun _ _ h => h) fun _ _ h => h))
      fun _ => .pure fun _ h => h.2

lemma length_of_finish {dec : PipelineDecoder rq} {payload : Str}
    (h : dec.finish b3 = .ok payload) : payload.length = dec.params.payloadSize.toNat := by
  unfold PipelineDecoder.finish at h
  split at h
  · cases h
  · split at h
    · cases h
    next hr =>
      split_ifs at h
      cases h
      rw [dec.chunkMap.length_of_reassemble hr, dec.chunkMap_params.1]

/-- The stages of what the decoder finishes with. -/
lemma stages_of_finish {transfer : Transfer} {key : Arr 32} {dec : PipelineDecoder rq}
    {payload : Str} (h : finish b3 aead key transfer dec = .ok payload) :
    ∃ ciphertext keys, dec.finish b3 = .ok ciphertext ∧
      TransferKeys.derive b3 key transfer.salt = .ok keys ∧
      decryptPayloadInPlace aead keys transfer.nonce transfer.sessionId ciphertext =
        .ok payload := by
  unfold finish dhowDecoderFinish at h
  by_cases hcomplete : !dec.isComplete
  · rw [if_pos hcomplete] at h
    cases h
  rw [if_neg hcomplete, if_neg hcomplete] at h
  cases hd : dec.finish b3 with
  | error e => simp [hd] at h
  | ok ciphertext =>
    cases hk : TransferKeys.derive b3 key transfer.salt with
    | error e => simp [hd, hk] at h
    | ok keys =>
      cases hp : decryptPayloadInPlace aead keys transfer.nonce transfer.sessionId ciphertext with
      | error e => simp [hd, hk, hp] at h
      | ok plaintext =>
        simp only [hd, hk, hp, Except.ok.injEq] at h
        exact ⟨ciphertext, keys, rfl, rfl, h ▸ hp⟩

/-- What the decoder finishes with is an archive that the digest of the manifest stands for. -/
lemma signed_of_finish {transfer : Transfer} {key : Arr 32} {dec : PipelineDecoder rq}
    {payload : Str} (hparams : dec.params = transfer.params.toSessionParams)
    (hfinish : finish b3 aead key transfer dec = .ok payload) :
    SignedArchive b3 aead key transfer payload := by
  obtain ⟨ciphertext, keys, hd, hk, hp⟩ := stages_of_finish hfinish
  have hlen := length_of_finish hd
  have hdigest := (PipelineDecoder.of_finish_eq_ok hd).2
  rw [hparams] at hlen hdigest
  exact ⟨ciphertext, keys, hlen, hdigest, hk, hp⟩

/-- A receiver starts with a decoder that holds nothing. -/
lemma of_startReceiver {key : Arr 32} {signer : ed.PublicIdentity} {manifest : Str}
    {transfer : Transfer} {dec : PipelineDecoder rq}
    (h : startReceiver ed b3 rq key signer manifest = .ok (transfer, dec)) :
    ∃ p : Pipeline, dec = .start rq p ∧ p.params = transfer.params.toSessionParams := by
  unfold startReceiver dhowDecoderNew at h
  split at h
  · cases h
  next m _ =>
    dsimp only at h
    cases hk : TransferKeys.derive b3 key (manifestFields m).salt with
    | error e => simp [hk] at h
    | ok keys =>
      cases hd : PipelineDecoder.new rq (manifestFields m).sessionId
        (manifestFields m).params.toSessionParams keys.sessionKey with
      | error e => simp [hk, hd] at h
      | ok d =>
        simp only [hk, hd, Except.ok.injEq, Prod.mk.injEq] at h
        obtain ⟨rfl, rfl⟩ := h
        obtain ⟨hstart, hnew⟩ := PipelineDecoder.new_eq_ok hd
        exact ⟨_, hstart, (Pipeline.new_eq_ok hnew).2.1⟩

lemma ensures_clear {keepState : Bool} {store : Option Store} {P : FileTree → Prop} :
    Sys.Ensures P (clear keepState store) (fun _ _ => True) (NoOutput out) := by
  unfold clear
  split
  · exact .pure fun _ _ => trivial
  · split_ifs
    · exact .pure fun _ _ => trivial
    · exact .mapError (Sys.Ensures.any.weaken (fun _ _ => trivial) (fun _ _ h => h)
        fun e _ _ he => absurd he (RunError.not_failed_clearing e))

/-- Whatever fails, `-out` is not there after a failed receive. -/
lemma ensures_runRecv {c : Command ed} {manifest : Str} (hout : named c.cwd c.outDir = some out)
    (houtside : ¬out <+: c.cwd) (h : c.Sound b3 aead rq manifest) :
    Sys.Ensures (Sys.Absent out) (runRecv b3 aead rq c manifest) (fun _ _ => True)
      (NoOutput out) := by
  refine .bind (noOutput (.mapError .query)) fun _ => ?_
  split
  · exact .throw fun _ hfs _ => hfs
  next transfer dec hstart =>
    have haims : c.Aims b3 rq manifest transfer out := ⟨⟨dec, hstart⟩, hout, houtside⟩
    refine .bind (noOutput_progress (ensures_restoreProgress (h.state transfer out haims)))
      fun r => .of_and fun hs => ?_
    obtain ⟨store, resumed, dec'⟩ := r
    refine .bind (ensures_receive hs) fun r => .of_and fun hsink => ?_
    obtain ⟨stopped, sink⟩ := r
    refine .bind (ensures_saveSink hsink) fun _ => ?_
    refine .bind (R := fun payload fs => finish b3 aead c.key transfer sink.dec = .ok payload ∧
      Sys.Absent out fs) (.lift (fun _ hok _ hfs => ⟨hok, hfs⟩) fun _ _ _ hfs _ => hfs)
      fun payload => .of_and fun hfinish => ?_
    have hparams : sink.dec.params = transfer.params.toSessionParams := by
      obtain ⟨p, rfl, hp⟩ := of_startReceiver hstart
      rw [hsink.toPipeline_eq]
      exact hp
    have hsigned := signed_of_finish hparams hfinish
    refine .bind (noOutput (.mapError (ensures_extractAtomically
      (h.name transfer out payload haims hsigned) hout))) fun entries => ?_
    rintro w ⟨⟨hextractable, items, hparse, hentries⟩, hstraight⟩
    have hreconcile := reconcile_eq_ok_iff.mpr
      (h.archives transfer out payload items haims hsigned hextractable hstraight hparse)
    rw [hentries, hreconcile]
    have hclear : Sys.Ensures (fun _ => True) (do
        clear c.keepState sink.store
        pure (items.map Prod.fst)) (fun _ _ => True) (NoOutput out) :=
      .bind ensures_clear fun _ => .pure fun _ _ => trivial
    exact hclear w trivial

end NoOutput
end Dhow.Host
