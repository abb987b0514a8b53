import Dhow.Send
import Dhow.Store

/-!
# Receiving

The receiving command of `cli.go` without a state directory: the manifest is verified, the
decoder is set up from it and fed the frames, the payload is decrypted and extracted beside the
destination, renamed into it, and compared with the signed inventory.
-/

namespace Dhow
open Bytes FileSystem

/-! ### The decoder -/

def dhowDecoderNew (b3 : Blake3) (rq : RaptorQ) (key : Arr 32) (sessionId : Arr 16)
    (salt : Arr 32) (params : DhowSessionParams) : Except EncoderError (PipelineDecoder rq) :=
  match TransferKeys.derive b3 key salt with
  | .error e => .error (.crypt e)
  | .ok keys =>
    match PipelineDecoder.new rq sessionId params.toSessionParams keys.sessionKey with
    | .error e => .error (.codec e)
    | .ok decoder => .ok decoder

inductive FinishError
  | incomplete
  | verificationFailed (e : CodecError)
  | keyFailed (e : AeadError)
  | cryptoFailed (e : AeadError)
  deriving DecidableEq

def dhowDecoderFinish {rq : RaptorQ} (b3 : Blake3) (aead : Aead) (decoder : PipelineDecoder rq)
    (key : Arr 32) (sessionId : Arr 16) (salt : Arr 32) (nonce : Arr 24) :
    Except FinishError Str :=
  if !decoder.isComplete then .error .incomplete
  else
    match decoder.finish b3 with
    | .error e => .error (.verificationFailed e)
    | .ok ciphertext =>
      match TransferKeys.derive b3 key salt with
      | .error e => .error (.keyFailed e)
      | .ok keys =>
        match decryptPayloadInPlace aead keys nonce sessionId ciphertext with
        | .error e => .error (.cryptoFailed e)
        | .ok plaintext => .ok plaintext

/-! ### The manifest -/

/-- What the commands read of a verified manifest. -/
structure Transfer where
  sessionId : Arr 16
  salt : Arr 32
  nonce : Arr 24
  params : DhowSessionParams
  inventory : List InventoryEntry

/-- The parameters that cross the foreign interface. -/
def SessionParams.toDhow (p : SessionParams) : DhowSessionParams where
  payloadSize := p.payloadSize
  blockCount := p.blockCount
  symbolSize := p.symbolSize
  sourceSymbolsPerBlock := p.sourceSymbolsPerBlock
  totalSymbolsPerBlock := p.totalSymbolsPerBlock
  payloadDigest := p.payloadDigest

def manifestFields (m : Manifest) : Transfer where
  sessionId := m.header.sessionId
  salt := m.header.salt
  nonce := m.header.nonce
  params := m.header.params.toDhow
  inventory := m.entries.map fun e => ⟨asBytes e.name, e.size, e.digest, e.executable⟩

/-! ### The command -/

inductive ReconcileError
  | counts (archive manifest : ℕ)
  | name (i : ℕ) (got want : Str)
  | size (name : Str) (got want : ℕ)
  | executable (name : Str)
  deriving DecidableEq

inductive ReceiveError
  | emptyManifest
  | manifest (e : CryptManifestError)
  | startingDecoder (e : EncoderError)
  | noFrames
  | incomplete
  | verifying (e : FinishError)
  | outExists
  | creatingParent (e : FsError Component)
  | staging (e : FsError Component)
  | extracting (e : Pack.PackError)
  | moving (e : FsError Component)
  | reconciling (e : ReconcileError)
  deriving DecidableEq

def readManifest (ed : Ed25519) (signer : ed.PublicIdentity) (raw : Str) :
    Except ReceiveError Manifest :=
  if raw = [] then .error .emptyManifest
  else
    match verifyManifestWith ed signer raw none .default with
    | .error e => .error (.manifest e)
    | .ok verified => .ok verified.manifest

/-- What the manifest says, and the decoder it sets up. -/
def startReceiver (ed : Ed25519) (b3 : Blake3) (rq : RaptorQ) (key : Arr 32)
    (signer : ed.PublicIdentity) (manifest : Str) :
    Except ReceiveError (Transfer × PipelineDecoder rq) :=
  match readManifest ed signer manifest with
  | .error e => .error e
  | .ok m =>
    let transfer := manifestFields m
    match dhowDecoderNew b3 rq key transfer.sessionId transfer.salt transfer.params with
    | .error e => .error (.startingDecoder e)
    | .ok dec => .ok (transfer, dec)

/-- The frame files, in the order they are read. A frame that is not accepted is discarded. -/
def receiveFromFrames {rq : RaptorQ} (b3 : Blake3) (dec : PipelineDecoder rq)
    (frames : List Str) : Except ReceiveError (PipelineDecoder rq) :=
  if frames = [] then .error .noFrames
  else .ok (frames.foldl (fun dec frame => (decoderAccept b3 dec frame).2) dec)

/-- What `os.MkdirTemp` makes of a pattern: the random part stands for its last star, or behind
it where it has none. -/
def tempName (pattern random : Str) : Str :=
  match pattern.reverse.dropWhile (· ≠ 0x2A) with
  | [] => pattern ++ random
  | _ :: before => before.reverse ++ (random ++ (pattern.reverse.takeWhile (· ≠ 0x2A)).reverse)

lemma tempName_cases (pattern random : Str) : tempName pattern random = pattern ++ random ∨
    ∃ before after, pattern = before ++ 0x2A :: after ∧
      tempName pattern random = before ++ (random ++ after) := by
  unfold tempName
  split
  · exact .inl rfl
  next star before hdrop =>
    have hstar : star = 0x2A := by
      have h := List.head?_dropWhile_not (· ≠ 0x2A) pattern.reverse
      rw [hdrop] at h
      simpa using h
    have hsplit := List.takeWhile_append_dropWhile (p := (· ≠ 0x2A)) (l := pattern.reverse)
    rw [hdrop, hstar] at hsplit
    refine .inr ⟨before.reverse, _, ?_, rfl⟩
    have hpattern := congrArg List.reverse hsplit
    rw [List.reverse_append, List.reverse_reverse, List.reverse_cons, List.append_assoc] at hpattern
    exact hpattern.symm

lemma length_tempName (pattern random : Str) :
    pattern.length + random.length ≤ (tempName pattern random).length + 1 := by
  rcases tempName_cases pattern random with h | ⟨before, after, hp, h⟩
  · rw [h, List.length_append]
    omega
  · rw [h, hp, List.length_append, List.length_append, List.length_append, List.length_cons]
    omega

lemma IsComponent.tempName {pattern random : Str} (hslash : slash ∉ pattern) (hnul : 0 ∉ pattern)
    (hlen : 2 < pattern.length) (hr : IsComponent random) :
    IsComponent (tempName pattern random) := by
  have hlong : 2 < (Dhow.tempName pattern random).length := by
    have hpos := List.length_pos_of_ne_nil hr.ne_nil
    have hle := length_tempName pattern random
    omega
  have hmem : ∀ b, b ∉ pattern → b ∉ random → b ∉ Dhow.tempName pattern random := by
    intro b hb hb'
    rcases tempName_cases pattern random with h | ⟨before, after, hp, h⟩
    · rw [h]
      simp [hb, hb']
    · rw [hp] at hb
      rw [h]
      simp only [List.mem_append, List.mem_cons, not_or] at hb ⊢
      exact ⟨hb.1, hb', hb.2.2⟩
  refine ⟨?_, hmem _ hslash hr.no_slash, hmem _ hnul hr.no_nul, ?_, ?_⟩
  all_goals
    intro h
    rw [h] at hlong
    revert hlong
    decide

/-- The pattern of the staging directories for a destination. -/
def stagingPattern (base : Str) : Str := dot ++ (base ++ asBytes ".partial-")

lemma asBytes_partial :
    asBytes ".partial-" = [0x2E, 0x70, 0x61, 0x72, 0x74, 0x69, 0x61, 0x6C, 0x2D] := rfl

lemma length_stagingPattern (base : Str) : (stagingPattern base).length = base.length + 10 := by
  simp only [stagingPattern, asBytes_partial, dot, List.length_append, List.length_cons,
    List.length_nil]
  omega

lemma IsComponent.staging {base random : Str} (hslash : slash ∉ base) (hnul : 0 ∉ base)
    (hr : IsComponent random) : IsComponent (Dhow.tempName (stagingPattern base) random) := by
  unfold slash at hslash
  apply IsComponent.tempName _ _ _ hr
  · simp [stagingPattern, asBytes_partial, dot, slash, hslash]
  · simp [stagingPattern, asBytes_partial, dot, hnul]
  · rw [length_stagingPattern]
    omega

/-- What `os.MkdirTemp` names a staging directory, given its random part. -/
def stagingName (base random : Component) : Component :=
  ⟨tempName (stagingPattern base.1) random.1, .staging base.2.no_slash base.2.no_nul random.2⟩

/-- The dataset is unpacked beside `outDir` and renamed into it. -/
def extractAtomically (umask : UInt32) (random : Component) (fs : FileTree) (payload : Str)
    (outDir : Path Component) : Except ReceiveError (List Pack.Entry) × FileTree :=
  match fs.lookup outDir, outDir.getLast? with
  | none, some base =>
    match fs.mkdirAll outDir.dropLast with
    | .error e => (.error (.creatingParent e), fs)
    | .ok fs =>
      let staging := outDir.dropLast ++ [stagingName base random]
      match fs.mkdir staging with
      | .error e => (.error (.staging e), fs)
      | .ok fs =>
        match Pack.extract umask fs payload staging with
        | (.error e, fs) => (.error (.extracting e), fs.removeAll staging)
        | (.ok entries, fs) =>
          match fs.rename staging outDir with
          | .error e => (.error (.moving e), fs.removeAll staging)
          | .ok fs => (.ok entries, fs)
  | _, _ => (.error .outExists, fs)

/-- The positional comparison, from entry `i` on. -/
def reconcileFrom (i : ℕ) : List Pack.Entry → List InventoryEntry → Except ReconcileError Unit
  | got :: extracted, want :: inventory =>
    if got.name ≠ want.name then .error (.name i got.name want.name)
    else if got.size ≠ want.size.toNat then .error (.size got.name got.size want.size.toNat)
    else if got.executable ≠ want.executable then .error (.executable got.name)
    else reconcileFrom (i + 1) extracted inventory
  | _, _ => .ok ()

def reconcile (extracted : List Pack.Entry) (inventory : List InventoryEntry) :
    Except ReconcileError Unit :=
  if extracted.length ≠ inventory.length then
    .error (.counts extracted.length inventory.length)
  else reconcileFrom 0 extracted inventory

/-- What the comparison asks of an entry of the archive and the entry of the inventory in its
place. -/
structure Agrees (got : Pack.Entry) (want : InventoryEntry) : Prop where
  name_eq : got.name = want.name
  size_eq : got.size = want.size.toNat
  executable_eq : got.executable = want.executable

lemma reconcileFrom_eq_ok_iff {i : ℕ} {extracted : List Pack.Entry}
    {inventory : List InventoryEntry} (hlen : extracted.length = inventory.length) :
    reconcileFrom i extracted inventory = .ok () ↔ List.Forall₂ Agrees extracted inventory := by
  induction extracted generalizing i inventory with
  | nil =>
    rw [List.length_nil, eq_comm, List.length_eq_zero_iff] at hlen
    simp [hlen, reconcileFrom]
  | cons got extracted ih =>
    cases inventory with
    | nil => cases hlen
    | cons want inventory =>
      rw [List.forall₂_cons, ← ih (i := i + 1) (Nat.succ.inj hlen), reconcileFrom]
      constructor
      · intro h
        split_ifs at h with h1 h2 h3
        exact ⟨⟨not_not.mp h1, not_not.mp h2, not_not.mp h3⟩, h⟩
      · rintro ⟨⟨h1, h2, h3⟩, h⟩
        rw [if_neg (not_not.mpr h1), if_neg (not_not.mpr h2), if_neg (not_not.mpr h3), h]

/-- The comparison succeeds exactly on lists that agree entry by entry. -/
lemma reconcile_eq_ok_iff {extracted : List Pack.Entry} {inventory : List InventoryEntry} :
    reconcile extracted inventory = .ok () ↔ List.Forall₂ Agrees extracted inventory := by
  unfold reconcile
  split_ifs with hlen
  · constructor
    · intro h
      cases h
    · intro h
      exact absurd h.length_eq hlen
  · exact reconcileFrom_eq_ok_iff (not_not.mp hlen)

/-- What the receiver holds and draws. -/
structure Receiver (ed : Ed25519) where
  key : Arr 32
  signer : ed.PublicIdentity
  umask : UInt32
  random : Component

/-- The received entries or an error, and the file system afterwards. -/
def runRecv {ed : Ed25519} (b3 : Blake3) (aead : Aead) (rq : RaptorQ) (r : Receiver ed)
    (manifest : Str) (frames : List Str) (fs : FileTree) (outDir : Path Component) :
    Except ReceiveError (List Pack.Entry) × FileTree :=
  match startReceiver ed b3 rq r.key r.signer manifest with
  | .error e => (.error e, fs)
  | .ok (transfer, dec) =>
    match receiveFromFrames b3 dec frames with
    | .error e => (.error e, fs)
    | .ok dec =>
      if !dec.isComplete then (.error .incomplete, fs)
      else
        match dhowDecoderFinish b3 aead dec r.key transfer.sessionId transfer.salt
            transfer.nonce with
        | .error e => (.error (.verifying e), fs)
        | .ok payload =>
          match extractAtomically r.umask r.random fs payload outDir with
          | (.error e, fs) => (.error e, fs)
          | (.ok entries, fs) =>
            match reconcile entries transfer.inventory with
            | .error e => (.error (.reconciling e), fs)
            | .ok () => (.ok entries, fs)

end Dhow
