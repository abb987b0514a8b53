import Dhow.Encryption
import Dhow.ManifestVerify
import Dhow.Pack
import Dhow.Pipeline
import Mathlib.Data.UInt

/-!
# Sending

The sending command of `cli.go` and the two calls of the foreign interface it makes: a directory
is packed, the coding parameters are planned, the archive is encrypted and framed, and what a
receiver needs is signed.
-/

namespace Dhow
open Bytes FileSystem

/-- The session parameters as they cross the foreign interface. -/
structure DhowSessionParams where
  payloadSize : UInt64
  blockCount : UInt32
  symbolSize : UInt32
  sourceSymbolsPerBlock : UInt32
  totalSymbolsPerBlock : UInt32
  payloadDigest : Arr 32
  deriving DecidableEq

/-- RaptorQ's own parameters are not part of the interface. -/
def DhowSessionParams.toSessionParams (p : DhowSessionParams) : SessionParams where
  payloadSize := p.payloadSize
  blockCount := p.blockCount
  symbolSize := p.symbolSize
  sourceSymbolsPerBlock := p.sourceSymbolsPerBlock
  totalSymbolsPerBlock := p.totalSymbolsPerBlock
  raptorq := ⟨1, 1, 1⟩
  payloadDigest := p.payloadDigest

def planSession (payloadLen symbolSize blocks overheadPct : ℕ) :
    Except String DhowSessionParams :=
  if symbolSize < 64 ∨ 65531 < symbolSize then
    .error s!"-symbol-size must be between 64 and 65531, got {symbolSize}"
  else if blocks = 0 ∨ 1024 < blocks then
    .error s!"-blocks must be between 1 and 1024, got {blocks}"
  else if 500 < overheadPct then .error s!"-overhead must be at most 500, got {overheadPct}"
  else
    let ciphertextLen := payloadLen + 16
    let perBlock := (ciphertextLen + blocks - 1) / blocks
    let source := (perBlock + symbolSize - 1) / symbolSize
    let source := if source = 0 then 1 else source
    let repair := source * overheadPct / 100 + 4
    .ok
      { payloadSize := UInt64.ofNat ciphertextLen
        blockCount := UInt32.ofNat blocks
        symbolSize := UInt32.ofNat symbolSize
        sourceSymbolsPerBlock := UInt32.ofNat source
        totalSymbolsPerBlock := UInt32.ofNat (source + repair)
        payloadDigest := zeros 32 }

/-! ### The encoder -/

inductive EncoderError
  | crypt (e : AeadError)
  | codec (e : CodecError)
  deriving DecidableEq

structure DhowEncoder where
  frames : List Str
  params : DhowSessionParams

section Encoder
variable (b3 : Blake3) (aead : Aead) (rq : RaptorQ) (key : Arr 32) (sessionId : Arr 16)
  (salt : Arr 32) (nonce : Arr 24) (paramsIn : DhowSessionParams) (payload : Str)

/-- The parameters that describe a ciphertext. -/
def DhowSessionParams.resolved (paramsIn : DhowSessionParams) (ciphertext : Str) :
    DhowSessionParams :=
  { paramsIn with
    payloadSize := UInt64.ofNat ciphertext.length
    payloadDigest := blake3Digest b3 ciphertext }

/-- `dhow_encoder_new` up to its pipeline, with the ciphertext to be framed. -/
def encoderSession : Except EncoderError (Pipeline × Str) :=
  match TransferKeys.derive b3 key salt with
  | .error e => .error (.crypt e)
  | .ok keys =>
    match encryptPayload aead keys nonce sessionId payload with
    | .error e => .error (.crypt e)
    | .ok ciphertext =>
      match Pipeline.new sessionId (paramsIn.resolved b3 ciphertext).toSessionParams
          keys.sessionKey with
      | .error e => .error (.codec e)
      | .ok pipeline => .ok (pipeline, ciphertext)

def dhowEncoderNew : Except EncoderError DhowEncoder :=
  match encoderSession b3 aead key sessionId salt nonce paramsIn payload with
  | .error e => .error e
  | .ok (pipeline, ciphertext) =>
    match pipeline.encodeToBytes b3 rq ciphertext with
    | .error e => .error (.codec e)
    | .ok frames => .ok ⟨frames, paramsIn.resolved b3 ciphertext⟩

end Encoder

/-! ### The manifest -/

/-- A file of the inventory, on the caller's side of the foreign interface. -/
structure InventoryEntry where
  name : Str
  size : UInt64
  digest : Arr 32
  executable : Bool
  deriving DecidableEq

inductive ManifestBuildError
  | invalidUtf8 (i : ℕ)
  | invalidName (i : ℕ) (e : ManifestError)
  | parseBack (e : ManifestError)
  deriving DecidableEq

structure DhowManifest where
  manifest : Manifest
  bytes : Str

/-- The bytes a C string holds of a string: those before the first NUL. -/
def cString (s : Str) : Str := s.takeWhile (· ≠ 0)

def entryFrom (e : InventoryEntry × ℕ) : Except ManifestBuildError FileEntry :=
  match fromUtf8 (cString e.1.name) with
  | none => .error (.invalidUtf8 e.2)
  | some name =>
    match validateName name with
    | .error err => .error (.invalidName e.2 err)
    | .ok () => .ok ⟨name, e.1.size, e.1.digest, e.1.executable⟩

def entriesFrom (entries : List InventoryEntry) : Except ManifestBuildError (List FileEntry) :=
  entries.zipIdx.mapM entryFrom

/-- The manifest before it is signed. -/
def unsignedManifest (sessionId : Arr 16) (salt : Arr 32) (nonce : Arr 24)
    (params : DhowSessionParams) (entries : List FileEntry) : Manifest :=
  let total := (entries.map FileEntry.size).sum
  let header := ManifestHeader.new sessionId entries total salt nonce params.toSessionParams
  Manifest.build header entries (zeros 64)

def dhowManifestBuild (ed : Ed25519) (identity : ed.IdentityKey) (sessionId : Arr 16)
    (salt : Arr 32) (nonce : Arr 24) (params : DhowSessionParams)
    (inventory : List InventoryEntry) : Except ManifestBuildError DhowManifest :=
  match entriesFrom inventory with
  | .error e => .error e
  | .ok entries =>
    let bytes := signManifest ed identity (unsignedManifest sessionId salt nonce params entries)
    match Manifest.fromBytes bytes with
    | .error e => .error (.parseBack e)
    | .ok manifest => .ok ⟨manifest, bytes⟩

/-! ### The command -/

/-- The flags of the command that shape the frames. -/
structure SendFlags where
  symbolSize : ℕ
  blocks : ℕ
  overheadPct : ℕ

/-- What the sender holds and draws for a transfer. -/
structure Sender (ed : Ed25519) where
  key : Arr 32
  identity : ed.IdentityKey
  sessionId : Arr 16
  salt : Arr 32
  nonce : Arr 24

inductive SendError
  | reading
  | notDirectory
  | packing (e : Pack.PackError)
  | planning (e : String)
  | building (e : EncoderError)
  | signing (e : ManifestBuildError)

/-- The frame files and the manifest file. -/
structure Sent where
  frames : List Str
  manifest : Str

def inventoryOf (entries : List Pack.Entry) : List InventoryEntry :=
  entries.map fun e => ⟨e.name, UInt64.ofNat e.size, e.digest, e.executable⟩

def runSend {ed : Ed25519} (b3 : Blake3) (aead : Aead) (rq : RaptorQ) (s : Sender ed)
    (flags : SendFlags) (fs : FileTree) (root : Path Component) : Except SendError Sent :=
  match fs.lookup root with
  | none => .error .reading
  | some (.file _) | some .irregular => .error .notDirectory
  | some .dir =>
    match Pack.create b3 fs root with
    | .error e => .error (.packing e)
    | .ok (payload, entries) =>
      match planSession payload.length flags.symbolSize flags.blocks flags.overheadPct with
      | .error e => .error (.planning e)
      | .ok params =>
        match dhowEncoderNew b3 aead rq s.key s.sessionId s.salt s.nonce params payload with
        | .error e => .error (.building e)
        | .ok encoder =>
          match dhowManifestBuild ed s.identity s.sessionId s.salt s.nonce encoder.params
              (inventoryOf entries) with
          | .error e => .error (.signing e)
          | .ok manifest => .ok ⟨encoder.frames, manifest.bytes⟩

end Dhow
