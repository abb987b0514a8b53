import Dhow.Lib.Bytes

/-!
# Errors

The error types of the codec crate. A variant keeps the data its source counterpart carries;
the variants no modelled function raises are left out.
-/

namespace Dhow
open Bytes

inductive ChunkError
  | payloadTooLarge (size max : ℕ)
  | invalidBlockCount (count : ℕ)
  | invalidSymbolSize (size : ℕ)
  | blockIndexOutOfRange (index count : ℕ)
  | symbolIndexOutOfRange (index count : ℕ)
  | truncated (expected actual : ℕ)
  deriving DecidableEq

inductive FrameError
  | invalidMagic (got : Arr 4)
  | unsupportedVersion (version : UInt8)
  | crcMismatch (expected actual : UInt32)
  | truncated (expected actual : ℕ)
  | unknownFrameType (frameType : UInt8)
  | sessionMismatch (expected actual : Arr 16)
  | macVerificationFailed
  | headerTooShort (length : ℕ)
  | reservedFieldNonZero (value : UInt16)
  deriving DecidableEq

inductive SessionError
  | invalidParameters (details : String)
  | digestMismatch
  deriving DecidableEq

def SessionError.toString : SessionError → String
  | invalidParameters details => s!"invalid session parameters: {details}"
  | digestMismatch => "payload digest mismatch"

inductive ResumeError
  | invalidMagic (got : Arr 4)
  | unsupportedVersion (version : UInt8)
  | integrityCheckFailed
  | truncated (expected actual : ℕ)
  | sessionMismatch
  | blockIndexOutOfRange (index : UInt32)
  | invalidSymbolCount (count : UInt32)
  | reservedNotZero (offset : ℕ)
  | heldCountMismatch (declared bitmap : UInt32)
  | trailingBytes (extra : ℕ)
  | journalMismatch (details : String)
  deriving DecidableEq

inductive ManifestError
  | invalidMagic (got : Arr 4)
  | unsupportedVersion (version : UInt8)
  | signatureVerificationFailed
  | crcMismatch
  | truncated (expected actual : ℕ)
  | pathTraversal (name : String)
  | fileNameTooLong (length : ℕ)
  | fileSizeTooLarge (size max : UInt64)
  | invalidFileCount (count : UInt32)
  | sessionMismatch
  | malformed (details : String)
  deriving DecidableEq

inductive FecError
  | invalidSourceBlock (details : String)
  deriving DecidableEq

inductive CodecError
  | chunk (e : ChunkError)
  | frame (e : FrameError)
  | framePayloadTooLarge (length max : ℕ)
  | session (e : SessionError)
  | resume (e : ResumeError)
  | fec (e : FecError)
  deriving DecidableEq

end Dhow
