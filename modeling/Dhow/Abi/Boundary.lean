import Dhow.Lib.Checked
import Dhow.Lib.Bytes

/-!
# The foreign interface

What crosses the C interface beside the data: the status of a call, the description of the last
failure that each thread of the core keeps (`error.rs`), the panics that become a status
(`guard.rs`), the convention by which a caller learns the size of an output before it hands over a
buffer, and what the Go side makes of all these (`ffi.go`).
-/

namespace Dhow.Abi
open Bytes Checked

inductive DhowStatus
  | nullArgument
  | invalidArgument
  | bufferTooSmall
  | invalidParameters
  | frameRejected
  | incomplete
  | verificationFailed
  | cryptoFailed
  | keyFailed
  | internal
  | panic
  | resumeRejected
  deriving DecidableEq

/-- `dhow_status_string` of a failure. -/
def DhowStatus.toString : DhowStatus → String
  | nullArgument => "null argument"
  | invalidArgument => "invalid argument"
  | bufferTooSmall => "buffer too small"
  | invalidParameters => "invalid session parameters"
  | frameRejected => "frame rejected"
  | incomplete => "incomplete"
  | verificationFailed => "verification failed"
  | cryptoFailed => "crypto operation failed"
  | keyFailed => "key operation failed"
  | internal => "internal error"
  | panic => "panic caught at ABI boundary"
  | resumeRejected => "resume state rejected"

/-- The description a thread keeps of its last failure. -/
abbrev LastError : Type := String

/-- A call, given what its thread keeps. -/
abbrev CoreCall (α : Type) : Type := LastError → Except DhowStatus α × LastError

def panicText : String :=
  "internal error: a panic was caught at the ABI boundary; this is a bug in dhow"

/-- `guard` around a body that begins with `clear_last_error` and fails with a status and a
description of it. -/
def guard {α : Type} (body : Checked (DhowStatus × String) α) : CoreCall α := fun _ =>
  match body with
  | .ok a => (.ok a, "")
  | .error (.fail (status, message)) => (.error status, message)
  | .error (.panic _) => (.error .panic, panicText)

/-- An output of `data`: its length, and the buffer if there is one. -/
def writeOut (data : Str) (buf : Option Str) : Checked (DhowStatus × String) (ℕ × Option Str) :=
  match buf with
  | none => .ok (data.length, none)
  | some buf =>
    if buf.length < data.length then
      fail (.bufferTooSmall, s!"buffer of {buf.length} bytes is too small; {data.length} required")
    else .ok (data.length, some (data ++ buf.drop data.length))

/-! ### The Go side -/

inductive FfiError
  | closed (what : String)
  | emptyFrame
  | status (status : DhowStatus) (detail : String)
  deriving DecidableEq

def FfiError.text : FfiError → String
  | closed what => s!"dhow: {what} is closed"
  | emptyFrame => "dhow: cannot encode an empty frame"
  | status st detail =>
    if detail = "" then s!"dhow: {st.toString}" else s!"dhow: {st.toString}: {detail}"

/-- What a goroutine does on the thread it is locked to. -/
abbrev Locked (α : Type) : Type := LastError → Except FfiError α × LastError

/-- A string of C ends before its first zero. -/
def goString (s : String) : String := String.ofList (s.toList.takeWhile (· ≠ Char.ofNat 0))

/-- The size that is asked for first is a signed 32-bit number. -/
def lastError (last : LastError) : String :=
  let needed := last.utf8ByteSize + 1
  if (needed : ℤ).bmod (2 ^ 32) ≤ 1 then ""
  else if (needed : ℤ).bmod (2 ^ 32) < needed then ""
  else goString last

/-- A call whose status becomes an error of Go. -/
def wrap {α : Type} (call : CoreCall α) : Locked α := fun last =>
  match call last with
  | (.ok a, last) => (.ok a, last)
  | (.error st, last) => (.error (.status st (lastError last)), last)

/-- The size of an output is asked for first, then the output itself into a buffer of that size. -/
def twoCalls {α : Type} (call : Option Str → CoreCall (α × ℕ × Option Str)) : Locked (α × Str) :=
  fun last =>
    match wrap (call none) last with
    | (.error e, last) => (.error e, last)
    | (.ok (_, needed, _), last) =>
      match wrap (call (some (List.replicate needed 0))) last with
      | (.error e, last) => (.error e, last)
      | (.ok (a, written, buf), last) => (.ok (a, (buf.getD []).take written), last)

/-! ### What the caller gets -/

section spec
variable {α : Type}

/-- The error a failure of the core becomes. -/
def failureOf : Stop (DhowStatus × String) → FfiError
  | .fail (st, message) => .status st (lastError message)
  | .panic _ => .status .panic (lastError panicText)

/-- What is reported of a call is its own failure, whatever the thread kept before. -/
theorem wrap_guard (body : Checked (DhowStatus × String) α) (last : LastError) :
    (wrap (guard body) last).1 = body.mapError failureOf := by
  rcases body with (p | ⟨st, message⟩) | a <;> rfl

/-- Asking for the size first gives the output as it is. -/
theorem twoCalls_eq (body : Checked (DhowStatus × String) (α × Str)) (last : LastError) :
    (twoCalls (fun buf => guard (body >>= fun x => do
      let out ← writeOut x.2 buf
      .ok (x.1, out))) last).1 = body.mapError failureOf := by
  rcases body with (p | ⟨st, message⟩) | ⟨a, data⟩
  · rfl
  · rfl
  · have hsize : writeOut data none = .ok (data.length, none) := rfl
    have hout :
        writeOut data (some (List.replicate data.length 0)) = .ok (data.length, some data) := by
      unfold writeOut
      simp
    simp [twoCalls, wrap, guard, hsize, hout, Except.mapError]

end spec

end Dhow.Abi
