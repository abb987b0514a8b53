import Dhow.Abi.Boundary
import Dhow.Lib.ThreadLocal

/-!
# The error channel between goroutines

The core keeps the description of a failure for the thread it happened on, and the Go side reads it
with calls of its own. Between these the scheduler may run any other goroutine, and move one that
is not locked to its thread. What a binding reports is the failure of its own call all the same.
-/

namespace Dhow.Abi
open Bytes Checked

/-! ### The bindings, one call into the core after the other -/

def coreCall {α : Type} (call : CoreCall α) : Accesses LastError (Except DhowStatus α) :=
  .access (fun last => (call last).2) fun last => .done (call last).1

/-- `lastError` asks for the size and then for the text, which may be another one by then. -/
def lastErrorCalls : Accesses LastError String :=
  .access id fun last =>
    let needed := ((last.utf8ByteSize + 1 : ℕ) : ℤ).bmod (2 ^ 32)
    if needed ≤ 1 then .done ""
    else .access id fun last =>
      if needed < (last.utf8ByteSize + 1 : ℕ) then .done "" else .done (goString last)

/-- A call that failed with a status of its own, or with the one its binding has for it. -/
def report {α : Type} (status : DhowStatus → DhowStatus) :
    Except DhowStatus α → Accesses LastError (Except FfiError α)
  | .ok a => .done (.ok a)
  | .error st => lastErrorCalls.bind fun detail => .done (.error (.status (status st) detail))

def wrapCalls {α : Type} (call : CoreCall α) : Accesses LastError (Except FfiError α) :=
  (coreCall call).bind (report id)

/-- A constructor gets a null pointer for a failure, which it has one status for. -/
def newCalls {α : Type} (st : DhowStatus) (call : CoreCall α) :
    Accesses LastError (Except FfiError α) :=
  (coreCall call).bind (report fun _ => st)

def sizedCalls {α : Type} (call : Option Str → CoreCall (α × ℕ × Option Str)) :
    Accesses LastError (Except FfiError (α × Str)) :=
  (wrapCalls (call none)).bind fun
    | .error e => .done (.error e)
    | .ok (_, needed, _) => (wrapCalls (call (some (List.replicate needed 0)))).bind fun
      | .error e => .done (.error e)
      | .ok (a, written, buf) => .done (.ok (a, (buf.getD []).take written))

/-! ### Alone on a thread -/

section alone
variable {α : Type} (last : LastError)

@[simp] lemma run_coreCall (call : CoreCall α) : (coreCall call).run last = call last := rfl

@[simp] lemma run_lastErrorCalls : lastErrorCalls.run last = (lastError last, last) := by
  unfold lastErrorCalls lastError
  dsimp only
  rw [Accesses.run_access]
  split_ifs with h h'
  · rfl
  · rw [Accesses.run_access, id, id, if_pos h']
    rfl
  · rw [Accesses.run_access, id, id, if_neg h']
    rfl

lemma run_wrapCalls (call : CoreCall α) : (wrapCalls call).run last = wrap call last := by
  rw [wrapCalls, Accesses.run_bind, run_coreCall, wrap]
  rcases call last with ⟨st | a, last'⟩
  · simp [report]
  · rfl

lemma run_newCalls (st : DhowStatus) (body : Checked (DhowStatus × String) α) :
    ((newCalls st (guard body)).run last).1 = body.mapError fun
      | .fail (_, message) => .status st (lastError message)
      | .panic _ => .status st (lastError panicText) := by
  rw [newCalls, Accesses.run_bind, run_coreCall]
  rcases body with (p | ⟨st', message⟩) | a
  · simp [report, guard, Except.mapError]
  · simp [report, guard, Except.mapError]
  · rfl

lemma run_sizedCalls (call : Option Str → CoreCall (α × ℕ × Option Str)) :
    (sizedCalls call).run last = twoCalls call last := by
  rw [sizedCalls, Accesses.run_bind, run_wrapCalls, twoCalls]
  rcases wrap (call none) last with ⟨e | ⟨a, needed, buf⟩, last'⟩
  · rfl
  · dsimp only
    rw [Accesses.run_bind, run_wrapCalls]
    rcases wrap (call (some (List.replicate needed 0))) last' with ⟨e | ⟨a', written, buf'⟩, last''⟩
    · rfl
    · rfl

end alone

/-! ### Among others -/

section among
variable {θ γ : Type} [DecidableEq θ] [DecidableEq γ]

/-- Threads with whatever descriptions they keep, before any goroutine has locked one. -/
def idle (kept : θ → LastError) : Threads θ γ LastError := ⟨kept, fun _ => none, []⟩

/-- In every schedule of goroutines over threads, with any calls of any of them between, what a
locked binding returns is its own: the data of its call, or the status and the description of its
failure, or its panic. -/
theorem own_failure {kept : θ → LastError} {w : Threads θ γ LastError}
    (h : Relation.ReflTransGen Threads.Step (idle kept) w) :
    (∀ (α : Type) (body : Checked (DhowStatus × String) α) (r : Except FfiError α),
      ⟨_, wrapCalls (guard body), r⟩ ∈ w.ended → r = body.mapError failureOf) ∧
    (∀ (α : Type) (body : Checked (DhowStatus × String) α) (st : DhowStatus)
        (r : Except FfiError α),
      ⟨_, newCalls st (guard body), r⟩ ∈ w.ended → r = body.mapError fun
        | .fail (_, message) => .status st (lastError message)
        | .panic _ => .status st (lastError panicText)) ∧
    ∀ (α : Type) (body : Checked (DhowStatus × String) (α × Str)) (r : Except FfiError (α × Str)),
      ⟨_, sizedCalls (fun buf => guard (body >>= fun x => do
        let out ← writeOut x.2 buf
        .ok (x.1, out))), r⟩ ∈ w.ended → r = body.mapError failureOf := by
  have hidle : (idle kept : Threads θ γ LastError).Isolated := ⟨nofun, nofun, nofun⟩
  refine ⟨fun α body r hr => ?_, fun α body st r hr => ?_, fun α body r hr => ?_⟩
  · obtain ⟨last, rfl⟩ := Threads.ended_eq_run h hidle hr
    rw [run_wrapCalls, wrap_guard]
  · obtain ⟨last, rfl⟩ := Threads.ended_eq_run h hidle hr
    exact run_newCalls last st body
  · obtain ⟨last, rfl⟩ := Threads.ended_eq_run h hidle hr
    rw [run_sizedCalls, twoCalls_eq]

end among

/-- A call that fails, and another goroutine that fails on another thread before the description of
the first is read. -/
theorem own_failure_two : ∃ (w : Threads Bool Bool LastError) (r : Except FfiError Unit),
    Relation.ReflTransGen Threads.Step (idle fun _ => "") w ∧
    w.kept false = "other" ∧
    ⟨_, wrapCalls (guard (fail (.frameRejected, "own") : Checked (DhowStatus × String) Unit)), r⟩ ∈
      w.ended ∧
    r = .error (.status .frameRejected (lastError "own")) := by
  obtain ⟨w, hrun, ⟨rest, hlocked⟩, hkept⟩ : ∃ w : Threads Bool Bool LastError,
      Relation.ReflTransGen Threads.Step (idle fun _ => "") w ∧
      (∃ rest, w.locked true = some (true, ⟨_, wrapCalls (guard (fail (.frameRejected, "own") :
        Checked (DhowStatus × String) Unit)), rest⟩)) ∧ w.kept false = "other" :=
    ⟨_, ((Relation.ReflTransGen.refl.tail (.lock (g := true) (t := true) _ rfl nofun)).tail
      (.access (g := true) rfl)).tail (.unlocked (t := false) (fun _ => "other") fun g c => by
        cases g <;> simp [Function.update, idle]), ⟨_, rfl⟩, rfl⟩
  obtain ⟨w', r, hsteps, hended, hother⟩ := Threads.exists_ended hlocked
  exact ⟨w', r, hrun.trans hsteps, (hother false (by decide)).trans hkept, hended,
    (own_failure (hrun.trans hsteps)).1 _ _ _ hended⟩

end Dhow.Abi
