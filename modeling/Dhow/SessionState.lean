import Dhow.Session

/-!
# Session states

The state machine of `session_state.rs` that tracks a transfer. The role of the machine is not
stored: only the current state is.
-/

namespace Dhow
open Bytes

inductive SessionState
  | initializing
  | sending
  | receiving
  | recovering
  | complete
  | error
  | paused
  deriving DecidableEq

/-- The name the derived `Debug` prints. -/
def SessionState.debug : SessionState → String
  | initializing => "Initializing"
  | sending => "Sending"
  | receiving => "Receiving"
  | recovering => "Recovering"
  | complete => "Complete"
  | error => "Error"
  | paused => "Paused"

structure SessionStateMachine where
  sessionId : Arr 16
  params : SessionParams
  state : SessionState
  framesSent : UInt64
  framesReceived : UInt64
  bytesTransmitted : UInt64
  lastError : Option String
  deriving DecidableEq

namespace SessionStateMachine

def new (sessionId : Arr 16) (params : SessionParams) : SessionStateMachine where
  sessionId := sessionId
  params := params
  state := .initializing
  framesSent := 0
  framesReceived := 0
  bytesTransmitted := 0
  lastError := none

/-- The shape the fallible transitions share: `target` from one of the `sources`, an error that
names the current state from every other. -/
def transition (verb : String) (sources : List SessionState) (target : SessionState)
    (m : SessionStateMachine) : Except SessionError Unit × SessionStateMachine :=
  if m.state ∈ sources then (.ok (), { m with state := target })
  else (.error (.invalidParameters s!"cannot {verb} from {m.state.debug}"), m)

def startSending := transition "start sending" [.initializing, .paused] .sending

def startReceiving := transition "start receiving" [.initializing] .receiving

def enterRecovery := transition "enter recovery" [.receiving, .sending] .recovering

def complete := transition "complete" [.sending, .receiving, .recovering] .complete

def pause := transition "pause" [.sending, .receiving] .paused

def error (reason : String) (m : SessionStateMachine) : SessionStateMachine :=
  { m with state := .error, lastError := some reason }

def recordFrameSent (frameSize : UInt64) (m : SessionStateMachine) : SessionStateMachine :=
  { m with framesSent := m.framesSent + 1, bytesTransmitted := m.bytesTransmitted + frameSize }

def recordFrameReceived (m : SessionStateMachine) : SessionStateMachine :=
  { m with framesReceived := m.framesReceived + 1 }

/-- The methods that change the machine. -/
inductive Operation
  | startSending
  | startReceiving
  | enterRecovery
  | complete
  | error (reason : String)
  | pause
  | recordFrameSent (frameSize : UInt64)
  | recordFrameReceived
  deriving DecidableEq

/-- What the call returns, and the machine after it. -/
def call (m : SessionStateMachine) : Operation → Except SessionError Unit × SessionStateMachine
  | .startSending => m.startSending
  | .startReceiving => m.startReceiving
  | .enterRecovery => m.enterRecovery
  | .complete => m.complete
  | .error reason => (.ok (), m.error reason)
  | .pause => m.pause
  | .recordFrameSent frameSize => (.ok (), m.recordFrameSent frameSize)
  | .recordFrameReceived => (.ok (), m.recordFrameReceived)

def run (m : SessionStateMachine) (ops : List Operation) : SessionStateMachine :=
  ops.foldl (fun m op => (m.call op).2) m

@[simp] lemma run_nil (m : SessionStateMachine) : m.run [] = m := rfl

@[simp] lemma run_cons (m : SessionStateMachine) (op : Operation) (ops : List Operation) :
    m.run (op :: ops) = (m.call op).2.run ops := rfl

@[simp] lemma run_append (m : SessionStateMachine) (before after : List Operation) :
    m.run (before ++ after) = (m.run before).run after := List.foldl_append

/-! ### What one transition can do -/

lemma transition_error {verb : String} {sources : List SessionState} {target : SessionState}
    {m : SessionStateMachine} {e : SessionError}
    (h : (m.transition verb sources target).1 = .error e) :
    (m.transition verb sources target).2 = m := by
  unfold transition at h ⊢
  split_ifs with hs
  · rw [if_pos hs] at h
    cases h
  · rfl

lemma transition_state (verb : String) (sources : List SessionState) (target : SessionState)
    (m : SessionStateMachine) :
    (m.transition verb sources target).2.state =
      if m.state ∈ sources then target else m.state := by
  unfold transition
  split_ifs <;> rfl

/-- The state after a call, as a function of the state before it. -/
def nextState (s : SessionState) : Operation → SessionState
  | .startSending => if s ∈ [SessionState.initializing, .paused] then .sending else s
  | .startReceiving => if s ∈ [SessionState.initializing] then .receiving else s
  | .enterRecovery => if s ∈ [SessionState.receiving, .sending] then .recovering else s
  | .complete => if s ∈ [SessionState.sending, .receiving, .recovering] then .complete else s
  | .error _ => .error
  | .pause => if s ∈ [SessionState.sending, .receiving] then .paused else s
  | .recordFrameSent _ => s
  | .recordFrameReceived => s

lemma call_state (m : SessionStateMachine) (op : Operation) :
    (m.call op).2.state = nextState m.state op := by
  cases op with
  | startSending => exact transition_state _ _ _ m
  | startReceiving => exact transition_state _ _ _ m
  | enterRecovery => exact transition_state _ _ _ m
  | complete => exact transition_state _ _ _ m
  | error reason => rfl
  | pause => exact transition_state _ _ _ m
  | recordFrameSent frameSize => rfl
  | recordFrameReceived => rfl

lemma call_error {m : SessionStateMachine} {op : Operation} {e : SessionError}
    (h : (m.call op).1 = .error e) : (m.call op).2 = m := by
  cases op with
  | startSending => exact transition_error h
  | startReceiving => exact transition_error h
  | enterRecovery => exact transition_error h
  | complete => exact transition_error h
  | error reason => cases h
  | pause => exact transition_error h
  | recordFrameSent frameSize => cases h
  | recordFrameReceived => cases h

/-! ### The role over a run -/

/-- The states a machine that has left `initializing` without receiving stays in. -/
def CannotReceive (s : SessionState) : Prop := s ≠ .initializing ∧ s ≠ .receiving

lemma CannotReceive.next {s : SessionState} (h : CannotReceive s) (op : Operation) :
    CannotReceive (nextState s op) := by
  obtain ⟨hi, hr⟩ := h
  cases s <;> cases op <;> simp_all [CannotReceive, nextState]

lemma CannotReceive.run {m : SessionStateMachine} (h : CannotReceive m.state)
    (ops : List Operation) : CannotReceive (m.run ops).state := by
  induction ops generalizing m with
  | nil => exact h
  | cons op ops ih =>
    rw [run_cons]
    apply ih
    rw [call_state]
    exact h.next op

/-- The states of a machine that has received and was not paused while it did. -/
def Receiver (s : SessionState) : Prop := s ∈ [SessionState.receiving, .recovering, .complete, .error]

lemma Receiver.next {s : SessionState} {op : Operation} (h : Receiver s)
    (hpause : op = .pause → s ≠ .receiving) : Receiver (nextState s op) := by
  cases s <;> cases op <;> simp_all [Receiver, nextState]

/-- No call of the run pauses a machine that is receiving. -/
def NeverPausedReceiving (m : SessionStateMachine) (ops : List Operation) : Prop :=
  ∀ before, before ++ [.pause] <+: ops → (m.run before).state ≠ .receiving

lemma NeverPausedReceiving.tail {m : SessionStateMachine} {before after : List Operation}
    (h : m.NeverPausedReceiving (before ++ after)) :
    (m.run before).NeverPausedReceiving after := by
  intro more hmore
  rw [← run_append]
  apply h
  rw [List.append_assoc]
  exact (List.prefix_append_right_inj before).mpr hmore

lemma Receiver.run {m : SessionStateMachine} {ops : List Operation} (h : Receiver m.state)
    (hops : m.NeverPausedReceiving ops) : Receiver (m.run ops).state := by
  induction ops generalizing m with
  | nil => exact h
  | cons op ops ih =>
    rw [run_cons]
    apply ih
    · rw [call_state]
      apply h.next
      rintro rfl
      exact hops [] ⟨ops, rfl⟩
    · have hcons : m.NeverPausedReceiving ([op] ++ ops) := hops
      exact hcons.tail

/-- The role of a transfer is kept along a run: a receiver never sends and a sender never
receives, a transfer paused while it receives can go on receiving, a transfer completes only from
an active or a recovering one, and a refused call changes nothing. -/
structure KeepsRole (m : SessionStateMachine) (ops : List Operation) : Prop where
  receiver_not_sending : ∀ before after, before ++ after <+: ops →
    (m.run before).state = .receiving → (m.run (before ++ after)).state ≠ .sending
  sender_not_receiving : ∀ before after, before ++ after <+: ops →
    (m.run before).state = .sending → (m.run (before ++ after)).state ≠ .receiving
  paused_resumes : ∀ before, before ++ [.pause] <+: ops → (m.run before).state = .receiving →
    ∃ more, (m.run (before ++ .pause :: more)).state = .receiving
  complete_from : ∀ before op, before ++ [op] <+: ops → (m.run before).state ≠ .complete →
    (m.run (before ++ [op])).state = .complete →
    (m.run before).state ∈ [SessionState.sending, .receiving, .recovering]
  error_unchanged : ∀ before op e, before ++ [op] <+: ops →
    ((m.run before).call op).1 = .error e → m.run (before ++ [op]) = m.run before

lemma nextState_eq_complete {s : SessionState} {op : Operation} (h : nextState s op = .complete)
    (hs : s ≠ .complete) : s ∈ [SessionState.sending, .receiving, .recovering] := by
  cases s <;> cases op <;> simp_all [nextState]

/-- A run keeps the role exactly when it never pauses a receiving machine: nothing leads from
`paused` back to `receiving`, and `startSending` does not ask which role was paused. -/
theorem keepsRole_iff (sessionId : Arr 16) (params : SessionParams) (ops : List Operation) :
    (new sessionId params).KeepsRole ops ↔ (new sessionId params).NeverPausedReceiving ops := by
  constructor
  · intro h before hbefore hreceiving
    obtain ⟨more, hmore⟩ := h.paused_resumes before hbefore hreceiving
    rw [run_append, run_cons] at hmore
    have hpaused : CannotReceive (((new sessionId params).run before).call .pause).2.state := by
      rw [call_state, hreceiving]
      simp [CannotReceive, nextState]
    exact (hpaused.run more).2 hmore
  · intro h
    refine ⟨?_, ?_, ?_, ?_, ?_⟩
    · intro before after hprefix hreceiving
      rw [run_append]
      have hafter : ((new sessionId params).run before).NeverPausedReceiving after := by
        apply NeverPausedReceiving.tail
        intro more hmore
        exact h more (hmore.trans hprefix)
      have hreceiver : Receiver ((new sessionId params).run before).state := by
        rw [hreceiving]
        simp [Receiver]
      intro hsending
      have hrun := hreceiver.run hafter
      rw [hsending] at hrun
      simp [Receiver] at hrun
    · intro before after _ hsending
      rw [run_append]
      have hsender : CannotReceive ((new sessionId params).run before).state := by
        rw [hsending]
        simp [CannotReceive]
      exact (hsender.run after).2
    · intro before hprefix hreceiving
      exact absurd hreceiving (h before hprefix)
    · intro before op _ hbefore hcomplete
      rw [run_append, run_cons, run_nil, call_state] at hcomplete
      exact nextState_eq_complete hcomplete hbefore
    · intro before op e _ herror
      rw [run_append, run_cons, run_nil]
      exact call_error herror

/-- A receiver that is paused goes on as a sender. -/
theorem paused_receiver_sends :
    let m := new (zeros 16) ⟨1024, 2, 256, 4, 8, ⟨1, 1, 1⟩, zeros 32⟩
    ¬m.KeepsRole [.startReceiving, .pause, .startSending] ∧
      (m.run [.startReceiving]).state = .receiving ∧
      (m.run [.startReceiving, .pause, .startReceiving]).state = .paused ∧
      (m.run [.startReceiving, .pause, .startSending]).state = .sending := by
  dsimp only
  refine ⟨?_, rfl, rfl, rfl⟩
  intro h
  exact h.receiver_not_sending [.startReceiving] [.pause, .startSending] List.prefix_rfl rfl rfl

end SessionStateMachine
end Dhow
