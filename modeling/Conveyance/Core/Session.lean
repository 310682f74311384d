/-!
# The session lifecycle (conveyance-core, session/state.rs and session/mod.rs)

The pure state machine, and the parts of an established `Session` that go
through it: the cold-start guard, activity, timer events and the one-way end.
The Noise transport is the two message counters its nonces come from; sealing
and opening are parameters of whoever uses the session. The watchdog task a
session arms is modelled with the tasks it runs beside.
-/

namespace Conveyance.Core

inductive SessionState where
  | noSession
  | handshaking
  | active
  | idleWarning
  | ended
deriving DecidableEq

inductive EndReason where
  | idleTimedOut
  | hardCapReached
  | peerDisconnected
  | userEnded
  | killSwitch
  | remoteEnded
  | protocolViolation
deriving DecidableEq

def EndReason.asStr : EndReason → String
  | .idleTimedOut => "idle_timeout"
  | .hardCapReached => "hard_cap"
  | .peerDisconnected => "peer_disconnected"
  | .userEnded => "user_ended"
  | .killSwitch => "kill_switch"
  | .remoteEnded => "remote_ended"
  | .protocolViolation => "protocol_violation"

inductive Event where
  | beginHandshake
  | handshakeCompleted
  | activity
  | warningDue
  | idleExpired
  | hardCapReached
  | peerDisconnected
  | endRequested (reason : EndReason)
  | aborted
deriving DecidableEq

/-- An event with no transition from a state. -/
inductive TransitionError where
  | illegal (source : SessionState) (event : Event)
deriving DecidableEq

def step : SessionState → Event → Except TransitionError SessionState
  | .noSession, .beginHandshake => .ok .handshaking
  | .handshaking, .handshakeCompleted => .ok .active
  | .handshaking, .aborted => .ok .noSession
  | .active, .activity => .ok .active
  | .idleWarning, .activity => .ok .active
  | .active, .warningDue => .ok .idleWarning
  | .active, .idleExpired => .ok .ended
  | .idleWarning, .idleExpired => .ok .ended
  | .active, .hardCapReached => .ok .ended
  | .idleWarning, .hardCapReached => .ok .ended
  | .active, .peerDisconnected => .ok .ended
  | .idleWarning, .peerDisconnected => .ok .ended
  | .active, .endRequested _ => .ok .ended
  | .idleWarning, .endRequested _ => .ok .ended
  | state, event => .error (.illegal state event)

/-- What a session's watchdog reports. -/
inductive TimerEvent where
  | warningDue
  | idleExpired
  | hardCapReached
deriving DecidableEq

/-- An established session. `sid` names it; it is not in the source, where a
session is its own object. -/
structure Session where
  sid : Nat
  state : SessionState
  warned : Bool
  sent : Nat
  received : Nat
deriving DecidableEq

namespace Session

/-- `establish`: a completed handshake is an ACTIVE session. -/
def establish (sid : Nat) : Session := ⟨sid, .active, false, 0, 0⟩

section

variable (s : Session)

/-- ACTIVE or IDLE_WARNING; what `require_active` accepts. -/
def isLive : Bool :=
  match s.state with
  | .active => true
  | .idleWarning => true
  | _ => false

/-- `on_activity`; the caller ignores its error. -/
def onActivity : Session :=
  match step s.state .activity with
  | .ok state => { s with state, warned := false }
  | .error _ => s

/-- `end`, idempotent. -/
def endFor (reason : EndReason) : Session :=
  match step s.state (.endRequested reason) with
  | .ok .ended => { s with state := .ended }
  | _ => s

def handleTimerEvent : TimerEvent → Session × Option EndReason
  | .warningDue =>
    match step s.state .warningDue with
    | .ok .idleWarning => ({ s with state := .idleWarning, warned := true }, none)
    | _ => (s, none)
  | .idleExpired => (s.endFor .idleTimedOut, some .idleTimedOut)
  | .hardCapReached => (s.endFor .hardCapReached, some .hardCapReached)

@[simp] theorem onActivity_sid : s.onActivity.sid = s.sid := by
  unfold onActivity
  split <;> rfl

@[simp] theorem endFor_sid (reason : EndReason) : (s.endFor reason).sid = s.sid := by
  unfold endFor
  split <;> rfl

theorem onActivity_isLive : s.onActivity.isLive = s.isLive := by
  obtain ⟨sid, state, warned, sent, received⟩ := s
  cases state <;> rfl

theorem endFor_isLive (reason : EndReason) : (s.endFor reason).isLive = false := by
  obtain ⟨sid, state, warned, sent, received⟩ := s
  cases state <;> rfl

theorem handleTimerEvent_sid (ev : TimerEvent) : (s.handleTimerEvent ev).1.sid = s.sid := by
  cases ev with
  | warningDue =>
    rw [handleTimerEvent]
    split <;> rfl
  | idleExpired | hardCapReached => exact endFor_sid s _

end

theorem handleTimerEvent_isLive {s : Session} {ev : TimerEvent}
    (h : (s.handleTimerEvent ev).2 = none) : (s.handleTimerEvent ev).1.isLive = s.isLive := by
  obtain ⟨sid, state, warned, sent, received⟩ := s
  cases ev with
  | warningDue => cases state <;> rfl
  | idleExpired | hardCapReached => cases h

end Session

end Conveyance.Core
