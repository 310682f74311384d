import Conveyance.Core.Timers
import Conveyance.Core.Transport
import Conveyance.Daemon.Error
import Conveyance.Lib.Transition

/-!
# The session object (conveyance-core, session/mod.rs)

An established `Session` with all it holds: the Noise transport, the buffer it decrypts
into, the handles of its watchdog. `Session` of the lifecycle module is what is left when
the held things are forgotten, and the methods that move the state do the same on both
(`toSession_*`).

A session ends once: ENDED is kept, nothing is sent or opened in it, and the transport and
the buffer are gone. The report of an end is not tied to the end: `handle_timer_event`
gives a reason for every expiry it is handed, whether or not that expiry ended anything
(`perform_endReason`).
-/

namespace Conveyance.Core

open Lib
open Conveyance.Daemon (ConveyanceError)

/-! ## The transport -/

/-- The cipher of one transport, both directions. `decrypt` is given the buffer it writes
to: it returns the buffer as it leaves it, and how much of its front is plaintext. What it
leaves there when it refuses a message is not promised. -/
structure Snow where
  cipher : Cipher
  decrypt : Nat → Bytes → Bytes → Bytes × Option Nat

structure SessionTransport where
  sendNonce : Nat
  receiveNonce : Nat
deriving DecidableEq

namespace SessionTransport

/-- `send`: the nonce moves only when a message was sealed. -/
def sendNext (snow : Snow) (t : SessionTransport) (plaintext : Bytes) :
    SessionTransport × Except NoiseError Bytes :=
  match SessionTransport.send snow.cipher t.sendNonce plaintext with
  | .ok ciphertext => ({ t with sendNonce := t.sendNonce + 1 }, .ok ciphertext)
  | .error e => (t, .error e)

/-- `receive_into`, with the buffer it leaves behind. -/
def receiveInto (snow : Snow) (t : SessionTransport) (ciphertext buf : Bytes) :
    SessionTransport × Bytes × Except NoiseError Bytes :=
  if maxMessage < ciphertext.length ∨ t.receiveNonce = lastNonce then
    (t, buf, .error .sessionEnded)
  else
    match snow.decrypt t.receiveNonce ciphertext buf with
    | (buf, none) => (t, buf, .error .sessionEnded)
    | (buf, some n) => ({ t with receiveNonce := t.receiveNonce + 1 }, buf, .ok (buf.take n))

end SessionTransport

def NoiseError.toConveyanceError : NoiseError → ConveyanceError
  | .handshakeFailed => .handshakeFailed
  | .sessionEnded => .sessionEnded

/-! ## The object -/

/-- `Session`. A watchdog is the number of its task. The instant of establishment is left
out: it only dates what a caller is shown. -/
structure SessionObject where
  state : SessionState
  transport : Option SessionTransport
  scratch : Bytes
  params : SessionParams
  activityTx : Option Nat
  watchdog : Option Nat
  warned : Bool

namespace SessionObject

def establish (params : SessionParams) : SessionObject where
  state := .active
  transport := some ⟨0, 0⟩
  scratch := []
  params := params
  activityTx := none
  watchdog := none
  warned := false

/-- What is left of it for whoever sees neither transport nor timers. -/
def toSession (s : SessionObject) (sid sent received : Nat) : Session :=
  ⟨sid, s.state, s.warned, sent, received⟩

def requireActive (s : SessionObject) : Except ConveyanceError Unit :=
  match s.state with
  | .active => .ok ()
  | .idleWarning => .ok ()
  | _ => .error .noSession

/-- Both guards of `send` and `receive`: an established state, and a transport. -/
def guarded (s : SessionObject) : Except ConveyanceError SessionTransport := do
  s.requireActive
  match s.transport with
  | some transport => .ok transport
  | none => .error .noSession

def send (snow : Snow) (s : SessionObject) (plaintext : Bytes) :
    SessionObject × Except ConveyanceError Bytes :=
  match s.guarded with
  | .error e => (s, .error e)
  | .ok transport =>
    let r := transport.sendNext snow plaintext
    ({ s with transport := some r.1 }, r.2.mapError NoiseError.toConveyanceError)

def receive (snow : Snow) (s : SessionObject) (ciphertext : Bytes) :
    SessionObject × Except ConveyanceError Bytes :=
  match s.guarded with
  | .error e => (s, .error e)
  | .ok transport =>
    match transport.receiveInto snow ciphertext (List.replicate ciphertext.length 0) with
    -- the early return of `?`: the buffer keeps what the transport left in it
    | (transport, buf, .error e) =>
      ({ s with transport := some transport, scratch := buf }, .error e.toConveyanceError)
    | (transport, _, .ok out) =>
      ({ s with transport := some transport, scratch := [] }, .ok out)

section

variable (s : SessionObject)

def stopTimers : SessionObject :=
  { s with watchdog := none, activityTx := none }

/-- `start_timers`; the watchdog is spawned as `task`. -/
def startTimers (task : Nat) : SessionObject :=
  { s.stopTimers with watchdog := some task, activityTx := some task }

/-- `on_activity`. The reset signal to the watchdog is best effort and leaves no trace
in the object. -/
def onActivity : SessionObject × Except ConveyanceError Unit :=
  match step s.state .activity with
  | .error _ => (s, .error .noSession)
  | .ok state => ({ s with state, warned := false }, .ok ())

def teardown : SessionObject :=
  { s.stopTimers with transport := none, scratch := [] }

/-- `end`. -/
def endFor (reason : EndReason) : SessionObject :=
  match step s.state (.endRequested reason) with
  | .ok .ended => { s with state := .ended }.teardown
  | _ => s

def peerDisconnected : SessionObject :=
  match step s.state .peerDisconnected with
  | .ok .ended => { s with state := .ended }.teardown
  | _ => s

def handleTimerEvent : TimerEvent → SessionObject × Option EndReason
  | .warningDue =>
    match step s.state .warningDue with
    | .ok .idleWarning => ({ s with state := .idleWarning, warned := true }, none)
    | _ => (s, none)
  | .idleExpired => (s.endFor .idleTimedOut, some .idleTimedOut)
  | .hardCapReached => (s.endFor .hardCapReached, some .hardCapReached)

end

/-! ### The lifecycle it follows -/

section Lifecycle

variable (s : SessionObject) (sid sent received : Nat)

theorem toSession_onActivity :
    s.onActivity.1.toSession sid sent received = (s.toSession sid sent received).onActivity := by
  obtain ⟨state, transport, scratch, params, activityTx, watchdog, warned⟩ := s
  cases state <;> rfl

theorem toSession_endFor (reason : EndReason) :
    (s.endFor reason).toSession sid sent received =
      (s.toSession sid sent received).endFor reason := by
  obtain ⟨state, transport, scratch, params, activityTx, watchdog, warned⟩ := s
  cases state <;> rfl

theorem toSession_handleTimerEvent (event : TimerEvent) :
    ((s.handleTimerEvent event).1.toSession sid sent received, (s.handleTimerEvent event).2) =
      (s.toSession sid sent received).handleTimerEvent event := by
  cases event with
  | warningDue =>
    obtain ⟨state, transport, scratch, params, activityTx, watchdog, warned⟩ := s
    cases state <;> rfl
  | idleExpired | hardCapReached => exact Prod.ext (toSession_endFor s sid sent received _) rfl

end Lifecycle

/-- ACTIVE or IDLE_WARNING. -/
def isLive (s : SessionObject) : Bool := (s.toSession 0 0 0).isLive

variable {s : SessionObject}

theorem isLive_iff : s.isLive = true ↔ s.state = .active ∨ s.state = .idleWarning := by
  unfold isLive Session.isLive toSession
  cases s.state <;> simp

theorem ne_ended_of_isLive (h : s.isLive = true) : s.state ≠ .ended := by
  intro hended
  rcases isLive_iff.mp h with hstate | hstate <;> cases hstate.symm.trans hended

/-- Nothing an ended session held is left in it. -/
structure Released (s : SessionObject) : Prop where
  ended : s.state = .ended
  transport : s.transport = none
  scratch : s.scratch = []

theorem Released.of_eq {s' : SessionObject} (h : s.Released) (heq : s' = s) : s'.Released :=
  heq.symm ▸ h

/-- An established session is live, or ended with all it held released. -/
def Established (s : SessionObject) : Prop := s.isLive = true ∨ s.Released

theorem Established.released (h : s.Established) (hended : s.state = .ended) : s.Released :=
  h.resolve_left fun hlive => ne_ended_of_isLive hlive hended

theorem guarded_eq_error (h : s.state = .ended) : s.guarded = .error .noSession := by
  unfold guarded requireActive
  rw [h]
  rfl

theorem send_state (snow : Snow) (s : SessionObject) (plaintext : Bytes) :
    (s.send snow plaintext).1.state = s.state := by
  unfold send
  split <;> rfl

theorem receive_state (snow : Snow) (s : SessionObject) (ciphertext : Bytes) :
    (s.receive snow ciphertext).1.state = s.state := by
  unfold receive
  split
  · rfl
  · split <;> rfl

theorem onActivity_isLive (s : SessionObject) : s.onActivity.1.isLive = s.isLive := by
  unfold isLive
  rw [toSession_onActivity]
  exact Session.onActivity_isLive _

theorem onActivity_of_ended (h : s.state = .ended) : s.onActivity = (s, .error .noSession) := by
  unfold onActivity
  rw [h]
  rfl

theorem endFor_released (h : s.isLive = true) (reason : EndReason) :
    (s.endFor reason).Released := by
  unfold endFor
  rcases isLive_iff.mp h with hstate | hstate
  · rw [hstate]
    exact ⟨rfl, rfl, rfl⟩
  · rw [hstate]
    exact ⟨rfl, rfl, rfl⟩

theorem endFor_of_ended (h : s.state = .ended) (reason : EndReason) : s.endFor reason = s := by
  unfold endFor
  rw [h]
  rfl

theorem peerDisconnected_released (h : s.isLive = true) : s.peerDisconnected.Released := by
  unfold peerDisconnected
  rcases isLive_iff.mp h with hstate | hstate
  · rw [hstate]
    exact ⟨rfl, rfl, rfl⟩
  · rw [hstate]
    exact ⟨rfl, rfl, rfl⟩

theorem peerDisconnected_of_ended (h : s.state = .ended) : s.peerDisconnected = s := by
  unfold peerDisconnected
  rw [h]
  rfl

theorem warningDue_isLive (s : SessionObject) :
    (s.handleTimerEvent .warningDue).1.isLive = s.isLive := by
  have hsame : (s.handleTimerEvent .warningDue).1.toSession 0 0 0 =
      ((s.toSession 0 0 0).handleTimerEvent .warningDue).1 :=
    congrArg Prod.fst (toSession_handleTimerEvent s 0 0 0 .warningDue)
  unfold isLive
  rw [hsame]
  refine Session.handleTimerEvent_isLive ?_
  rw [← toSession_handleTimerEvent, handleTimerEvent]
  split <;> rfl

theorem warningDue_of_ended (h : s.state = .ended) :
    s.handleTimerEvent .warningDue = (s, none) := by
  rw [handleTimerEvent, h]
  rfl

end SessionObject

/-! ## Calls -/

inductive SessionCall where
  | send (plaintext : Bytes)
  | receive (ciphertext : Bytes)
  | startTimers (task : Nat)
  | onActivity
  | handleTimerEvent (event : TimerEvent)
  | endFor (reason : EndReason)
  | peerDisconnected
deriving DecidableEq

inductive SessionAnswer where
  | bytes (r : Except ConveyanceError Bytes)
  | unit (r : Except ConveyanceError Unit)
  | timer (r : Option EndReason)
  | nothing

namespace SessionAnswer

/-- The error returned, by the calls that return a result. -/
def error? : SessionAnswer → Option ConveyanceError
  | .bytes (.error e) => some e
  | .unit (.error e) => some e
  | _ => none

/-- The reason reported, by a handled timer event. -/
def endReason? : SessionAnswer → Option EndReason
  | .timer r => r
  | _ => none

end SessionAnswer

namespace SessionCall

/-- `send`, `receive` and `on_activity`. -/
def operates : SessionCall → Bool
  | .send _ => true
  | .receive _ => true
  | .onActivity => true
  | _ => false

/-- The reason an expiry brings with it. -/
def expiry? : SessionCall → Option EndReason
  | .handleTimerEvent .idleExpired => some .idleTimedOut
  | .handleTimerEvent .hardCapReached => some .hardCapReached
  | _ => none

/-- Calls that end a live session. -/
def ends : SessionCall → Bool
  | .endFor _ => true
  | .peerDisconnected => true
  | .handleTimerEvent .idleExpired => true
  | .handleTimerEvent .hardCapReached => true
  | _ => false

theorem ends_of_expiry {call : SessionCall} {reason : EndReason} (h : call.expiry? = some reason) :
    call.ends = true := by
  cases call with
  | handleTimerEvent event =>
    cases event with
    | warningDue => cases h
    | idleExpired | hardCapReached => rfl
  | _ => cases h

end SessionCall

namespace SessionObject

variable {snow : Snow} {s : SessionObject} {call : SessionCall} {calls : List SessionCall}

def perform (snow : Snow) (s : SessionObject) : SessionCall → SessionObject × SessionAnswer
  | .send plaintext => ((s.send snow plaintext).1, .bytes (s.send snow plaintext).2)
  | .receive ciphertext => ((s.receive snow ciphertext).1, .bytes (s.receive snow ciphertext).2)
  | .startTimers task => (s.startTimers task, .nothing)
  | .onActivity => (s.onActivity.1, .unit s.onActivity.2)
  | .handleTimerEvent event => ((s.handleTimerEvent event).1, .timer (s.handleTimerEvent event).2)
  | .endFor reason => (s.endFor reason, .nothing)
  | .peerDisconnected => (s.peerDisconnected, .nothing)

/-- An expiry is reported in every state, the ended one included. -/
theorem perform_endReason (snow : Snow) (s : SessionObject) (call : SessionCall) :
    (s.perform snow call).2.endReason? = call.expiry? := by
  cases call with
  | handleTimerEvent event =>
    cases event with
    | warningDue =>
      show (s.handleTimerEvent .warningDue).2 = none
      rw [handleTimerEvent]
      split <;> rfl
    | idleExpired | hardCapReached => rfl
  | _ => rfl

theorem perform_of_ends (h : s.isLive = true) (hends : call.ends = true) :
    (s.perform snow call).1.Released := by
  cases call with
  | handleTimerEvent event =>
    cases event with
    | warningDue => cases hends
    | idleExpired | hardCapReached => exact endFor_released h _
  | endFor reason => exact endFor_released h reason
  | peerDisconnected => exact peerDisconnected_released h
  | _ => cases hends

theorem isLive_congr {s' : SessionObject} (hstate : s'.state = s.state) : s'.isLive = s.isLive := by
  unfold isLive Session.isLive toSession
  rw [hstate]

theorem perform_of_not_ends (h : s.isLive = true) (hends : call.ends = false) :
    (s.perform snow call).1.isLive = true := by
  cases call with
  | send plaintext => exact (isLive_congr (send_state snow s plaintext)).trans h
  | receive ciphertext => exact (isLive_congr (receive_state snow s ciphertext)).trans h
  | startTimers task => exact (isLive_congr rfl).trans h
  | onActivity => exact (onActivity_isLive s).trans h
  | handleTimerEvent event =>
    cases event with
    | warningDue => exact (warningDue_isLive s).trans h
    | idleExpired | hardCapReached => cases hends
  | endFor | peerDisconnected => cases hends

/-- An ended session keeps its state and what it does not hold. -/
theorem perform_of_released (h : s.Released) : (s.perform snow call).1.Released := by
  cases call with
  | send plaintext =>
    refine h.of_eq ?_
    show (s.send snow plaintext).1 = s
    rw [send, guarded_eq_error h.ended]
  | receive ciphertext =>
    refine h.of_eq ?_
    show (s.receive snow ciphertext).1 = s
    rw [receive, guarded_eq_error h.ended]
  | startTimers task => exact ⟨h.ended, h.transport, h.scratch⟩
  | onActivity => exact h.of_eq (congrArg Prod.fst (onActivity_of_ended h.ended))
  | handleTimerEvent event =>
    cases event with
    | warningDue => exact h.of_eq (congrArg Prod.fst (warningDue_of_ended h.ended))
    | idleExpired => exact h.of_eq (endFor_of_ended h.ended .idleTimedOut)
    | hardCapReached => exact h.of_eq (endFor_of_ended h.ended .hardCapReached)
  | endFor reason => exact h.of_eq (endFor_of_ended h.ended reason)
  | peerDisconnected => exact h.of_eq (peerDisconnected_of_ended h.ended)

theorem perform_established (h : s.Established) : (s.perform snow call).1.Established := by
  rcases h with hlive | hreleased
  · by_cases hends : call.ends = true
    · exact .inr (perform_of_ends hlive hends)
    · exact .inl (perform_of_not_ends hlive (Bool.eq_false_iff.mpr hends))
  · exact .inr (perform_of_released hreleased)

theorem perform_refused (h : s.state = .ended) (hcall : call.operates = true) :
    (s.perform snow call).2.error? = some .noSession := by
  cases call with
  | send plaintext =>
    show SessionAnswer.error? (.bytes (s.send snow plaintext).2) = _
    rw [send, guarded_eq_error h]
    rfl
  | receive ciphertext =>
    show SessionAnswer.error? (.bytes (s.receive snow ciphertext).2) = _
    rw [receive, guarded_eq_error h]
    rfl
  | onActivity =>
    show SessionAnswer.error? (.unit s.onActivity.2) = _
    rw [onActivity_of_ended h]
    rfl
  | _ => cases hcall

/-! ## One end -/

/-- What a call may do to a session that ends once: ENDED stays, refuses every operation
and holds nothing; a reported end is the end this call made. -/
structure EndsOnce (snow : Snow) (s : SessionObject) (call : SessionCall) : Prop where
  absorbing : s.state = .ended → (s.perform snow call).1.state = .ended
  refused : s.state = .ended → call.operates = true →
    ∃ e, (s.perform snow call).2.error? = some e
  released : (s.perform snow call).1.state = .ended →
    (s.perform snow call).1.transport = none ∧ (s.perform snow call).1.scratch = []
  reported : ∀ reason, (s.perform snow call).2.endReason? = some reason →
    s.state ≠ .ended ∧ (s.perform snow call).1.state = .ended

/-- Of a run: every call, and one report at most. -/
def OneShot (snow : Snow) (s : SessionObject) (calls : List SessionCall) : Prop :=
  Along (fun s call => (s.perform snow call).1) (EndsOnce snow) s calls ∧
    ((answers (perform snow) s calls).filterMap SessionAnswer.endReason?).length ≤ 1

/-- No expiry is handed to a session after a call that ends it. -/
def ExpiresFirst (calls : List SessionCall) : Prop :=
  Always (fun past call => call.expiry? ≠ none → ∀ earlier ∈ past, earlier.ends = false) calls

theorem endsOnce_iff (h : s.Established) :
    EndsOnce snow s call ↔ (s.state = .ended → call.expiry? = none) := by
  constructor
  · intro honce hended
    by_contra hexpires
    obtain ⟨reason, hreason⟩ := Option.ne_none_iff_exists'.mp hexpires
    exact (honce.reported reason ((perform_endReason snow s call).trans hreason)).1 hended
  · intro hquiet
    refine ⟨fun hended => (perform_of_released (h.released hended)).ended,
      fun hended hcall => ⟨_, perform_refused hended hcall⟩, fun hended => ?_, ?_⟩
    · have hreleased := (perform_established h).released hended
      exact ⟨hreleased.transport, hreleased.scratch⟩
    · intro reason hreason
      rw [perform_endReason] at hreason
      have hlive : s.state ≠ .ended := by
        intro hended
        rw [hquiet hended] at hreason
        cases hreason
      exact ⟨hlive, (perform_of_ends (h.resolve_right fun hreleased => hlive hreleased.ended)
        (SessionCall.ends_of_expiry hreason)).ended⟩

theorem answers_endReason (snow : Snow) (s : SessionObject) (calls : List SessionCall) :
    (answers (perform snow) s calls).filterMap SessionAnswer.endReason? =
      calls.filterMap SessionCall.expiry? := by
  induction calls generalizing s with
  | nil => rfl
  | cons call calls ih =>
    rw [answers, List.filterMap_cons, List.filterMap_cons, perform_endReason, ih]

theorem along_of_released (h : s.Released) :
    Along (fun s call => (s.perform snow call).1) (EndsOnce snow) s calls ↔
      ∀ call ∈ calls, call.expiry? = none := by
  induction calls generalizing s with
  | nil => simp [Along]
  | cons call calls ih =>
    rw [Along, endsOnce_iff (.inr h), ih (perform_of_released h), List.forall_mem_cons]
    exact and_congr_left fun _ => forall_prop_of_true h.ended

theorem expiresFirst_cons_of_ends (hends : call.ends = true) :
    ExpiresFirst (call :: calls) ↔ ∀ later ∈ calls, later.expiry? = none := by
  unfold ExpiresFirst
  rw [always_cons]
  constructor
  · rintro ⟨-, hrest⟩ later hlater
    obtain ⟨past, rest, rfl⟩ := List.append_of_mem hlater
    by_contra hexpires
    exact absurd (hrest past later rest rfl hexpires call (by simp)) (by simp [hends])
  · intro hquiet
    refine ⟨by simp, ?_⟩
    rintro past later rest rfl hexpires
    exact absurd (hquiet later (by simp)) hexpires

theorem expiresFirst_cons_of_not_ends (hends : call.ends = false) :
    ExpiresFirst (call :: calls) ↔ ExpiresFirst calls := by
  unfold ExpiresFirst
  rw [always_cons]
  simp [hends, Always]

theorem along_of_isLive (h : s.isLive = true) :
    Along (fun s call => (s.perform snow call).1) (EndsOnce snow) s calls ↔
      ExpiresFirst calls := by
  induction calls generalizing s with
  | nil => simp [Along, ExpiresFirst]
  | cons call calls ih =>
    have hfirst : EndsOnce snow s call :=
      (endsOnce_iff (.inl h)).mpr fun hended => absurd hended (ne_ended_of_isLive h)
    rw [Along, and_iff_right hfirst]
    by_cases hends : call.ends = true
    · rw [along_of_released (perform_of_ends h hends), expiresFirst_cons_of_ends hends]
    · have hends : call.ends = false := Bool.eq_false_iff.mpr hends
      rw [ih (perform_of_not_ends h hends), expiresFirst_cons_of_not_ends hends]

/-- An expiry ends the session, so at most one comes first. -/
theorem ExpiresFirst.length_le_one (h : ExpiresFirst calls) :
    (calls.filterMap SessionCall.expiry?).length ≤ 1 := by
  induction calls with
  | nil => simp
  | cons call calls ih =>
    rw [List.filterMap_cons]
    cases hexpires : call.expiry? with
    | none =>
      by_cases hends : call.ends = true
      · have hquiet := (expiresFirst_cons_of_ends hends).mp h
        simp [List.filterMap_eq_nil_iff.mpr hquiet]
      · exact ih ((expiresFirst_cons_of_not_ends (Bool.eq_false_iff.mpr hends)).mp h)
    | some reason =>
      have hquiet := (expiresFirst_cons_of_ends (SessionCall.ends_of_expiry hexpires)).mp h
      simp [List.filterMap_eq_nil_iff.mpr hquiet]

/-- A session ends once in exactly the runs that hand it no expiry after its end. -/
theorem oneShot_iff_expiresFirst (snow : Snow) (params : SessionParams) (calls : List SessionCall) :
    OneShot snow (establish params) calls ↔ ExpiresFirst calls := by
  unfold OneShot
  rw [along_of_isLive rfl, answers_endReason]
  exact and_iff_left_of_imp ExpiresFirst.length_le_one

/-- A cipher that seals by adding an empty tag and opens nothing. -/
def idleSnow : Snow where
  cipher := plainCipher
  decrypt _ _ buf := (buf, none)

/-- A user ends the session while an idle expiry waits to be handled: the expiry is
reported as an end of its own. -/
theorem waiting_expiry_reports_again :
    ¬ OneShot idleSnow (establish SessionParams.specDefaults)
      [.endFor .userEnded, .handleTimerEvent .idleExpired] := by
  rintro ⟨⟨-, hexpiry, -⟩, -⟩
  exact (hexpiry.reported .idleTimedOut rfl).1 rfl

end SessionObject

end Conveyance.Core
