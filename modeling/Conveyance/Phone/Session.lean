import Conveyance.Core.Session
import Conveyance.Lib.Bytes
import Conveyance.Lib.Transition

/-!
# The phone's session (android, session/PhoneSession.kt and SessionStateMachine.kt)

The class itself, and the coroutines that run on it: `start`, the collector of the link,
the timers, the blocks `endNow` launches and the callers of `send`. What a coroutine does
between two suspension points is one step, since all of them are confined to one
dispatcher. Other threads touch the session in two ways only, and these are steps too:
they read its state and they claim the handshake's decision.

A coroutine that waits may be resumed with a result and may be cancelled. Where both are
on their way, either arrives. The timeout of the handshake, and a timeout of the caller's
own, arrive as the same exception.

The Noise session, the assembler and the splitter are `Endpoint`. A KK initiator has
nothing to write after the second message, so that the collector only reads.
-/

namespace Conveyance.Phone

open Lib
open Conveyance.Core (SessionState EndReason TimerEvent)

/-! ## The state machine -/

inductive TransitionResult where
  | moved (target : SessionState)
  | illegal (source : SessionState) (event : Core.Event)
deriving DecidableEq

/-- The state an event leads to, if it means anything. -/
def SessionStateMachine.target : SessionState → Core.Event → Option SessionState
  | .noSession, .beginHandshake => some .handshaking
  | .handshaking, .handshakeCompleted => some .active
  | .handshaking, .aborted => some .noSession
  | .active, .activity => some .active
  | .active, .warningDue => some .idleWarning
  | .active, .idleExpired => some .ended
  | .active, .hardCapReached => some .ended
  | .active, .peerDisconnected => some .ended
  | .active, .endRequested _ => some .ended
  | .idleWarning, .activity => some .active
  | .idleWarning, .idleExpired => some .ended
  | .idleWarning, .hardCapReached => some .ended
  | .idleWarning, .peerDisconnected => some .ended
  | .idleWarning, .endRequested _ => some .ended
  | _, _ => none

def SessionStateMachine.step (source : SessionState) (event : Core.Event) : TransitionResult :=
  match target source event with
  | some state => .moved state
  | none => .illegal source event

/-- ACTIVE or IDLE_WARNING. -/
def isLive : SessionState → Bool
  | .active => true
  | .idleWarning => true
  | _ => false

/-! ## The class -/

inductive SessionException where
  | handshakeFailed
  | sessionEnded
  | wrongPhase (detail : String)
  | notActive
deriving DecidableEq

/-- A failed `check`. -/
inductive IllegalState where
  | illegalState
deriving DecidableEq

inductive LinkTeardown where
  | peerDisconnected
  | adapterOff
  | subscriptionLost
  | localShutdown
  | protocolViolation
deriving DecidableEq

inductive LinkEvent where
  | chunk (bytes : Bytes)
  | torn (reason : LinkTeardown)

inductive HandshakeDecision where
  | pending
  | cancelled
  | promoted
deriving DecidableEq

/-- What a session is built from. -/
structure Endpoint where
  Noise : Type
  Assembler : Type
  initiate : Except SessionException Noise
  writeHandshakeMessage : Noise → Except SessionException (Noise × Bytes)
  readHandshakeMessage : Noise → Bytes → Except SessionException Noise
  isHandshakeComplete : Noise → Bool
  encrypt : Noise → Bytes → Except SessionException (Noise × Bytes)
  decrypt : Noise → Bytes → Except SessionException (Noise × Bytes)
  assembler : Assembler
  /-- No messages are a framing error. -/
  ingest : Assembler → Bytes → Assembler × Option (List Bytes)
  /-- Frames and the next sequence number, for a write length and the next one before. The
  splitter may throw. -/
  split : Bytes → Nat → Nat → Option (List Bytes × Nat)

/-- What the session does to its surroundings, in order. -/
inductive Effect where
  | timersCancelled
  | noiseClosed
  | identityClosed
  | inboundClosed
  | linkShutdown
  | onEnded (reason : EndReason)
  | scopeCancelled
  | decrypting (message : Bytes)
  | offering (plaintext : Bytes)
deriving DecidableEq

structure PhoneSession (E : Endpoint) where
  state : SessionState
  /-- Every value the state has been set to. -/
  history : List SessionState
  decision : HandshakeDecision
  handshakeDone : Option (Except SessionException Unit)
  startCalled : Bool
  handshakeTornDown : Bool
  noise : Option E.Noise
  assembler : E.Assembler
  txSeq : Nat
  timers : Bool
  scopeActive : Bool
  inboundClosed : Bool
  linkDown : Bool
  effects : List Effect

namespace PhoneSession

variable {E : Endpoint}

def new (E : Endpoint) : PhoneSession E where
  state := .noSession
  history := []
  decision := .pending
  handshakeDone := none
  startCalled := false
  handshakeTornDown := false
  noise := none
  assembler := E.assembler
  txSeq := 0
  timers := false
  scopeActive := true
  inboundClosed := false
  linkDown := false
  effects := []

section

variable (s : PhoneSession E)

def emit (effects : List Effect) : PhoneSession E :=
  { s with effects := s.effects ++ effects }

/-- The state, and whether the event moved it. -/
def applyEvent (event : Core.Event) : PhoneSession E × Bool :=
  match SessionStateMachine.step s.state event with
  | .moved state => ({ s with state, history := s.history ++ [state] }, true)
  | .illegal _ _ => (s, false)

/-- `handshakeDecision.compareAndSet(Pending, Cancelled)`. -/
def claim : PhoneSession E :=
  if s.decision = .pending then { s with decision := .cancelled } else s

/-- A deferred is completed once. -/
def complete (result : Except SessionException Unit) : PhoneSession E :=
  if s.handshakeDone.isSome then s else { s with handshakeDone := some result }

/-- `noise?.close(); noise = null`. -/
def closeNoise : PhoneSession E :=
  if s.noise.isSome then { s with noise := none }.emit [.noiseClosed] else s

/-- The end of `abortHandshake`, gone through once. -/
def tearDownHandshake : PhoneSession E :=
  if s.handshakeTornDown then s
  else
    { { s with handshakeTornDown := true }.closeNoise with
      inboundClosed := true, linkDown := true, scopeActive := false }.emit
        [.inboundClosed, .linkShutdown, .scopeCancelled]

def abortHandshake (cause : SessionException) :
    Except IllegalState (PhoneSession E) :=
  if s.state = .handshaking ∨ s.state = .noSession then
    .ok ((s.claim.applyEvent .aborted).1.complete (.error cause)).tearDownHandshake
  else .error .illegalState

/-- One terminal event, then the cleanup. -/
def terminate (event : Core.Event) (reason : EndReason) : PhoneSession E :=
  match s.applyEvent event with
  | (s, false) => s
  | (s, true) =>
    { { s with timers := false }.emit (if s.timers then [.timersCancelled] else [])
        |>.closeNoise with
      inboundClosed := true, linkDown := true, scopeActive := false }.emit
        [.identityClosed, .inboundClosed, .linkShutdown, .onEnded reason, .scopeCancelled]

def endFor (reason : EndReason) : PhoneSession E :=
  s.terminate (.endRequested reason) reason

def mapTeardown : LinkTeardown → EndReason
  | .peerDisconnected => .peerDisconnected
  | .adapterOff => .peerDisconnected
  | .subscriptionLost => .peerDisconnected
  | .localShutdown => .userEnded
  | .protocolViolation => .protocolViolation

def endFromTeardown (teardown : LinkTeardown) : PhoneSession E :=
  if mapTeardown teardown = .peerDisconnected then s.terminate .peerDisconnected .peerDisconnected
  else s.endFor (mapTeardown teardown)

def recordActivity : PhoneSession E := (s.applyEvent .activity).1

/-- Whether the handshake's decision was still there to claim. -/
def promote : Except IllegalState (PhoneSession E × Bool) :=
  if s.decision ≠ .pending then (s.abortHandshake .handshakeFailed).map fun s => (s, false)
  else
    .ok (
      { ({ s with decision := .promoted }.applyEvent .handshakeCompleted).1 with timers := true },
      true)

end

/-- The loop over the messages of a chunk. What follows the last handshake message is not
looked at. -/
def readMessages (s : PhoneSession E) (noise : E.Noise) :
    List Bytes → Except IllegalState (PhoneSession E)
  | [] => .ok s
  | message :: messages =>
    match E.readHandshakeMessage noise message with
    | .error e => s.abortHandshake e
    | .ok noise =>
      if E.isHandshakeComplete noise then do
        let (s, promoted) ← { s with noise := some noise }.promote
        .ok (if promoted then s.complete (.ok ()) else s)
      else { s with noise := some noise }.readMessages noise messages

variable (s : PhoneSession E)

def routeHandshaking (event : LinkEvent) :
    Except IllegalState (PhoneSession E) :=
  match s.noise, event with
  | none, _ => .ok s
  | some noise, .chunk bytes =>
    match E.ingest s.assembler bytes with
    | (assembler, none) => { s with assembler }.abortHandshake .handshakeFailed
    | (assembler, some messages) => { s with assembler }.readMessages noise messages
  | some _, .torn _ => s.abortHandshake .handshakeFailed

/-- The next message of a chunk: a plaintext to hand on, and the messages behind it. -/
def decryptNext : List Bytes → PhoneSession E × Option (Bytes × List Bytes)
  | [] => (s, none)
  | message :: messages =>
    match s.noise with
    -- the collector does not get here without a session
    | none => (s, none)
    | some noise =>
      match E.decrypt noise message with
      | .error _ => ((s.emit [.decrypting message]).endFor .protocolViolation, none)
      | .ok (noise, plaintext) =>
        ((({ s with noise := some noise }.emit [.decrypting message]).recordActivity).emit
          [.offering plaintext], some (plaintext, messages))

def routeActive :
    LinkEvent → PhoneSession E × Option (Bytes × List Bytes)
  | .chunk bytes =>
    match E.ingest s.assembler bytes with
    | (assembler, none) => ({ s with assembler }.endFor .protocolViolation, none)
    | (assembler, some messages) => { s with assembler }.decryptNext messages
  | .torn reason => (s.endFromTeardown reason, none)

def onTimerEvent : TimerEvent → PhoneSession E
  | .warningDue => (s.applyEvent .warningDue).1
  | .idleExpired => s.terminate .idleExpired .idleTimedOut
  | .hardCapReached => s.terminate .hardCapReached .hardCapReached

/-- The `catch` of `sendFramed`: a dead link, as the state has it. -/
def linkClosed (reason : LinkTeardown) : PhoneSession E × SessionException :=
  if s.state = .handshaking then (s, .handshakeFailed)
  else if isLive s.state then (s.endFromTeardown reason, .sessionEnded)
  else (s, .sessionEnded)

/-- By state: out of the handshake, or out of the session. -/
def stop (live : PhoneSession E → PhoneSession E) :
    Except IllegalState (PhoneSession E) :=
  if s.state = .handshaking then s.abortHandshake .handshakeFailed
  else if isLive s.state then .ok (live s)
  else .ok s

end PhoneSession

/-! ## The coroutines -/

/-- How the caller of `start` is cancelled. -/
inductive Cancellation where
  | plain
  | timeout
deriving DecidableEq

/-- Why `sendFramed` stops with frames left, or with its last one in doubt. -/
inductive Stop where
  | closed (e : SessionException)
  /-- A frame is too large for the link: an `IllegalArgumentException`. -/
  | refused
  /-- The message could not be split. -/
  | unsplit
  | cancelled
deriving DecidableEq

/-- How `start` ends. -/
inductive StartOutcome where
  | returned
  | threw (e : SessionException)
  | cancelled
  | illegalState
  /-- With an exception of `sendFramed` that `start` does not catch. -/
  | stopped (cause : Stop)
deriving DecidableEq

/-- Where `start` is. -/
inductive StartPc where
  | notCalled
  | entering
  | sending (frames : List Bytes)
  | awaiting
  /-- The block on the dispatcher is through. -/
  | leaving (outcome : StartOutcome)
  /-- In the `catch` of the cancellation. -/
  | cleaning
  | finished (outcome : StartOutcome)
deriving DecidableEq

/-- The cancellation handler is registered. -/
def StartPc.watched : StartPc → Bool
  | .notCalled => false
  | .finished _ => false
  | _ => true

inductive CollectorPc where
  | notLaunched
  | collecting
  /-- Suspended in `inboundChannel.send`. -/
  | offering (plaintext : Bytes) (messages : List Bytes)
  | finished
deriving DecidableEq

/-- How `send` ends. -/
inductive SendResult where
  | returned
  /-- Nothing was encrypted. -/
  | rejected (e : SessionException)
  /-- Cancelled before the lock, or behind the last frame. -/
  | cancelled
  | stopped (cause : Stop)
deriving DecidableEq

/-- A caller of `send`. -/
inductive SenderPc where
  | waiting (plaintext : Bytes)
  /-- With the lock. -/
  | sending (frames : List Bytes)
  | finished (result : SendResult)

/-- What comes of `link.send`. -/
inductive Sent where
  | accepted
  | closed (reason : LinkTeardown)
  | refused
  | cancelled

structure Host (E : Endpoint) where
  session : PhoneSession E
  start : StartPc
  caller : Option Cancellation
  /-- The handshake's timeout has fired. -/
  timedOut : Bool
  collector : CollectorPc
  /-- `endNow` on other threads: whether it saw HANDSHAKING, and its reason. -/
  endReads : List (Bool × EndReason)
  /-- The blocks `endNow` has launched. -/
  endTasks : List EndReason
  senders : List SenderPc
  /-- The frames the link has taken. -/
  wire : List Bytes
  inbound : List Bytes
  /-- A launched coroutine failed a `check`. -/
  crashed : Bool

inductive HostStep where
  /-- The caller. -/
  | call
  | cancel (kind : Cancellation)
  /-- `start`. -/
  | enter (maxWriteLen : Nat)
  | enterCancelled
  | frame (sent : Sent)
  /-- The link took the frame before it went down. -/
  | lateFrame
  | timeout
  | resumeDone
  | resumeTimeout
  | resumeCancelled
  | leave
  | leaveCancelled
  | clean
  /-- The collectors. -/
  | event (event : LinkEvent)
  | eventsEnd
  | offer
  | timer (event : TimerEvent)
  /-- `endNow`. -/
  | endRead (reason : EndReason)
  | endLaunch (i : Nat)
  | endRun (i : Nat)
  /-- `send`. -/
  | send (plaintext : Bytes)
  | sendBegin (i maxWriteLen : Nat)
  | sendFrame (i : Nat) (sent : Sent)
  | lateSend (i : Nat)

namespace Host

variable {E : Endpoint}

def new (E : Endpoint) : Host E where
  session := .new E
  start := .notCalled
  caller := none
  timedOut := false
  collector := .notLaunched
  endReads := []
  endTasks := []
  senders := []
  wire := []
  inbound := []
  crashed := false

variable (h : Host E)

/-- The block of `start` fails with `e`: the handshake is aborted first. -/
def failStart (e : SessionException) : Host E :=
  match h.session.abortHandshake e with
  | .ok session => { h with session, start := .leaving (.threw e) }
  | .error _ => { h with start := .leaving .illegalState }

def doneOutcome : Except SessionException Unit → StartOutcome
  | .ok _ => .returned
  | .error e => .threw e

/-- The frames that are left, or the wait for the second message. -/
def sendFrames : List Bytes → Host E
  | [] =>
    match h.session.handshakeDone with
    | none => { h with start := .awaiting }
    | some result => { h with start := .leaving (doneOutcome result) }
  | frames => { h with start := .sending frames }

/-- The block of `start` up to its first suspension. -/
def enter (maxWriteLen : Nat) : Host E :=
  let session := ({ h.session with startCalled := true }.applyEvent .beginHandshake).1
  match E.initiate with
  | .error e => { h with session }.failStart e
  | .ok noise =>
    match E.writeHandshakeMessage noise with
    | .error e =>
      { h with
        session := { session with noise := some noise }
        collector := .collecting }.failStart e
    | .ok (noise, message) =>
      match E.split message maxWriteLen session.txSeq with
      | none =>
        { h with session := { session with noise := some noise }, collector := .collecting,
                 start := .leaving (.stopped .unsplit) }
      | some (frames, txSeq) =>
        { h with session := { session with noise := some noise, txSeq },
                 collector := .collecting }.sendFrames frames

/-- A write of the first message. -/
def frame (frame : Bytes) (rest : List Bytes) : Sent → Host E
  | .accepted =>
    if h.session.linkDown then h else { h with wire := h.wire ++ [frame] }.sendFrames rest
  | .closed reason =>
    match h.session.linkClosed reason with
    | (session, e) => { h with session }.failStart e
  -- neither `sendFramed` nor `start` catches it: the handshake is not aborted
  | .refused => { h with start := .leaving (.stopped .refused) }
  | .cancelled => if h.caller.isSome then { h with start := .cleaning } else h

/-- The end of a block that a coroutine of the session's scope runs. -/
def settle : Except IllegalState (PhoneSession E) → Host E
  | .ok session => { h with session }
  | .error _ => { h with crashed := true }

/-- The collector goes on, or waits for room in the channel. -/
def deliver : PhoneSession E × Option (Bytes × List Bytes) → Host E
  | (session, none) => { h with session, collector := .collecting }
  | (session, some (plaintext, messages)) =>
    { h with session, collector := .offering plaintext messages }

def route (event : LinkEvent) : Host E :=
  if h.session.state = .handshaking then h.settle (h.session.routeHandshaking event)
  else if isLive h.session.state then h.deliver (h.session.routeActive event)
  else h

def setSender (i : Nat) (pc : SenderPc) : Host E :=
  { h with senders := h.senders.set i pc }

def locked : Bool :=
  h.senders.any fun pc => match pc with
    | .sending _ => true
    | _ => false

/-- The frames that are left of an application message, or the end of `send`. -/
def sendRest (i : Nat) : List Bytes → Host E
  | [] => { h with session := h.session.recordActivity }.setSender i (.finished .returned)
  | frames => h.setSender i (.sending frames)

/-- `send` with the lock, up to its first suspension. -/
def sendBegin (i maxWriteLen : Nat) (plaintext : Bytes) : Host E :=
  if ¬ isLive h.session.state then h.setSender i (.finished (.rejected .notActive))
  else
    match h.session.noise with
    -- a live session has its Noise session
    | none => h
    | some noise =>
      match E.encrypt noise plaintext with
      | .error e =>
        { h with session := h.session.endFor .protocolViolation }.setSender i
          (.finished (.rejected e))
      | .ok (noise, message) =>
        match E.split message maxWriteLen h.session.txSeq with
        | none =>
          { h with session := { h.session with noise := some noise } }.setSender i
            (.finished (.stopped .unsplit))
        | some (frames, txSeq) =>
          { h with session := { h.session with noise := some noise, txSeq } }.sendRest i frames

/-- A write of an application message. -/
def sendFrame (i : Nat) (frame : Bytes) (rest : List Bytes) : Sent → Host E
  | .accepted =>
    if h.session.linkDown then h else { h with wire := h.wire ++ [frame] }.sendRest i rest
  | .closed reason =>
    match h.session.linkClosed reason with
    | (session, e) => { h with session }.setSender i (.finished (.stopped (.closed e)))
  | .refused => h.setSender i (.finished (.stopped .refused))
  | .cancelled => h.setSender i (.finished (.stopped .cancelled))

/-- One step. A step that is not enabled does nothing. -/
def step : HostStep → Host E
  | .call =>
    if h.start = .notCalled then
      { h with start := .entering,
               session := if h.caller.isSome then h.session.claim else h.session }
    else h
  | .cancel kind =>
    if h.caller.isSome then h
    else { h with caller := some kind,
                  session := if h.start.watched then h.session.claim else h.session }
  | .enter maxWriteLen =>
    if h.start = .entering ∧ h.caller = none then h.enter maxWriteLen else h
  | .enterCancelled =>
    if h.start = .entering ∧ h.caller.isSome then { h with start := .cleaning } else h
  | .frame sent =>
    match h.start with
    | .sending (frame :: rest) => h.frame frame rest sent
    | _ => h
  | .lateFrame =>
    match h.start with
    | .sending (_ :: rest) => if h.session.linkDown then h.sendFrames rest else h
    | _ => h
  | .timeout => if h.start = .awaiting then { h with timedOut := true } else h
  | .resumeDone =>
    match h.start, h.session.handshakeDone with
    | .awaiting, some result => { h with start := .leaving (doneOutcome result) }
    | _, _ => h
  | .resumeTimeout =>
    if h.start = .awaiting ∧ (h.timedOut ∨ h.caller = some .timeout) then
      h.failStart .handshakeFailed
    else h
  | .resumeCancelled =>
    if h.start = .awaiting ∧ h.caller = some .plain then { h with start := .cleaning } else h
  | .leave =>
    match h.start with
    | .leaving outcome => { h with start := .finished outcome }
    | _ => h
  | .leaveCancelled =>
    if h.start = .leaving .returned ∧ h.caller.isSome then { h with start := .cleaning } else h
  | .clean =>
    if h.start = .cleaning then
      { h.settle (h.session.stop fun s => s.endFor .userEnded) with start := .finished .cancelled }
    else h
  | .event event =>
    if h.collector = .collecting ∧ h.session.scopeActive then h.route event else h
  | .eventsEnd =>
    if h.collector = .collecting ∧ h.session.scopeActive then
      { h.settle (h.session.stop fun s => s.terminate .peerDisconnected .peerDisconnected) with
        collector := .finished }
    else h
  | .offer =>
    match h.collector with
    | .offering plaintext messages =>
      if ¬ h.session.scopeActive then h
      else if h.session.inboundClosed then { h with collector := .collecting }
      else { h with inbound := h.inbound ++ [plaintext] }.deliver (h.session.decryptNext messages)
    | _ => h
  | .timer event =>
    if h.session.timers ∧ h.session.scopeActive then
      { h with session := h.session.onTimerEvent event }
    else h
  | .endRead reason =>
    { h with endReads := h.endReads ++ [(decide (h.session.state = .handshaking), reason)] }
  | .endLaunch i =>
    match h.endReads[i]? with
    | some (handshaking, reason) =>
      { h with endReads := h.endReads.eraseIdx i, endTasks := h.endTasks ++ [reason],
               session := if handshaking then h.session.claim else h.session }
    | none => h
  | .endRun i =>
    match h.endTasks[i]? with
    | some reason =>
      if h.session.scopeActive then
        { h with endTasks := h.endTasks.eraseIdx i }.settle
          (h.session.stop fun s => s.endFor reason)
      else h
    | none => h
  | .send plaintext => { h with senders := h.senders ++ [.waiting plaintext] }
  | .sendBegin i maxWriteLen =>
    match h.senders[i]? with
    | some (.waiting plaintext) => if h.locked then h else h.sendBegin i maxWriteLen plaintext
    | _ => h
  | .sendFrame i sent =>
    match h.senders[i]? with
    | some (.sending (frame :: rest)) => h.sendFrame i frame rest sent
    | _ => h
  | .lateSend i =>
    match h.senders[i]? with
    | some (.sending (_ :: rest)) => if h.session.linkDown then h.sendRest i rest else h
    | _ => h

def run (steps : List HostStep) : Host E := steps.foldl step h

end Host

end Conveyance.Phone
