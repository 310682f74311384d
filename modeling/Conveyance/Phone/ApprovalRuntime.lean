import Conveyance.Crypto.HashChain
import Conveyance.Core.Session
import Conveyance.Ffi.ApprovalProtocol
import Conveyance.Phone.History

/-!
# The phone's approval runtime (android, approval/PhoneApprovalRuntime.kt)

One runtime serves one session. A coroutine collects the inbound messages, one
after another; each decision is carried out by a `finalize` coroutine of its own;
the user, the authentication and the timers call in between. They share the state
machine, the field `currentRequest` and the approval log.

A move is the stretch of one coroutine between two suspension points. Only the
dispatcher touches `currentRequest`, so an access to it goes with the call next to
it. The body of a log transaction runs on a thread of its own, so a stretch is cut
where it calls the state machine a second time, and the body where it calls out. That
the dispatcher may turn to another coroutine at such a cut only adds runs.

Left free: what the session and the clocks say, how a suspended call comes back, and
when. A handle that was closed makes calls on it fail, and such a call may always fail.

- `PhoneApprovalRuntime.step`, `PhoneApprovalRuntime.run`: the moves.
- `RuntimeEvent`: the signatures asked for, the rows committed, what is handed to the
  session, in their order.
-/

namespace Conveyance.Phone

open Lib Crypto Protocol
open Conveyance.Core (EndReason)

/-! ## Data -/

/-- What a runtime is built with, and the libraries under it. -/
structure RuntimeSetup where
  sessionId : String
  /-- The paired name of the PC. -/
  pcName : String
  uuid : Nat → String
  fromReader : Bytes → Except String WireMessage
  toF64 : List Char → Option UInt64
  sha256 : Bytes → Octets 32

/-- A `ValidatedApprovalRequest` as Kotlin holds it. References are numbered, for `===`. -/
structure RequestHandle where
  reference : Nat
  object : Ffi.ValidatedApprovalRequest

/-- `ApprovalAction.Finalize`. -/
structure FinalizeAction where
  instanceId : String
  sessionId : String
  decision : ApprovalDecision
deriving DecidableEq

def ApprovalDecision.toRustDecision : ApprovalDecision → Ffi.ApprovalDecision
  | .approved => .approved
  | .denied => .denied
  | .expired => .expired

def ApprovalDecision.reason : ApprovalDecision → String
  | .approved => "user_tap"
  | .denied => "user_denied"
  | .expired => "approval_timeout"

def eventApprovalRequest : String := "approval_request"

/-- The event a decision is logged as. -/
def eventType : Decision → String
  | .approved => "approval_granted"
  | .denied => "approval_denied"
  | .expired => "approval_expired"

def safeApprovalFailure : String := "Could not complete this approval. The session was closed."

/-- Sixteen octets from exactly thirty-two lower-case digits. -/
def hexToBytes (s : String) : Option (Octets 16) := hexDecodeArray 16 s

def ApprovalRequestCard.ofSummary (pcName : String) (summary : Ffi.ApprovalRequestSummary) :
    ApprovalRequestCard where
  requestId := summary.reqId
  opType := summary.opType
  pairedPcName := pcName
  service := summary.service
  method := summary.method
  endpoint := summary.endpoint
  paramsJson := summary.paramsJson
  requestedBy := summary.requestedBy
  timestampUnixSeconds := summary.timestamp

/-- The card a request is shown by. -/
def RequestHandle.card (pcName : String) (request : RequestHandle) :
    Except Ffi.ApprovalFfiError ApprovalRequestCard :=
  request.object.summary.map (.ofSummary pcName)

/-- `ApprovalLog`: the committed rows, and whether the write lock is held. -/
structure ApprovalLog where
  rows : List ChainRow
  locked : Bool

/-- `appendUnlocked`, up to the commit. -/
def ApprovalLog.stage (sha256 : Bytes → Octets 32) (log : ApprovalLog) (event : LogEvent) :
    ChainRow :=
  ⟨event, finalHash log.rows, computeEntryHash sha256 (finalHash log.rows) event⟩

def ApprovalLog.commit (log : ApprovalLog) (row : ChainRow) : ApprovalLog :=
  { log with rows := log.rows ++ [row] }

/-- Where the inbound collector is. -/
inductive DispatchPc where
  | idle
  | readingHistory (request : RequestHandle) (summary : Ffi.ApprovalRequestSummary)
      (receivedAtElapsedMs : Int)
  | appending (request : RequestHandle) (summary : Ffi.ApprovalRequestSummary)
      (tier : Ffi.TierDecision) (receivedAtElapsedMs : Int) (event : LogEvent)
  /-- The request's row is committed. -/
  | appended (request : RequestHandle) (summary : Ffi.ApprovalRequestSummary)
      (tier : Ffi.TierDecision) (receivedAtElapsedMs : Int)
  /-- The state machine took the request, and its state is looked at next. -/
  | reviewing (request : RequestHandle)
  /-- About to call `failProtocol`. -/
  | failing
  | listingServices (inbound : Ffi.DecodedApprovalInbound)
  /-- In `session.send`. -/
  | answering
  | stopped

/-- What `finalize` holds once the decision is its to carry out. -/
structure FinalizeJob where
  request : RequestHandle
  event : LogEvent

/-- Why a transaction is rolled back. -/
inductive Rollback where
  /-- `ApprovalExpiredBeforeSignature`. -/
  | expired (action : FinalizeAction)
  /-- `ApprovalNoLongerAuthorized`. -/
  | unauthorized
  | failed

/-- Where a `finalize` coroutine is. -/
inductive FinalizePc where
  | launched
  /-- `beforeFinalize` has answered. -/
  | rechecked (before : ApprovalAction)
  /-- Something was thrown before the log was reached. -/
  | failing (request : RequestHandle)
  | appending (job : FinalizeJob)
  | staged (job : FinalizeJob) (row : ChainRow)
  | authorized (job : FinalizeJob) (row : ChainRow)
  | signed (job : FinalizeJob) (row : ChainRow) (bytes : Bytes)
  | rolledBack (job : FinalizeJob) (cause : Rollback)
  | committed (job : FinalizeJob) (bytes : Bytes)
  /-- In `session.send`. -/
  | sending (job : FinalizeJob)
  | finished

structure FinalizeCoroutine where
  action : FinalizeAction
  pc : FinalizePc

inductive RuntimeEvent where
  /-- `protocol.signedResponse` is called, for this instance. -/
  | signing (instanceId : String) (request : RequestHandle) (decision : ApprovalDecision)
  | committed (event : LogEvent)
  /-- `session.send` is called. -/
  | handed (bytes : Bytes)
  | endNow (reason : EndReason)

structure PhoneApprovalRuntime where
  /-- The state machine, and the calls made on it. -/
  approvals : Log
  protocol : Ffi.ApprovalProtocol
  approvalLog : ApprovalLog
  currentRequest : Option RequestHandle
  closed : Bool
  /-- References given out so far. -/
  references : Nat
  collector : DispatchPc
  /-- The instances whose expiry is waited for. -/
  timers : List String
  /-- Every `finalize` coroutine launched, in that order. -/
  finalizers : List FinalizeCoroutine
  events : List RuntimeEvent

inductive RuntimeMove where
  | inbound (plaintext : Bytes) (receivedAtElapsedMs : Int) (sinceEpoch : Option UInt64)
  /-- `none` where the read fails. -/
  | historyRead (destinations : Option (List ApprovedDestination)) (timestamp : Int64)
  | commitRequest
  | resumeRequest
  | failRequest
  | proceed
  | services (names : Option (List String))
  | answered (sent : Bool)
  | stopCollecting
  | approve (instanceId : String)
  | deny (instanceId : String)
  | completeAuthentication (instanceId sessionId attemptId : String)
      (outcome : ApprovalAuthOutcome)
  | timer (instanceId : String)
  | begin (k : Nat)
  /-- `active` is what `session.isActive()` says the second time. -/
  | claim (k : Nat) (active : Bool) (timestamp : Int64)
  | abandon (k : Nat)
  | stage (k : Nat)
  | authorize (k : Nat)
  /-- No identity where the active one is not backed by a Rust handle. -/
  | sign (k : Nat) (identity : Option Ffi.UnlockedIdentity) (r : Readings)
  | commit (k : Nat) (stored : Bool)
  | resume (k : Nat)
  | sent (k : Nat) (delivered : Bool)
  | cancel (k : Nat)
  | sessionEnded
  | close (active : Bool)

/-- The coroutine a move belongs to, if it is a `finalize`. -/
def RuntimeMove.finalizer : RuntimeMove → Option Nat
  | .begin k | .claim k .. | .abandon k | .stage k | .authorize k | .sign k .. | .commit k _
  | .resume k | .sent k _ | .cancel k => some k
  | _ => none

namespace PhoneApprovalRuntime

def new (protocol : Ffi.ApprovalProtocol) (rows : List ChainRow) : PhoneApprovalRuntime :=
  ⟨.new, protocol, ⟨rows, false⟩, none, false, 0, .idle, [], [], []⟩

section Moves

variable (E : RuntimeSetup) (rt : PhoneApprovalRuntime)

/-! ## What the moves are made of -/

def emit (event : RuntimeEvent) : PhoneApprovalRuntime :=
  { rt with events := rt.events ++ [event] }

def goto (collector : DispatchPc) : PhoneApprovalRuntime := { rt with collector }

def unlock : PhoneApprovalRuntime :=
  { rt with approvalLog := { rt.approvalLog with locked := false } }

/-- A call on the state machine. -/
def call (c : Call) (r : Reading) : PhoneApprovalRuntime :=
  { rt with approvals := rt.approvals.add E.sessionId E.uuid (c, r) }

/-- What that call returns. -/
def answer (c : Call) (r : Reading) : ApprovalAction :=
  (rt.approvals.machine.call E.sessionId E.uuid r c).2

def failProtocol (r : Reading) : PhoneApprovalRuntime :=
  (rt.call E .sessionLost r).emit (.endNow .protocolViolation)

/-- `if (currentRequest === request) currentRequest = null`. -/
def forget (request : RequestHandle) : PhoneApprovalRuntime :=
  if rt.currentRequest.any (fun current => current.reference = request.reference) then
    { rt with currentRequest := none }
  else rt

def releaseAfterSessionEnd : PhoneApprovalRuntime :=
  if rt.closed then rt else { rt with closed := true, currentRequest := none, timers := [] }

/-- A coroutine is launched for a decision; none is in a scope that was cancelled. -/
def handleAction (r : Reading) : ApprovalAction → PhoneApprovalRuntime
  | .ignored | .authenticate .. => rt
  | .rejected _ => rt.failProtocol E r
  | .finalize instanceId sessionId decision =>
    if rt.closed then rt
    else
      { rt with
        finalizers := rt.finalizers ++ [⟨⟨instanceId, sessionId, decision⟩, .launched⟩] }

/-- A callback of the user interface or of a timer. -/
def callback (c : Call) (r : Reading) : PhoneApprovalRuntime :=
  (rt.call E c r).handleAction E r (rt.answer E c r)

/-! ## The inbound collector -/

/-- `dispatch`, and `receiveApprovalRequest` as far as the read of the history. -/
def dispatch (plaintext : Bytes) (receivedAtElapsedMs : Int) (sinceEpoch : Option UInt64)
    (r : Reading) : PhoneApprovalRuntime :=
  match rt.protocol.decodeInbound E.fromReader plaintext with
  | (protocol, .error _) => { rt with protocol }.failProtocol E r
  | (protocol, .ok inbound) =>
    let rt := { rt with protocol }
    match inbound.payload with
    | .request object =>
      match object.summary with
      | .error _ => rt.failProtocol E r
      | .ok summary =>
        { rt with
          references := rt.references + 1
          collector := .readingHistory ⟨rt.references, object⟩ summary receivedAtElapsedMs }
    | .sessionEnd => (rt.call E .sessionLost r).emit (.endNow .remoteEnded)
    | .ping _ =>
      match protocol.encodePong inbound sinceEpoch with
      | .error _ => rt.failProtocol E r
      | .ok pong => (rt.goto .answering).emit (.handed pong)
    | .listServices _ => rt.goto (.listingServices inbound)
    | .unexpected => rt.failProtocol E r

/-- From the history to the append of the request's row. A history that cannot be read is empty. -/
def evaluate (request : RequestHandle) (summary : Ffi.ApprovalRequestSummary)
    (receivedAtElapsedMs : Int) (destinations : Option (List ApprovedDestination))
    (timestamp : Int64) (r : Reading) : PhoneApprovalRuntime :=
  match rt.protocol.evaluateTier request.object (destinations.getD []),
      hexToBytes summary.reqId with
  | .ok tier, some reqId =>
    rt.goto (.appending request summary tier receivedAtElapsedMs
      ⟨reqId, eventApprovalRequest, summary.canonicalRequestJson, timestamp⟩)
  | _, _ => (rt.goto .idle).failProtocol E r

def requiredTier (tier : UInt8) : Option ApprovalRequiredTier :=
  if tier = 2 then some .tier2 else if tier = 3 then some .tier3 else none

/-- From the committed row to what the state machine says. -/
def present (request : RequestHandle) (summary : Ffi.ApprovalRequestSummary)
    (tier : Ffi.TierDecision) (receivedAtElapsedMs : Int) (r : Reading) : PhoneApprovalRuntime :=
  match requiredTier tier.tier with
  | none => (rt.goto .idle).failProtocol E r
  | some required =>
    let c := .receive (.ofSummary E.pcName summary) required tier.reasons receivedAtElapsedMs
    let next := { rt with currentRequest := some request }.call E c r
    match rt.answer E c r with
    | .rejected _ => (next.forget request).goto .failing
    | .ignored => next.goto (.reviewing request)
    | action => (next.goto .idle).handleAction E r action

/-- What is left of the stretch after the state machine's first answer. -/
def proceed (r : Reading) : PhoneApprovalRuntime :=
  match rt.collector with
  | .reviewing request =>
    match rt.approvals.machine.state with
    | .awaitingUserDecision p => { rt with timers := p.instanceId :: rt.timers }.goto .idle
    | _ => (rt.forget request).goto .failing
  | .failing => (rt.goto .idle).failProtocol E r
  | _ => rt

def sendServices (inbound : Ffi.DecodedApprovalInbound) (names : Option (List String))
    (r : Reading) : PhoneApprovalRuntime :=
  match names.map (rt.protocol.encodeListServicesResponse inbound) with
  | some (.ok response) => (rt.goto .answering).emit (.handed response)
  | _ => (rt.goto .idle).failProtocol E r

/-! ## A finalize coroutine -/

section

variable (k : Nat)

/-- The coroutine goes on from another place. -/
def move (f : FinalizeCoroutine) (pc : FinalizePc) : PhoneApprovalRuntime :=
  { rt with finalizers := rt.finalizers.set k { f with pc } }

/-- `finalize(action)`, as far as the first answer. -/
def finalize (action : FinalizeAction) (r : Reading) : PhoneApprovalRuntime :=
  let c := .beforeFinalize action.instanceId action.sessionId action.decision
  (rt.call E c r).move k ⟨action, .launched⟩ (.rechecked (rt.answer E c r))

/-- The row of a decision, unless its payload or its id cannot be made. -/
def prepare (request : RequestHandle) (p : Pending) (decision : ApprovalDecision)
    (timestamp : Int64) : Option FinalizeJob := do
  let tier := if p.requiredTier = .tier3 then 3 else 2
  let payload ← (request.object.terminalLogPayload E.toF64 decision.toRustDecision
    (some decision.reason) tier p.tier3Reasons).toOption
  let reqId ← hexToBytes p.request.requestId
  some ⟨request, ⟨reqId, eventType decision.toRustDecision.toDecision, payload, timestamp⟩⟩

/-- From the answer of `beforeFinalize` to the log. -/
def claim (f : FinalizeCoroutine) (before : ApprovalAction) (active : Bool)
    (timestamp : Int64) (r : Reading) : PhoneApprovalRuntime :=
  match before with
  | .finalize instanceId sessionId decision =>
    if decision ≠ f.action.decision then rt.finalize E k ⟨instanceId, sessionId, decision⟩ r
    else
      match rt.currentRequest, active with
      | some request, true =>
        match rt.approvals.machine.state with
        | .finalizing p _ =>
          if p.instanceId ≠ f.action.instanceId then rt.move k f .finished
          else
            match prepare E request p f.action.decision timestamp with
            | none => rt.move k f (.failing request)
            | some job => rt.move k f (.appending job)
        | _ => rt.move k f .finished
      | _, _ => (rt.call E .sessionLost r).move k f .finished
  | _ => rt.move k f .finished

/-- The `catch` of any other exception. -/
def failFinalization (f : FinalizeCoroutine) (request : RequestHandle) (r : Reading) :
    PhoneApprovalRuntime :=
  let c := .failFinalization f.action.instanceId f.action.sessionId safeApprovalFailure
  (((rt.call E c r).forget request).emit (.endNow .protocolViolation)).move k f .finished

/-- The hook of the transaction, as far as the signature. -/
def authorize (f : FinalizeCoroutine) (job : FinalizeJob) (row : ChainRow)
    (r : Reading) : PhoneApprovalRuntime :=
  let c := .beforeSign f.action.instanceId f.action.sessionId f.action.decision
  let next := rt.call E c r
  match rt.answer E c r with
  | .finalize instanceId sessionId decision =>
    if decision ≠ f.action.decision then
      next.move k f (.rolledBack job (.expired ⟨instanceId, sessionId, decision⟩))
    else next.move k f (.authorized job row)
  | _ => next.move k f (.rolledBack job .unauthorized)

def sign (f : FinalizeCoroutine) (job : FinalizeJob) (row : ChainRow)
    (identity : Ffi.UnlockedIdentity) (r : Readings) : PhoneApprovalRuntime :=
  let decision := f.action.decision
  let reply := rt.protocol.signedResponse job.request.object decision.toRustDecision
    (some decision.reason) identity r
  let next := { rt with protocol := reply.1 }.emit
    (.signing f.action.instanceId job.request decision)
  match reply.2.2 with
  | .error _ => next.move k f (.rolledBack job .failed)
  | .ok bytes => next.move k f (.signed job row bytes)

/-- The log's call returns, with the lock released. -/
def resume (f : FinalizeCoroutine) (r : Reading) : PhoneApprovalRuntime :=
  match f.pc with
  | .rolledBack _ (.expired action) => rt.unlock.finalize E k action r
  | .rolledBack job .unauthorized => (rt.unlock.forget job.request).move k f .finished
  | .rolledBack job .failed => rt.unlock.failFinalization E k f job.request r
  | .committed job bytes => (rt.unlock.emit (.handed bytes)).move k f (.sending job)
  | _ => rt

def completeFinalization (f : FinalizeCoroutine) (job : FinalizeJob) (r : Reading) :
    PhoneApprovalRuntime :=
  let c := .completeFinalization f.action.instanceId f.action.sessionId f.action.decision true
  ((rt.call E c r).forget job.request).move k f .finished

/-- A cancellation reaches the coroutine where it waits. -/
def cancel (f : FinalizeCoroutine) (r : Reading) : PhoneApprovalRuntime :=
  match f.pc with
  | .appending _ | .sending _ => (rt.call E .sessionLost r).move k f .finished
  | .staged .. | .rolledBack .. | .committed .. =>
    (rt.unlock.call E .sessionLost r).move k f .finished
  | _ => rt

/-- The moves of one `finalize` coroutine. -/
def turn (f : FinalizeCoroutine) (r : Reading) : RuntimeMove → PhoneApprovalRuntime
  | .begin _ =>
    match f.pc with
    | .launched => if rt.closed then rt.move k f .finished else rt.finalize E k f.action r
    | _ => rt
  | .claim _ active timestamp =>
    match f.pc with
    | .rechecked before => rt.claim E k f before active timestamp r
    | _ => rt
  | .abandon _ =>
    match f.pc with
    | .failing request => rt.failFinalization E k f request r
    | .staged job _ => rt.move k f (.rolledBack job .failed)
    | _ => rt
  | .stage _ =>
    match f.pc with
    | .appending job =>
      if rt.approvalLog.locked then rt
      else
        { rt with approvalLog := { rt.approvalLog with locked := true } }.move k f
          (.staged job (rt.approvalLog.stage E.sha256 job.event))
    | _ => rt
  | .authorize _ =>
    match f.pc with
    | .staged job row => rt.authorize E k f job row r
    | _ => rt
  | .sign _ identity readings =>
    match f.pc, identity with
    | .authorized job row, some identity => rt.sign k f job row identity readings
    | .authorized job _, none => rt.move k f (.rolledBack job .failed)
    | _, _ => rt
  | .commit _ stored =>
    match f.pc with
    | .signed job row bytes =>
      if stored then
        ({ rt with approvalLog := rt.approvalLog.commit row }.emit (.committed job.event)).move k f
          (.committed job bytes)
      else rt.move k f (.rolledBack job .failed)
    | _ => rt
  | .resume _ => rt.resume E k f r
  | .sent _ delivered =>
    match f.pc with
    | .sending job =>
      if delivered then rt.completeFinalization E k f job r
      else rt.failFinalization E k f job.request r
    | _ => rt
  | .cancel _ => rt.cancel E k f r
  | _ => rt

/-- A move of the `k`-th `finalize` coroutine, if there is one. -/
def turnOf (r : Reading) (m : RuntimeMove) : PhoneApprovalRuntime :=
  match rt.finalizers[k]? with
  | none => rt
  | some f => rt.turn E k f r m

end

/-! ## Runs -/

/-- A move that does not fit where its coroutine is changes nothing. -/
def step (m : RuntimeMove) (r : Reading) : PhoneApprovalRuntime :=
  match m with
  | .inbound plaintext receivedAtElapsedMs sinceEpoch =>
    match rt.collector with
    | .idle => rt.dispatch E plaintext receivedAtElapsedMs sinceEpoch r
    | _ => rt
  | .historyRead destinations timestamp =>
    match rt.collector with
    | .readingHistory request summary receivedAtElapsedMs =>
      rt.evaluate E request summary receivedAtElapsedMs destinations timestamp r
    | _ => rt
  | .commitRequest =>
    match rt.collector with
    | .appending request summary tier receivedAtElapsedMs event =>
      if rt.approvalLog.locked then rt
      else
        ({ rt with
          approvalLog :=
            { rt.approvalLog.commit (rt.approvalLog.stage E.sha256 event) with locked := true }
        }.emit (.committed event)).goto (.appended request summary tier receivedAtElapsedMs)
    | _ => rt
  | .resumeRequest =>
    match rt.collector with
    | .appended request summary tier receivedAtElapsedMs =>
      rt.unlock.present E request summary tier receivedAtElapsedMs r
    | _ => rt
  | .failRequest =>
    match rt.collector with
    | .appending .. => (rt.goto .idle).failProtocol E r
    | _ => rt
  | .proceed => rt.proceed E r
  | .services names =>
    match rt.collector with
    | .listingServices inbound => rt.sendServices E inbound names r
    | _ => rt
  | .answered sent =>
    match rt.collector with
    | .answering => if sent then rt.goto .idle else (rt.goto .idle).failProtocol E r
    | _ => rt
  | .stopCollecting =>
    match rt.collector with
    | .appended .. => ((rt.unlock.call E .sessionLost r).releaseAfterSessionEnd).goto .stopped
    | _ => ((rt.call E .sessionLost r).releaseAfterSessionEnd).goto .stopped
  | .approve instanceId => rt.callback E (.approve instanceId E.sessionId) r
  | .deny instanceId => rt.callback E (.deny instanceId E.sessionId) r
  | .completeAuthentication instanceId sessionId attemptId outcome =>
    rt.callback E (.completeAuthentication instanceId sessionId attemptId outcome) r
  | .timer instanceId =>
    if instanceId ∈ rt.timers then
      { rt with timers := rt.timers.erase instanceId }.callback E
        (.expire instanceId E.sessionId) r
    else rt
  | .sessionEnded => (rt.call E .sessionLost r).releaseAfterSessionEnd
  | .close active =>
    let rt := if active then rt.emit (.endNow .userEnded) else rt
    (rt.call E .sessionLost r).releaseAfterSessionEnd
  | m =>
    match m.finalizer with
    | none => rt
    | some k => rt.turnOf E k r m

def run (moves : List (RuntimeMove × Reading)) : PhoneApprovalRuntime :=
  moves.foldl (fun rt m => rt.step E m.1 m.2) rt

end Moves

end PhoneApprovalRuntime

end Conveyance.Phone
