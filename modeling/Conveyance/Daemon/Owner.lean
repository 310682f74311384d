import Conveyance.Core.Link
import Conveyance.Core.Session
import Conveyance.Daemon.Error
import Conveyance.Protocol.Binding
import Conveyance.Crypto.HashChain

/-!
# The session owner (conveyance-daemon, session.rs)

The single task that drives the phone connection. It takes commands, inbound
chunks and route deadlines one at a time; each is handled to completion before
the next, so the model is a function from the owner's state and one event to
its next state (`Owner.step`), and a run is a list of events (`Owner.run`).

Everything outside the task is in `Env`, as the answers it gives: entropy, the
clocks, the link's answer to every write, the log's to every append, the
pairing store, dialing and the handshake, Noise, CBOR and Ed25519. Answers that
vary over a run are numbered by the questions asked so far, which `World`
counts.

What the task does is recorded in `World.trace`: log rows, messages put on the
wire and received, and every reply. A reply channel is named by the number of
the command that carries it, in the order the owner takes commands. The entries
`started`, `assigned` and `opened` and the session names are for reasoning
only; no handler reads the trace.
-/

namespace Conveyance.Daemon

open Lib Crypto Conveyance.Core Protocol Wire

/-! ## Constants -/

/-- Bound on queued routed requests while one is in flight. -/
def routeQueueCap : Nat := 8

/-- Once a req_id has one of these rows, recovery considers it accounted for. -/
def terminalEventTypes : List String := ["execute_result", "approval_denied", "request_timeout"]

/-- Correlation id of rows that belong to no request. -/
def lifecycleReqId : Octets 16 := .replicate 16 0

def timeoutReason : String := "timeout"

/-! ## What goes in -/

inductive RoutedOp where
  | authenticatedRequest (service method endpoint : String) (params : Json.Value)
      (requestedBy : Option String)
  | listServices

/-- `SessionCmd`, without the reply channels. -/
inductive Cmd where
  | start
  | endSession (reason : EndReason)
  | inspect
  | timer (event : TimerEvent)
  | route (op : RoutedOp)

/-- What the owner selects over. -/
inductive Event where
  | command (cmd : Cmd)
  | chunk (chunk : Except TransportError Bytes)
  | deadline

/-- The newest pairing row's two keys; its other columns play no part here. -/
structure PairingRow where
  idPub : Octets 32
  dhPub : Octets 32
deriving DecidableEq

/-- A dialed link: the largest payload it takes in one frame. -/
structure Link where
  maxWriteLen : Nat
deriving DecidableEq

/-- The answers of everything the owner calls. -/
structure Env where
  entropy : Nat → Option ReqId
  instant : Nat → Nat
  unixNow : Nat → Int64
  /-- The clock readings of the binding tracker's calls. -/
  readings : Nat → Readings
  linkSend : Nat → Bytes → Bool
  logAppend : Nat → Bool
  pairings : Nat → Except String (List PairingRow)
  dial : Nat → Except TransportError Link
  /-- `responder_handshake` with the given peer key: the next outbound sequence
  number and the warmed-up assembler. -/
  handshake : Nat → Octets 32 → Except OpError (UInt16 × InboundAssembler)
  /-- Noise: session, message number, text. -/
  encrypt : Nat → Nat → Bytes → Option Bytes
  decrypt : Nat → Nat → Bytes → Option Bytes
  /-- CBOR. -/
  intoWriter : WireMessage → Except String Bytes
  fromReader : Bytes → Option WireMessage
  /-- Ed25519: `IdentityPublicKey::from_bytes`, and verification. -/
  parsesKey : Octets 32 → Bool
  verify : Octets 32 → Bytes → Octets 64 → Bool
  /-- `serde_json`'s own rendering. -/
  jsonText : Json.Value → String
  approvalWindow : Nat
  executeWindow : Nat
  idleTimeout : Nat
  hardCap : Nat

/-! ## What comes out -/

structure SessionView where
  idleSecondsRemaining : Nat
  hardCapSecondsRemaining : Nat
deriving DecidableEq

inductive Obs where
  /-- A Route command was taken. -/
  | took (ch : Nat)
  /-- `start_route` was entered for it. -/
  | started (ch : Nat)
  /-- It drew this req_id. -/
  | assigned (ch : Nat) (reqId : ReqId)
  /-- A log row was appended. -/
  | row (event : LogEvent)
  /-- A message was sent, for a routed request or not; `complete` when the link
  took all of it. -/
  | wire (ch : Option Nat) (sid : Nat) (message : WireMessage) (complete : Bool)
  | received (sid : Nat) (message : WireMessage)
  /-- A session with this phone key became ACTIVE. -/
  | opened (sid : Nat) (phoneIdPub : Octets 32)
  | reply (ch : Nat) (result : Except OpError IpcResponse)
  /-- The answer to a Start, and whether the session was live at that moment. -/
  | startReply (ch : Nat) (result : Except OpError Unit) (live : Bool)
  | endReply (ch : Nat)
  | inspectReply (ch : Nat) (view : Option SessionView)

/-! ## State -/

structure RouteCmd where
  op : RoutedOp
  reply : Nat

inductive Stage where
  | approval
  | execute
  | services
deriving DecidableEq

structure InFlight where
  stage : Stage
  reqId : ReqId
  approval : Option ApprovalRequest
  service : Option String
  method : Option String
  endpoint : Option String
  deadline : Nat
  reply : Nat

structure ActiveParts where
  session : Session
  link : Link
  assembler : InboundAssembler
  txSeq : UInt16
  startedAt : Nat
  lastActivity : Nat
  phoneIdPub : Octets 32
  binding : ApprovedRequestTracker
  routeQueue : List RouteCmd
  inFlight : Option InFlight

/-- How much was asked of the environment, the published activity flag, and
what was done. -/
structure World where
  draws : Nat
  ticks : Nat
  writes : Nat
  appends : Nat
  calls : Nat
  starts : Nat
  taken : Nat
  active : Bool
  trace : List Obs

structure Owner where
  world : World
  slot : Option ActiveParts

namespace World

def init : World := ⟨0, 0, 0, 0, 0, 0, 0, false, []⟩

def emit (w : World) (o : Obs) : World := { w with trace := w.trace ++ [o] }

/-- One clock reading. -/
def tick (w : World) : World := { w with ticks := w.ticks + 1 }

/-- The row of the next append, if the log takes it. -/
def nextRow (env : Env) (w : World) (reqId : Octets 16) (eventType payloadJson : String) :
    List Obs :=
  if env.logAppend w.appends then [.row ⟨reqId, eventType, payloadJson, env.unixNow w.ticks⟩]
  else []

/-- `log.append`, whose error every caller ignores. -/
def append (env : Env) (w : World) (reqId : Octets 16) (eventType payloadJson : String) : World :=
  { w with
    ticks := w.ticks + 1
    appends := w.appends + 1
    trace := w.trace ++ w.nextRow env reqId eventType payloadJson }

def note (env : Env) (w : World) (text : String) : World :=
  w.append env lifecycleReqId "daemon_note" (r#"{"note":""# ++ text ++ r#""}"#)

/-- The text of a payload: canonical, or `to_string` outside that domain. -/
def payloadJson (env : Env) (payload : Json.Value) : String :=
  match toCanonicalString payload with
  | .ok text => text
  | .error _ => env.jsonText payload

def logReq (env : Env) (w : World) (reqId : ReqId) (eventType : String) (payload : Json.Value) :
    World :=
  w.append env reqId.bytes eventType (payloadJson env payload)

end World

/-! ## Row payloads -/

def optionalText : Option String → Json.Value
  | none => .null
  | some s => .string s

def requestDetail (service method endpoint : String) (requestedBy : Option String) : Json.Value :=
  .object ([("op_type", .string "authenticated_request"), ("service", .string service),
    ("method", .string method), ("endpoint", .string endpoint)] ++
    optionalField "requested_by" requestedBy)

def approvalPayload (decision : String) (reason : Option String) (approval : ApprovalRequest)
    (signature : Octets 64) : Json.Value :=
  .object ([("decision", .string decision), ("service", .string approval.service),
    ("method", .string approval.method), ("endpoint", .string approval.endpoint)] ++
    optionalField "reason" reason ++ [("signature", .string (hexEncode signature.1))])

def executePayload (approval : ApprovalRequest) : Json.Value :=
  .object [("service", .string approval.service), ("method", .string approval.method),
    ("endpoint", .string approval.endpoint)]

def resultPayload (rsp : ExecuteResponse) (flight : InFlight) : Json.Value :=
  .object ([("status", .string rsp.status.name), ("service", optionalText flight.service),
    ("method", optionalText flight.method), ("endpoint", optionalText flight.endpoint),
    ("body", rsp.body)] ++
    (match rsp.httpStatus with
      | none => []
      | some code => [("http_status", .number (.posInt code.toUInt64))]) ++
    [("executed_at", .number (.ofInt64 rsp.executedAt)),
      ("signature", .string (hexEncode rsp.signature.1))])

def timeoutPayload (op : String) (flight : InFlight) : Json.Value :=
  .object ([("reason", .string timeoutReason), ("op", .string op)] ++
    optionalField "service" flight.service ++ optionalField "endpoint" flight.endpoint)

section Handlers

variable (env : Env)

/-! ## Sending -/

/-- Write frames until one is refused. -/
def sendFrames (w : World) : List Bytes → World × Bool
  | [] => (w, true)
  | frame :: frames =>
    if env.linkSend w.writes frame then sendFrames { w with writes := w.writes + 1 } frames
    else ({ w with writes := w.writes + 1 }, false)

section

variable (w : World)

variable (p : ActiveParts)

/-- Encrypt, split and write one message; the parts it leaves and whether all of
it was taken. -/
def transmit (plaintext : Bytes) : World × ActiveParts × Bool :=
  if p.session.isLive then
    match env.encrypt p.session.sid p.session.sent plaintext with
    | none => (w, p, false)
    | some ciphertext =>
      let p := { p with session := { p.session with sent := p.session.sent + 1 } }
      match splitMessage ciphertext p.link.maxWriteLen p.txSeq with
      | .error _ => (w, p, false)
      | .ok (frames, nextSeq) =>
        let (w, taken) := sendFrames env w frames
        (w, { p with txSeq := nextSeq }, taken)
  else (w, p, false)

/-- `send_over_session`; `message` is what `plaintext` encodes, for the trace. -/
def sendOverSession (ch : Option Nat) (message : WireMessage)
    (plaintext : Bytes) : World × ActiveParts × Bool :=
  let (w, p, sent) := transmit env w p plaintext
  (w.emit (.wire ch p.session.sid message sent), p, sent)

/-! ## Ending -/

def endedReply (ch : Nat) : Obs := .reply ch (.error (.fromCore .sessionEnded))

/-- Replies to everything in flight or queued. -/
def endedReplies : List Obs :=
  (p.inFlight.toList.map fun f => endedReply f.reply) ++
    p.routeQueue.map fun c => endedReply c.reply

def teardown (reason : EndReason) : World × ActiveParts :=
  let w := { w with trace := w.trace ++ endedReplies p }
  let w := w.append env lifecycleReqId "session_end"
    (r#"{"reason":""# ++ reason.asStr ++ r#""}"#)
  ({ w with active := false },
    { p with session := p.session.endFor reason, inFlight := none, routeQueue := [] })

/-! ## Starting a routed request -/

/-- An encoded opening message and the flight it starts. -/
structure Prepared where
  reqId : ReqId
  message : WireMessage
  bytes : Bytes
  stage : Stage
  approval : Option ApprovalRequest

/-- The first half of `start_route`: draw a req_id, build, log and encode the
opening message. -/
def prepare (op : RoutedOp) (ch : Nat) : World × Except OpError Prepared :=
  match env.entropy w.draws with
  | none => ({ w with draws := w.draws + 1 }, .error (.internal "entropy failure"))
  | some reqId =>
    let w := { w with draws := w.draws + 1 }.emit (.assigned ch reqId)
    match op with
    | .authenticatedRequest service method endpoint params requestedBy =>
      match ApprovalRequest.new reqId .authenticatedRequest service method endpoint params
          requestedBy (env.unixNow w.ticks) with
      | .error _ => (w.tick, .error (.internal "request outside canonical domain"))
      | .ok approval =>
        let w := w.tick.logReq env reqId "approval_request"
          (requestDetail service method endpoint requestedBy)
        match encode env.intoWriter (.approvalRequest approval) with
        | .error _ => (w, .error (.internal "could not encode approval request"))
        | .ok bytes =>
          (w, .ok ⟨reqId, .approvalRequest approval, bytes, .approval, some approval⟩)
    | .listServices =>
      let w := w.logReq env reqId "list_services_request" (.object [])
      match encode env.intoWriter (.listServicesRequest reqId) with
      | .error _ => (w, .error (.internal "could not encode request"))
      | .ok bytes => (w, .ok ⟨reqId, .listServicesRequest reqId, bytes, .services, none⟩)

def Stage.window : Stage → Nat
  | .approval => env.approvalWindow
  | .services => env.executeWindow
  | .execute => env.executeWindow

/-- Install a flight, and count its traffic as activity. -/
def install (stage : Stage) (reqId : ReqId)
    (approval : Option ApprovalRequest) (service method endpoint : Option String) (ch : Nat) :
    World × ActiveParts :=
  let flight : InFlight :=
    ⟨stage, reqId, approval, service, method, endpoint,
      env.instant w.ticks + stage.window env, ch⟩
  (w.tick.tick,
    { p with
      inFlight := some flight
      session := p.session.onActivity
      lastActivity := env.instant (w.ticks + 1) })

def startRoute (op : RoutedOp) (ch : Nat) : World × ActiveParts :=
  match prepare env (w.emit (.started ch)) op ch with
  | (w, .error e) => (w.emit (.reply ch (.error e)), p)
  | (w, .ok opening) =>
    match sendOverSession env w p (some ch) opening.message opening.bytes with
    | (w, p, false) =>
      let (w, p) := teardown env w p .peerDisconnected
      (w.emit (endedReply ch), p)
    | (w, p, true) =>
      install env w p opening.stage opening.reqId opening.approval
        (opening.approval.map (·.service)) (opening.approval.map (·.method))
        (opening.approval.map (·.endpoint)) ch

/-- Start the next queued request, if any. -/
def drainRouteQueue : World × ActiveParts :=
  match p.routeQueue with
  | [] => (w, p)
  | cmd :: rest => startRoute env w { p with routeQueue := rest } cmd.op cmd.reply

/-! ## Completing a routed request

The flight has been taken out of its slot. The last component is whether the
session had to be torn down. -/

/-- The Approved arm of `finish_approval`. -/
def executeApproved (rsp : ApprovalResponse) (flight : InFlight)
    (approval : ApprovalRequest) : World × ActiveParts × Bool :=
  let w := w.logReq env approval.reqId "approval_granted"
    (approvalPayload "approved" rsp.reason approval rsp.signature)
  match p.binding.recordApproval approval rsp (env.readings w.calls) with
  | (binding, .error _) =>
    ({ w with calls := w.calls + 1 }.emit
      (.reply flight.reply (.error (.internal "binding failure"))), { p with binding }, false)
  | (binding, .ok _) =>
    let w := { w with calls := w.calls + 1 }
    match ExecuteRequest.new approval.reqId approval.opType approval.service approval.method
        approval.endpoint approval.params approval.requestedBy approval.timestamp with
    | .error _ =>
      (w.emit (.reply flight.reply (.error (.internal "rebuild failed binding"))),
        { p with binding }, false)
    | .ok execute =>
      match binding.validateExecute execute (env.readings w.calls) with
      | (binding, .error _) =>
        ({ w with calls := w.calls + 1 }.emit
          (.reply flight.reply (.error (.fromCore .approvalMismatch))), { p with binding }, false)
      | (binding, .ok _) =>
        let p := { p with binding }
        let w := { w with calls := w.calls + 1 }.logReq env execute.reqId "execute_sent"
          (executePayload approval)
        match encode env.intoWriter (.executeRequest execute) with
        | .error _ =>
          (w.emit (.reply flight.reply (.error (.internal "encode failed"))), p, false)
        | .ok bytes =>
          match sendOverSession env w p (some flight.reply) (.executeRequest execute) bytes with
          | (w, p, false) =>
            let (w, p) := teardown env w p .peerDisconnected
            (w.emit (endedReply flight.reply), p, true)
          | (w, p, true) =>
            let (w, p) := install env w p .execute flight.reqId none (some approval.service)
              (some approval.method) (some approval.endpoint) flight.reply
            (w, p, false)

def finishApproval (rsp : ApprovalResponse) (flight : InFlight) :
    World × ActiveParts × Bool :=
  match flight.approval with
  | none =>
    (w.emit (.reply flight.reply (.error (.internal "approval state lost"))), p, false)
  | some approval =>
    match rsp.verifySignature env.verify p.phoneIdPub with
    | .error _ =>
      ((w.note env "approval_signature_invalid").emit
        (.reply flight.reply (.error (.fromCore .signatureVerificationFailed))), p, false)
    | .ok _ =>
      match rsp.decision with
      | .denied =>
        ((w.logReq env approval.reqId "approval_denied"
          (approvalPayload "denied" rsp.reason approval rsp.signature)).emit
          (.reply flight.reply (.error (.fromCore .approvalDenied))), p, false)
      | .expired =>
        ((w.logReq env approval.reqId "approval_denied"
          (approvalPayload "expired" rsp.reason approval rsp.signature)).emit
          (.reply flight.reply (.error (.fromCore .approvalTimeout))), p, false)
      | .approved => executeApproved env w p rsp flight approval

def finishExecute (rsp : ExecuteResponse) (flight : InFlight) :
    World :=
  match rsp.verifySignature env.verify p.phoneIdPub with
  | .error _ =>
    (w.note env "execute_signature_invalid").emit
      (.reply flight.reply (.error (.fromCore .signatureVerificationFailed)))
  | .ok _ =>
    (w.logReq env rsp.reqId "execute_result" (resultPayload rsp flight)).emit
      (.reply flight.reply (.ok (.body rsp.body)))

/-- `none` when the message does not answer the request in flight. -/
def tryCompleteRoute (decoded : Option WireMessage) :
    Option (World × ActiveParts × Bool) :=
  match p.inFlight with
  | none => none
  | some flight =>
    let taken := { p with inFlight := none }
    match decoded, flight.stage with
    | some (.approvalResponse rsp), .approval =>
      if rsp.reqId = flight.reqId then
        match finishApproval env w taken rsp flight with
        | (w, p, true) => some (w, p, true)
        | (w, p, false) =>
          let (w, p) := drainRouteQueue env w p
          some (w, p, false)
      else none
    | some (.executeResponse rsp), .execute =>
      if rsp.reqId = flight.reqId then
        let (w, p) := drainRouteQueue env (finishExecute env w taken rsp flight) taken
        some (w, p, false)
      else none
    | some (.listServicesResponse reqId services), .services =>
      if reqId = flight.reqId then
        let (w, p) := drainRouteQueue env
          (w.emit (.reply flight.reply (.ok (.services services)))) taken
        some (w, p, false)
      else none
    | _, _ => none

def timeoutOp : Stage → String
  | .services => "list_services"
  | _ => "authenticated_request"

def timeoutError : Stage → OpError
  | .services =>
    ⟨"conveyance/internal", "phone did not answer the list_services request", true⟩
  | _ => .fromCore .approvalTimeout

def routeTimedOut : World × ActiveParts :=
  match p.inFlight with
  | none => (w, p)
  | some flight =>
    drainRouteQueue env
      ((w.logReq env flight.reqId "request_timeout"
        (timeoutPayload (timeoutOp flight.stage) flight)).emit
        (.reply flight.reply (.error (timeoutError flight.stage))))
      { p with inFlight := none }

/-! ## Inbound traffic -/

/-- The arms of `on_chunk` for a message no flight consumed. -/
def onUnclaimed : Option WireMessage → World × ActiveParts × Bool
  | some (.sessionEnd _ _) =>
    let (w, p) := teardown env w p .remoteEnded
    (w, p, true)
  | some (.ping reqId _) =>
    let p := { p with session := p.session.onActivity, lastActivity := env.instant w.ticks }
    let pong := .pong reqId (env.unixNow (w.ticks + 1))
    let w := w.tick.tick
    match encode env.intoWriter pong with
    | .error _ =>
      let (w, p) := teardown env w p .protocolViolation
      (w, p, true)
    | .ok bytes =>
      match sendOverSession env w p none pong bytes with
      | (w, p, false) =>
        let (w, p) := teardown env w p .protocolViolation
        (w, p, true)
      | (w, p, true) => (w, p, false)
  | some _ => (w.note env "unsolicited_wire_message", p, false)
  | none =>
    let (w, p) := teardown env w p .protocolViolation
    (w, p, true)

/-- One decoded plaintext. -/
def onPlaintext (decoded : Option WireMessage) :
    World × ActiveParts × Bool :=
  let w := match decoded with
    | some message => w.emit (.received p.session.sid message)
    | none => w
  match tryCompleteRoute env w p decoded with
  | some result => result
  | none => onUnclaimed env w p decoded

end

def receive (p : ActiveParts) (ciphertext : Bytes) : Option (ActiveParts × Bytes) :=
  if p.session.isLive then
    (env.decrypt p.session.sid p.session.received ciphertext).map fun plaintext =>
      ({ p with session := { p.session with received := p.session.received + 1 } }, plaintext)
  else none

/-- The message loop of `on_chunk`. -/
def onMessages (w : World) (p : ActiveParts) : List Bytes → World × ActiveParts × Bool
  | [] => (w, p, false)
  | message :: messages =>
    match receive env p message with
    | none =>
      let (w, p) := teardown env w p .protocolViolation
      (w, p, true)
    | some (p, plaintext) =>
      match onPlaintext env w p (env.fromReader plaintext) with
      | (w, p, true) => (w, p, true)
      | (w, p, false) => onMessages w p messages

section

variable (w : World)

def onChunk (p : ActiveParts) : Except TransportError Bytes →
    World × ActiveParts × Bool
  | .error _ =>
    let (w, p) := teardown env w p .peerDisconnected
    (w, p, true)
  | .ok bytes =>
    match p.assembler.ingest bytes with
    | (assembler, .error _) =>
      let (w, p) := teardown env w { p with assembler } .protocolViolation
      (w, p, true)
    | (assembler, .ok messages) => onMessages env w { p with assembler } messages

/-! ## Commands -/

def beginSession : World × Except OpError ActiveParts :=
  let n := w.starts
  let w := { w with starts := w.starts + 1 }
  match env.pairings n with
  | .error e => (w, .error (.internal ("pairings database unreadable: " ++ e)))
  | .ok pairings =>
    match pairings.getLast? with
    | none => (w, .error .noPairing)
    | some peer =>
      match env.dial n with
      | .error .timeout => (w, .error (.phoneUnreachable "not advertising within 30 s"))
      | .error e => (w, .error (.phoneUnreachable e.text))
      | .ok link =>
        match env.handshake n peer.dhPub with
        | .error e => (w, .error e)
        | .ok (txSeq, inbound) =>
          let w := w.append env lifecycleReqId "session_start"
            r#"{"reason":"user_started"}"#
          let startedAt := env.instant w.ticks
          let lastActivity := env.instant (w.ticks + 1)
          let w := w.tick.tick
          if env.parsesKey peer.idPub then
            (w.emit (.opened n peer.idPub),
              .ok ⟨.establish n, link, inbound, txSeq, startedAt, lastActivity, peer.idPub, .new,
                [], none⟩)
          else (w, .error (.internal "stored pairing holds a malformed identity key"))

/-- `view`, in whole seconds. -/
def view (p : ActiveParts) : SessionView :=
  ⟨(env.idleTimeout - (env.instant w.ticks - p.lastActivity)) / 1000000000,
    (env.hardCap - (env.instant (w.ticks + 1) - p.startedAt)) / 1000000000⟩

def onRoute (slot : Option ActiveParts) (op : RoutedOp) (ch : Nat) :
    World × Option ActiveParts :=
  let w := w.emit (.took ch)
  match slot with
  | none => (w.emit (.reply ch (.error (.fromCore .noSession))), none)
  | some p =>
    if p.inFlight.isSome then
      if routeQueueCap ≤ p.routeQueue.length then
        (w.emit (.reply ch (.error .busy)), some p)
      else (w, some { p with routeQueue := p.routeQueue ++ [⟨op, ch⟩] })
    else
      let (w, p) := startRoute env w p op ch
      (w, some p)

def onCommand (slot : Option ActiveParts) (cmd : Cmd) :
    World × Option ActiveParts :=
  let ch := w.taken
  let w := { w with taken := w.taken + 1 }
  match cmd with
  | .start =>
    match slot with
    | some p => (w.emit (.startReply ch (.ok ()) p.session.isLive), some p)
    | none =>
      match beginSession env w with
      | (w, .error e) => (w.emit (.startReply ch (.error e) false), none)
      | (w, .ok p) =>
        ({ w with active := true }.emit (.startReply ch (.ok ()) p.session.isLive), some p)
  | .endSession reason =>
    match slot with
    | none => (w.emit (.endReply ch), none)
    | some p =>
      let (w, _) := teardown env w p reason
      (w.emit (.endReply ch), none)
  | .inspect =>
    match slot with
    | none => (w.emit (.inspectReply ch none), none)
    | some p => (w.tick.tick.emit (.inspectReply ch (some (view env w p))), some p)
  | .timer event =>
    match slot with
    | none => (w, none)
    | some p =>
      match p.session.handleTimerEvent event with
      | (session, some reason) =>
        let (w, _) := teardown env w { p with session } reason
        (w, none)
      | (session, none) => (w, some { p with session })
  | .route op => onRoute env w slot op ch

end

/-! ## Runs -/

namespace Owner

def init : Owner := ⟨.init, none⟩

/-- One turn of the owner's loop. While idle it only takes commands; a deadline
fires only for a request in flight, once the clock has reached it. -/
def step (o : Owner) : Event → Owner
  | .command cmd =>
    let (w, slot) := onCommand env o.world o.slot cmd
    ⟨w, slot⟩
  | .chunk chunk =>
    match o.slot with
    | none => o
    | some p =>
      match onChunk env o.world p chunk with
      | (w, _, true) => ⟨w, none⟩
      | (w, p, false) => ⟨w, some p⟩
  | .deadline =>
    match o.slot with
    | none => o
    | some p =>
      match p.inFlight with
      | none => o
      | some flight =>
        if env.instant o.world.ticks < flight.deadline then ⟨o.world.tick, some p⟩
        else
          let (w, p) := routeTimedOut env o.world.tick p
          ⟨w, some p⟩

def run (o : Owner) (events : List Event) : Owner := events.foldl (step env) o

end Owner

end Handlers

end Conveyance.Daemon
