import Conveyance.Daemon.Owner
import Conveyance.Lib.Transition

/-!
# The desk: what the session owner does, as a transition system

`Desk` keeps of the owner's state what its contracts speak about: the trace,
who waits, who is being served, the session in the slot, and the request in
hand, which is the one a handler has taken out of the queue and not yet put
anywhere. `Move env t` says all a handler can do to it while the owner is at
turn `t`; a turn is one command, one inbound message, one deadline, or one
breach of the link, with the owner's state before it.

The moves name their causes in terms of the turn (`Turn.Starts`, `Turn.Overlaps`,
`Turn.Begins`, `Turn.Ends`), so that a condition on turns rules moves out.
-/

namespace Conveyance.Daemon

open Lib Crypto Conveyance.Core Protocol

/-! ## Turns -/

inductive Turn where
  | command (w : World) (slot : Option ActiveParts) (cmd : Cmd)
  /-- A transport error, a framing violation, or a message that does not open. -/
  | breach (w : World) (p : ActiveParts)
  | message (w : World) (p : ActiveParts) (decoded : Option WireMessage)
  | deadline (w : World) (p : ActiveParts)

namespace Turn

def world : Turn → World
  | .command w _ _ => w
  | .breach w _ => w
  | .message w _ _ => w
  | .deadline w _ => w

def slot : Turn → Option ActiveParts
  | .command _ slot _ => slot
  | .breach _ p => some p
  | .message _ p _ => some p
  | .deadline _ p => some p

/-- The request in flight before the turn. -/
def inFlight (t : Turn) : Option InFlight := t.slot.bind (·.inFlight)

/-- The message of a message turn. -/
def decoded : Turn → Option WireMessage
  | .message _ _ decoded => decoded
  | _ => none

end Turn

/-- The message answers the request in flight, whatever it says. -/
def Answers (flight : InFlight) : Option WireMessage → Prop
  | some (.approvalResponse rsp) => flight.stage = .approval ∧ rsp.reqId = flight.reqId
  | some (.executeResponse rsp) => flight.stage = .execute ∧ rsp.reqId = flight.reqId
  | some (.listServicesResponse reqId _) => flight.stage = .services ∧ reqId = flight.reqId
  | _ => False

/-- The message is a verified approval of the request in flight. -/
def Grants (env : Env) (p : ActiveParts) (decoded : Option WireMessage) : Prop :=
  ∃ flight rsp, p.inFlight = some flight ∧ decoded = some (.approvalResponse rsp) ∧
    Answers flight decoded ∧ rsp.verifySignature env.verify p.phoneIdPub = .ok () ∧
    rsp.decision = .approved

/-- The turn hands `op` to `start_route`, with `behind` left in the queue. -/
def Turn.Starts (behind : List Nat) (op : RoutedOp) : Turn → Prop
  | .command _ (some p) (.route op') =>
    p.inFlight = none ∧ op' = op ∧ behind = p.routeQueue.map (·.reply)
  | .message _ p decoded =>
    (∃ flight, p.inFlight = some flight ∧ Answers flight decoded) ∧
      ∃ cmd rest, p.routeQueue = cmd :: rest ∧ cmd.op = op ∧ behind = rest.map (·.reply)
  | .deadline _ p =>
    ∃ cmd rest, p.routeQueue = cmd :: rest ∧ cmd.op = op ∧ behind = rest.map (·.reply)
  | _ => False

/-- A verified approval is handled while requests wait. -/
def Turn.Overlaps (env : Env) (t : Turn) : Prop :=
  ∃ w p decoded, t = .message w p decoded ∧ Grants env p decoded ∧ p.routeQueue ≠ []

/-- The turn may begin a session. -/
def Turn.Begins : Turn → Prop
  | .command _ none .start => True
  | _ => False

/-- The turn tears the session down; `trace` tells whether the pong was taken. -/
def Turn.Ends (env : Env) (trace : List Obs) : Turn → Prop
  | .command _ (some _) (.endSession _) => True
  | .command _ (some _) (.timer event) => event ≠ .warningDue
  | .breach _ _ => True
  | .message _ _ none => True
  | .message _ _ (some (.sessionEnd _ _)) => True
  | .message w _ (some (.ping reqId sent)) =>
    (∃ now e, encode env.intoWriter (.pong reqId now) = .error e) ∨
      ∃ sid now, w.trace ++ [.received sid (.ping reqId sent),
        .wire none sid (.pong reqId now) false] <+: trace
  | _ => False

/-- The message of the turn, if it has one, was heard in session `sid`. -/
def Turn.Heard (sid : Nat) (trace : List Obs) (t : Turn) : Prop :=
  ∀ m, t.decoded = some m → .received sid m ∈ trace

/-! ## The desk -/

/-- A message that begins a conversation with the phone. -/
def opensConversation : WireMessage → Bool
  | .approvalRequest _ => true
  | .listServicesRequest _ => true
  | _ => false

structure Flight where
  ch : Nat
  reqId : ReqId
  stage : Stage
  approval : Option ApprovalRequest

def InFlight.flight (f : InFlight) : Flight := ⟨f.reply, f.reqId, f.stage, f.approval⟩

/-- The session in the slot. -/
structure Seat where
  sid : Nat
  key : Octets 32
  link : Link
  live : Bool
  binding : ApprovedRequestTracker

structure Desk where
  trace : List Obs
  taken : Nat
  draws : Nat
  starts : Nat
  session : Option Seat
  queue : List Nat
  flight : Option Flight
  hand : Option Nat
  /-- The request in flight is dealt with, and the queue not drained yet. -/
  draining : Bool

/-- The turn is about the flight `f` of session `s`, and its message was heard. -/
structure Turn.Serves (t : Turn) (s : Seat) (f : Flight) (trace : List Obs) : Prop where
  heard : t.Heard s.sid trace
  slot : ∃ p flight, t.slot = some p ∧ p.phoneIdPub = s.key ∧ p.inFlight = some flight ∧
    flight.flight = f

namespace Desk

def say (σ : Desk) (obs : List Obs) : Desk := { σ with trace := σ.trace ++ obs }

/-- The `session_ended` replies of a teardown. -/
def endedReplies (σ : Desk) : List Obs :=
  (σ.flight.toList.map fun f => endedReply f.ch) ++ σ.queue.map endedReply

end Desk

/-! ## Moves -/

/-- The log takes every row. -/
def Reliable (env : Env) : Prop := ∀ n, env.logAppend n = true

/-- No req_id is drawn twice. -/
def FreshIds (env : Env) : Prop :=
  ∀ i j reqId, env.entropy i = some reqId → env.entropy j = some reqId → i = j

/-- One append: a row, or nothing when the log refuses it. -/
def Rows (env : Env) (reqId : Octets 16) (eventType : String) (rows : List Obs) : Prop :=
  (∃ payloadJson timestamp, rows = [.row ⟨reqId, eventType, payloadJson, timestamp⟩]) ∨
    (rows = [] ∧ ¬ Reliable env)

/-- Draw `n` opens a request: its message, and the row it leaves. -/
inductive Opening (env : Env) (n : Nat) : Prepared → List Obs → Prop where
  | approval {reqId service method endpoint params requestedBy tick a bytes rows} :
      env.entropy n = some reqId →
      ApprovalRequest.new reqId .authenticatedRequest service method endpoint params requestedBy
        (env.unixNow tick) = .ok a →
      Rows env reqId.bytes "approval_request" rows →
      Opening env n ⟨reqId, .approvalRequest a, bytes, .approval, some a⟩ rows
  | services {reqId bytes rows} :
      env.entropy n = some reqId →
      Rows env reqId.bytes "list_services_request" rows →
      Opening env n ⟨reqId, .listServicesRequest reqId, bytes, .services, none⟩ rows

/-- Noise took the bytes, in some session under some nonce. -/
def Sealed (env : Env) (bytes : Bytes) : Prop :=
  ∃ sid nonce ciphertext, env.encrypt sid nonce bytes = some ciphertext

/-- A message that went out over a link. -/
structure Posted (env : Env) (link : Link) (m : WireMessage) (bytes : Bytes) : Prop where
  encoded : encode env.intoWriter m = .ok bytes
  taken : Sealed env bytes
  writes : 1 ≤ link.maxWriteLen

/-- Draw `n` fails to open `op`: what is left in the trace, and the error. -/
inductive OpenFailure (env : Env) (n : Nat) (ch : Nat) : RoutedOp → List Obs → OpError → Prop where
  | entropy {op} :
      env.entropy n = none → OpenFailure env n ch op [] (.internal "entropy failure")
  | domain {reqId service method endpoint params requestedBy tick e} :
      env.entropy n = some reqId →
      ApprovalRequest.new reqId .authenticatedRequest service method endpoint params requestedBy
        (env.unixNow tick) = .error e →
      OpenFailure env n ch (.authenticatedRequest service method endpoint params requestedBy)
        [.assigned ch reqId] (.internal "request outside canonical domain")
  | approvalEncoding {reqId service method endpoint params requestedBy tick a rows e} :
      env.entropy n = some reqId →
      ApprovalRequest.new reqId .authenticatedRequest service method endpoint params requestedBy
        (env.unixNow tick) = .ok a →
      Rows env reqId.bytes "approval_request" rows →
      encode env.intoWriter (.approvalRequest a) = .error e →
      OpenFailure env n ch (.authenticatedRequest service method endpoint params requestedBy)
        (.assigned ch reqId :: rows) (.internal "could not encode approval request")
  | servicesEncoding {reqId rows e} :
      env.entropy n = some reqId →
      Rows env reqId.bytes "list_services_request" rows →
      encode env.intoWriter (.listServicesRequest reqId) = .error e →
      OpenFailure env n ch .listServices (.assigned ch reqId :: rows)
        (.internal "could not encode request")

/-- How the request in flight is answered and leaves its slot, short of an
approval. -/
inductive Answer (env : Env) (t : Turn) (key : Octets 32) (f : Flight) : List Obs → Prop where
  | lost {rsp} :
      t.decoded = some (.approvalResponse rsp) → f.stage = .approval → rsp.reqId = f.reqId →
      f.approval = none →
      Answer env t key f [.reply f.ch (.error (.internal "approval state lost"))]
  | badApproval {rsp e rows} :
      t.decoded = some (.approvalResponse rsp) → f.stage = .approval → rsp.reqId = f.reqId →
      rsp.verifySignature env.verify key = .error e → Rows env lifecycleReqId "daemon_note" rows →
      Answer env t key f
        (rows ++ [.reply f.ch (.error (.fromCore .signatureVerificationFailed))])
  | denied {rsp a rows} (result : OpError) :
      t.decoded = some (.approvalResponse rsp) → f.stage = .approval → rsp.reqId = f.reqId →
      f.approval = some a → rsp.verifySignature env.verify key = .ok () →
      Rows env a.reqId.bytes "approval_denied" rows →
      Answer env t key f (rows ++ [.reply f.ch (.error result)])
  | badExecution {rsp e rows} :
      t.decoded = some (.executeResponse rsp) → f.stage = .execute → rsp.reqId = f.reqId →
      rsp.verifySignature env.verify key = .error e → Rows env lifecycleReqId "daemon_note" rows →
      Answer env t key f
        (rows ++ [.reply f.ch (.error (.fromCore .signatureVerificationFailed))])
  | executed {rsp rows} :
      t.decoded = some (.executeResponse rsp) → f.stage = .execute → rsp.reqId = f.reqId →
      rsp.verifySignature env.verify key = .ok () →
      Rows env rsp.reqId.bytes "execute_result" rows →
      Answer env t key f (rows ++ [.reply f.ch (.ok (.body rsp.body))])
  | services {reqId services} :
      t.decoded = some (.listServicesResponse reqId services) → f.stage = .services →
      reqId = f.reqId →
      Answer env t key f [.reply f.ch (.ok (.services services))]
  | timedOut {rows} (result : OpError) :
      (∃ w p, t = .deadline w p) → Rows env f.reqId.bytes "request_timeout" rows →
      Answer env t key f (rows ++ [.reply f.ch (.error result)])

/-- The turn's message approves the request in flight, under the session's key. -/
structure Granted (env : Env) (t : Turn) (key : Octets 32) (f : Flight) (a : ApprovalRequest)
    (rsp : ApprovalResponse) : Prop where
  decoded : t.decoded = some (.approvalResponse rsp)
  stage : f.stage = .approval
  reqId : rsp.reqId = f.reqId
  approval : f.approval = some a
  verified : rsp.verifySignature env.verify key = .ok ()
  approved : rsp.decision = .approved

/-- The request an approval is turned into. -/
def rebuild (a : ApprovalRequest) : Except ProtocolError ExecuteRequest :=
  ExecuteRequest.new a.reqId a.opType a.service a.method a.endpoint a.params a.requestedBy
    a.timestamp

theorem sameFields_of_rebuild {a : ApprovalRequest} {e : ExecuteRequest}
    (h : rebuild a = .ok e) : SameFields a e := by
  obtain ⟨_, -, he⟩ := bind_eq_ok.mp h
  cases he
  exact ⟨rfl, rfl, rfl, rfl, rfl, rfl, rfl, rfl⟩

/-- The tracker takes the approval and lets it be executed, in two calls. -/
structure Executes (env : Env) (before after : ApprovedRequestTracker) (a : ApprovalRequest)
    (rsp : ApprovalResponse) (execute : ExecuteRequest) : Prop where
  rebuilt : rebuild a = .ok execute
  accepted : ∃ n between, before.recordApproval a rsp (env.readings n) = (between, .ok ()) ∧
    between.validateExecute execute (env.readings (n + 1)) = (after, .ok ())

/-- An approval is not executed after all: the tracker it leaves, the rows
after `approval_granted`, and the error. -/
inductive Refusal (env : Env) (before : ApprovedRequestTracker) (a : ApprovalRequest)
    (rsp : ApprovalResponse) : ApprovedRequestTracker → List Obs → OpError → Prop where
  | unrecorded {after n e} :
      before.recordApproval a rsp (env.readings n) = (after, .error e) →
      Refusal env before a rsp after [] (.internal "binding failure")
  | unbuilt {after n e} :
      before.recordApproval a rsp (env.readings n) = (after, .ok ()) →
      rebuild a = .error e → Refusal env before a rsp after [] (.internal "rebuild failed binding")
  | mismatch {between after n execute e} :
      before.recordApproval a rsp (env.readings n) = (between, .ok ()) →
      rebuild a = .ok execute →
      between.validateExecute execute (env.readings (n + 1)) = (after, .error e) →
      Refusal env before a rsp after [] (.fromCore .approvalMismatch)
  | unencoded {after execute e rows} :
      Executes env before after a rsp execute →
      Rows env execute.reqId.bytes "execute_sent" rows →
      encode env.intoWriter (.executeRequest execute) = .error e →
      Refusal env before a rsp after rows (.internal "encode failed")

/-- The rows of an approval that is executed. -/
def GrantRows (env : Env) (a : ApprovalRequest) (execute : ExecuteRequest) (rows : List Obs) :
    Prop :=
  ∃ granted sent, Rows env a.reqId.bytes "approval_granted" granted ∧
    Rows env execute.reqId.bytes "execute_sent" sent ∧ rows = granted ++ sent

inductive Move (env : Env) (t : Turn) : Desk → Desk → Prop where
  /-- A command that is no Route. -/
  | skip {σ} : Move env t σ { σ with taken := σ.taken + 1 }
  | heard {σ s m} : σ.session = some s → t.decoded = some m →
      Move env t σ (σ.say [.received s.sid m])
  | noted {σ rows} : Rows env lifecycleReqId "daemon_note" rows → Move env t σ (σ.say rows)
  | ponged {σ s reqId now complete} : σ.session = some s →
      Move env t σ (σ.say [.wire none s.sid (.pong reqId now) complete])
  | endReplied {σ ch} : Move env t σ (σ.say [.endReply ch])
  | inspected {σ ch view} : Move env t σ (σ.say [.inspectReply ch view])
  -- a Route command: refused, queued, or taken in hand
  | refuse {σ} (e : OpError) :
      Move env t σ { σ.say [.took σ.taken, .reply σ.taken (.error e)] with taken := σ.taken + 1 }
  | enqueue {σ} : σ.flight ≠ none → σ.queue.length < routeQueueCap →
      Move env t σ { σ.say [.took σ.taken] with
        taken := σ.taken + 1, queue := σ.queue ++ [σ.taken] }
  | take {σ} : σ.draining = false → σ.hand = none → σ.flight = none →
      Move env t σ { σ.say [.took σ.taken] with taken := σ.taken + 1, hand := some σ.taken }
  /-- `drain_route_queue`. The approval that moved the request in flight on to
  its execution drains the queue too. -/
  | pop {σ ch rest} : σ.draining = true → σ.hand = none → σ.queue = ch :: rest →
      σ.flight = none ∨ t.Overlaps env →
      Move env t σ { σ with queue := rest, hand := some ch, draining := false }
  | settle {σ} : σ.draining = true → σ.queue = [] → Move env t σ { σ with draining := false }
  -- `start_route` with the request in hand
  | openFailed {σ ch op obs e} : σ.hand = some ch → t.Starts σ.queue op →
      t.world.draws = σ.draws → OpenFailure env σ.draws ch op obs e →
      Move env t σ { σ.say (.started ch :: obs ++ [.reply ch (.error e)]) with
        draws := σ.draws + 1, hand := none }
  | openDead {σ ch s o rows ends} : σ.hand = some ch → σ.session = some s →
      Opening env σ.draws o rows → Rows env lifecycleReqId "session_end" ends →
      Move env t σ { σ.say (.started ch :: .assigned ch o.reqId :: rows ++
          .wire (some ch) s.sid o.message false :: σ.endedReplies ++ ends ++ [endedReply ch]) with
        draws := σ.draws + 1, hand := none, flight := none, queue := []
        session := some { s with live := false } }
  | opened {σ ch s o rows} : σ.hand = some ch → σ.session = some s →
      Opening env σ.draws o rows → Posted env s.link o.message o.bytes →
      Move env t σ { σ.say (.started ch :: .assigned ch o.reqId :: rows ++
          [.wire (some ch) s.sid o.message true]) with
        draws := σ.draws + 1, hand := none
        flight := some ⟨ch, o.reqId, o.stage, o.approval⟩ }
  -- the request in flight
  | answer {σ s f obs} : σ.session = some s → σ.flight = some f → t.Serves s f σ.trace →
      Answer env t s.key f obs →
      Move env t σ { σ.say obs with flight := none, draining := true }
  | refused {σ s f a rsp after granted rows e} : σ.session = some s → σ.flight = some f →
      t.Serves s f σ.trace → Granted env t s.key f a rsp →
      Rows env a.reqId.bytes "approval_granted" granted →
      Refusal env s.binding a rsp after rows e →
      Move env t σ { σ.say (granted ++ rows ++ [.reply f.ch (.error e)]) with
        flight := none, session := some { s with binding := after }, draining := true }
  | promoteDead {σ s f a rsp after execute rows ends} : σ.session = some s → σ.flight = some f →
      t.Serves s f σ.trace → Granted env t s.key f a rsp →
      Executes env s.binding after a rsp execute →
      GrantRows env a execute rows → Rows env lifecycleReqId "session_end" ends →
      Move env t σ { σ.say (rows ++ .wire (some f.ch) s.sid (.executeRequest execute) false ::
          σ.queue.map endedReply ++ ends ++ [endedReply f.ch]) with
        flight := none, queue := [], session := none }
  | promote {σ s f a rsp after execute rows} : σ.session = some s → σ.flight = some f →
      t.Serves s f σ.trace → Granted env t s.key f a rsp →
      Executes env s.binding after a rsp execute →
      GrantRows env a execute rows →
      Move env t σ { σ.say (rows ++ [.wire (some f.ch) s.sid (.executeRequest execute) true]) with
        flight := some ⟨f.ch, f.reqId, .execute, none⟩
        session := some { s with binding := after }, draining := true }
  -- the session
  | teardown {σ s ends} : σ.session = some s → σ.hand = none → t.Ends env σ.trace →
      σ.flight.isSome = t.inFlight.isSome → Rows env lifecycleReqId "session_end" ends →
      Move env t σ { σ.say (σ.endedReplies ++ ends) with
        flight := none, queue := [], session := none }
  | begun {σ rows} (key : Octets 32) (link : Link) : t.Begins → σ.session = none → σ.flight = none →
      Rows env lifecycleReqId "session_start" rows →
      Move env t σ { σ.say (rows ++ [.opened σ.starts key]) with
        starts := σ.starts + 1, session := some ⟨σ.starts, key, link, true, .new⟩ }
  | aborted {σ pairings peer rows} : σ.session = none →
      env.pairings σ.starts = .ok pairings → pairings.getLast? = some peer →
      env.parsesKey peer.idPub = false → Rows env lifecycleReqId "session_start" rows →
      Move env t σ { σ.say rows with starts := σ.starts + 1 }
  | unreached {σ} : σ.session = none → Move env t σ { σ with starts := σ.starts + 1 }
  | startAnswered {σ ch s} : σ.session = some s →
      Move env t σ (σ.say [.startReply ch (.ok ()) s.live])
  | startFailed {σ ch e} : Move env t σ (σ.say [.startReply ch (.error e) false])

theorem Move.trace_grows {env : Env} {t : Turn} {σ σ' : Desk} (h : Move env t σ σ') :
    σ.trace <+: σ'.trace := by
  cases h <;> first
    | exact List.prefix_rfl
    | exact List.prefix_append _ _

/-! ## What the moves say -/

/-- Log rows that meet `φ` and req_ids, and nothing a caller or the phone sees. -/
def Clerical (φ : LogEvent → Prop) (obs : List Obs) : Prop :=
  ∀ o ∈ obs, (∃ event, o = .row event ∧ φ event) ∨ ∃ ch reqId, o = .assigned ch reqId

/-- The rows of a request on its way. -/
def progressEventTypes : List String :=
  ["approval_request", "list_services_request", "approval_granted", "execute_sent"]

def Progress (event : LogEvent) : Prop := event.eventType ∈ progressEventTypes

section Shapes

variable {env : Env} {rows : List Obs} {φ ψ : LogEvent → Prop}

theorem Clerical.nil : Clerical φ [] := fun _ ho => absurd ho List.not_mem_nil

variable {obs : List Obs} {P : Obs → Prop} {reqId : Octets 16} {eventType : String} {n : Nat}
  {o : Prepared} {e : OpError} {a : ApprovalRequest}

theorem Clerical.append (h : Clerical φ rows) (h' : Clerical φ obs) : Clerical φ (rows ++ obs) := by
  intro o ho
  rcases List.mem_append.mp ho with ho | ho
  · exact h o ho
  · exact h' o ho

theorem Clerical.assigned (h : Clerical φ rows) (ch : Nat) (reqId : ReqId) :
    Clerical φ (.assigned ch reqId :: rows) := by
  intro o ho
  rcases List.mem_cons.mp ho with rfl | ho
  · exact .inr ⟨ch, reqId, rfl⟩
  · exact h o ho

theorem Clerical.mono (h : Clerical φ rows) (hmono : ∀ event, φ event → ψ event) :
    Clerical ψ rows := by
  intro o ho
  rcases h o ho with ⟨event, rfl, hevent⟩ | hassigned
  · exact .inl ⟨event, rfl, hmono event hevent⟩
  · exact .inr hassigned

/-- What holds of the rows and of req_ids holds of all entries. -/
theorem Clerical.all (h : Clerical φ rows) (hrow : ∀ event, φ event → P (.row event))
    (hassigned : ∀ ch reqId, P (.assigned ch reqId)) : ∀ o ∈ rows, P o := by
  intro o ho
  rcases h o ho with ⟨event, rfl, hevent⟩ | ⟨ch, reqId, rfl⟩
  · exact hrow event hevent
  · exact hassigned ch reqId

theorem Desk.all_endedReplies (σ : Desk) (h : ∀ ch, P (endedReply ch)) :
    ∀ o ∈ σ.endedReplies, P o :=
  List.forall_mem_append.mpr ⟨List.forall_mem_map.mpr fun f _ => h f.ch,
    List.forall_mem_map.mpr fun ch _ => h ch⟩

theorem Rows.clerical (h : Rows env reqId eventType rows) :
    Clerical (·.eventType = eventType) rows := by
  intro o ho
  rcases h with ⟨payloadJson, timestamp, rfl⟩ | ⟨rfl, -⟩
  · exact .inl ⟨_, List.mem_singleton.mp ho, rfl⟩
  · cases ho

theorem Rows.progress (h : Rows env reqId eventType rows) (hmem : eventType ∈ progressEventTypes) :
    Clerical Progress rows := by
  refine h.clerical.mono fun event hevent => ?_
  rwa [Progress, hevent]

theorem Opening.opens (h : Opening env n o rows) : opensConversation o.message = true := by
  cases h <;> rfl

theorem Opening.clerical (h : Opening env n o rows) : Clerical Progress rows := by
  cases h with
  | approval _ _ hrows | services _ hrows => exact hrows.progress (by simp [progressEventTypes])

theorem OpenFailure.clerical {ch : Nat} {op : RoutedOp} (h : OpenFailure env n ch op rows e) :
    Clerical Progress rows := by
  cases h with
  | entropy _ => exact .nil
  | domain _ _ => exact Clerical.nil.assigned _ _
  | approvalEncoding _ _ hrows | servicesEncoding _ hrows =>
    exact (hrows.progress (by simp [progressEventTypes])).assigned _ _

/-- The rows of an approval that is refused after all. -/
theorem Refusal.clerical {before after : ApprovedRequestTracker} {rsp : ApprovalResponse}
    {granted : List Obs} (h : Refusal env before a rsp after rows e)
    (hgranted : Rows env a.reqId.bytes "approval_granted" granted) :
    Clerical Progress (granted ++ rows) := by
  refine (hgranted.progress (by simp [progressEventTypes])).append ?_
  cases h with
  | unrecorded | unbuilt | mismatch => exact .nil
  | unencoded _ hrows _ => exact hrows.progress (by simp [progressEventTypes])

theorem GrantRows.clerical {execute : ExecuteRequest} (h : GrantRows env a execute rows) :
    Clerical Progress rows := by
  obtain ⟨granted, sent, hgranted, hsent, rfl⟩ := h
  exact (hgranted.progress (by simp [progressEventTypes])).append
    (hsent.progress (by simp [progressEventTypes]))

/-- An answer ends in the reply to the flight, and its rows are none of a
session's. -/
theorem Answer.shape {t : Turn} {key : Octets 32} {f : Flight} (h : Answer env t key f obs) :
    ∃ rows result, obs = rows ++ [.reply f.ch result] ∧
      Clerical (fun event => event.eventType = "daemon_note" ∨
        event.eventType ∈ terminalEventTypes) rows := by
  cases h with
  | lost | services => exact ⟨[], _, rfl, .nil⟩
  | badApproval _ _ _ _ hrows | badExecution _ _ _ _ hrows =>
    exact ⟨_, _, rfl, hrows.clerical.mono fun _ => .inl⟩
  | denied _ _ _ _ _ _ hrows | executed _ _ _ _ hrows | timedOut _ _ hrows =>
    exact ⟨_, _, rfl, hrows.clerical.mono fun _ h => .inr (by simp [h, terminalEventTypes])⟩

end Shapes

end Conveyance.Daemon
