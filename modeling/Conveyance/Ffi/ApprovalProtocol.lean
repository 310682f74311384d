import Mathlib.Data.Finset.Insert
import Conveyance.Protocol.Binding
import Conveyance.Protocol.Codec
import Conveyance.Protocol.Policy

/-!
# The phone's protocol object (conveyance-crypto-ffi, approval.rs)

Kotlin holds a protocol object for each session and opaque handles for the
requests that object decoded. A request is registered when it is decoded, answered
by one signed response, and executed against the tracker the answer was recorded in.

Scopes are compared by address, and a handle keeps its scope alive, so the addresses
are never reused. The mutex makes every call a single step on its object.

- `ApprovalProtocol.invoke`: the calls Kotlin can make; `Effect`: all they can do.
- `Objects.run`: calls on any number of objects. A handle is a position in the table
  of the handles given out, so it cannot be made up.
-/

namespace Conveyance.Ffi

open Lib Protocol

/-! ## Data -/

inductive ApprovalFfiError where
  | invalidRequest
  | invalidDecision
  | duplicateDecision
  | duplicateRequest
  | wrongSession
  | signingFailed
  | bindingRejected
  | policyInvalid
deriving DecidableEq

inductive ApprovalDecision where
  | approved
  | denied
  | expired
deriving DecidableEq

def ApprovalDecision.toDecision : ApprovalDecision → Decision
  | .approved => .approved
  | .denied => .denied
  | .expired => .expired

/-- What `Arc::ptr_eq` compares. -/
structure ApprovalSessionScope where
  address : Nat
deriving DecidableEq

structure ValidatedApprovalRequest where
  request : ApprovalRequest
  owner : ApprovalSessionScope

inductive ApprovalInboundPayload where
  | request (request : ValidatedApprovalRequest)
  | sessionEnd
  | ping (reqId : ReqId)
  | listServices (reqId : ReqId)
  | unexpected

structure DecodedApprovalInbound where
  owner : ApprovalSessionScope
  payload : ApprovalInboundPayload

def DecodedApprovalInbound.approvalRequest (inbound : DecodedApprovalInbound) :
    Option ValidatedApprovalRequest :=
  match inbound.payload with
  | .request request => some request
  | _ => none

/-- A policy decision with the texts of its reasons. -/
structure TierDecision where
  tier : UInt8
  reasons : List String
deriving DecidableEq

/-- The identity secret never leaves it. -/
structure UnlockedIdentity where
  sign : Bytes → Bytes

structure ApprovalInner where
  tracker : ApprovedRequestTracker
  receivedIds : Finset String
  terminalIds : Finset String
  policy : PhoneApprovalPolicy

structure ApprovalProtocol where
  scope : ApprovalSessionScope
  inner : ApprovalInner

/-- `map_err(|_| error)`, which a panic passes by. -/
def hideCause (error : ApprovalFfiError) : Fault ProtocolError → Fault ApprovalFfiError
  | .err _ => .err error
  | .panic => .panic

def tier3ReasonText : Tier3Reason → String
  | .deleteMethod => "delete_method"
  | .novelDestination => "novel_destination"
  | .configuredRule => "configured_rule"

def unsigned (reqId : ReqId) (decision : Decision) (reason : Option String) : ApprovalResponse :=
  ⟨reqId, decision, reason, .replicate 64 0⟩

/-! ## What a handle tells -/

structure ApprovalRequestSummary where
  reqId : String
  opType : String
  service : String
  method : String
  endpoint : String
  paramsJson : String
  canonicalRequestJson : String
  requestedBy : Option String
  timestamp : Int64
deriving DecidableEq

def ValidatedApprovalRequest.summary (handle : ValidatedApprovalRequest) :
    Except ApprovalFfiError ApprovalRequestSummary := do
  let request := handle.request
  let paramsJson ← (toCanonicalString request.params).mapError fun _ => .invalidRequest
  let canonicalRequestJson ← request.canonicalBindingJson.mapError fun _ => .invalidRequest
  .ok
    { reqId := request.reqId.hex
      opType := "authenticated_request"
      service := request.service
      method := request.method
      endpoint := request.endpoint
      paramsJson
      canonicalRequestJson
      requestedBy := request.requestedBy
      timestamp := request.timestamp }

/-- `toF64` is how `serde_json` reads a number with a fraction or an exponent. -/
def ValidatedApprovalRequest.terminalLogPayload (toF64 : List Char → Option UInt64)
    (handle : ValidatedApprovalRequest) (decision : ApprovalDecision) (reason : Option String)
    (requiredTier : UInt8) (tier3Reasons : List String) : Except ApprovalFfiError String := do
  if requiredTier < 2 ∨ 3 < requiredTier then .error .invalidDecision
  else
    let binding ← handle.request.canonicalBindingJson.mapError fun _ => .invalidRequest
    match Json.readValue toF64 binding with
    | some ⟨.object members, _⟩ =>
      let members := Json.insertAll members
        [("decision", .string decision.toDecision.name),
          ("required_tier", .number (.posInt requiredTier.toUInt64)),
          ("tier3_reasons", .array (tier3Reasons.map .string))]
      let payload : Json := match reason with
        | some reason => .object (Json.insertMember "reason" (.string reason) members)
        | none => (Json.object members).remove "reason"
      (Crypto.canonicalize payload).mapError fun _ => .invalidRequest
    | _ => .error .invalidRequest

/-! ## The calls -/

namespace ApprovalProtocol

section Calls

-- the readers of TOML and of CBOR
variable (fromStr : String → Except String PhoneApprovalPolicy)
variable (fromReader : Bytes → Except String WireMessage)
variable (p : ApprovalProtocol)

def new (scope : ApprovalSessionScope) (policyToml : String) :
    Except ApprovalFfiError ApprovalProtocol := do
  let policy ← (PhoneApprovalPolicy.parse fromStr policyToml).mapError fun _ => .policyInvalid
  .ok ⟨scope, ⟨.new, ∅, ∅, policy⟩⟩

def withTracker (tracker : ApprovedRequestTracker) : ApprovalProtocol :=
  { p with inner := { p.inner with tracker } }

/-- `received_ids.insert`. -/
def receive (id : String) : ApprovalProtocol :=
  { p with inner := { p.inner with receivedIds := insert id p.inner.receivedIds } }

/-- `terminal_ids.insert`. -/
def reserve (id : String) : ApprovalProtocol :=
  { p with inner := { p.inner with terminalIds := insert id p.inner.terminalIds } }

def registerRequest (request : ApprovalRequest) :
    ApprovalProtocol × Except ApprovalFfiError ValidatedApprovalRequest :=
  if request.reqId.hex ∈ p.inner.receivedIds then (p, .error .duplicateRequest)
  else (p.receive request.reqId.hex, .ok ⟨request, p.scope⟩)

def decodeRequest (plaintext : Bytes) :
    ApprovalProtocol × Except (Fault ApprovalFfiError) ValidatedApprovalRequest :=
  match decodeApprovalRequest fromReader plaintext with
  | .error e => (p, .error (hideCause .invalidRequest e))
  | .ok request => ((p.registerRequest request).1, (p.registerRequest request).2.mapError .err)

def decodeInbound (plaintext : Bytes) :
    ApprovalProtocol × Except (Fault ApprovalFfiError) DecodedApprovalInbound :=
  match decode fromReader plaintext with
  | .error e => (p, .error (hideCause .invalidRequest e))
  | .ok (.approvalRequest request) =>
    match request.validate with
    | .error _ => (p, .error (.err .invalidRequest))
    | .ok _ =>
      if request.opType ≠ .authenticatedRequest then (p, .error (.err .invalidRequest))
      else
        ((p.registerRequest request).1,
          ((p.registerRequest request).2.map fun handle => ⟨p.scope, .request handle⟩).mapError
            .err)
  | .ok (.sessionEnd _ _) => (p, .ok ⟨p.scope, .sessionEnd⟩)
  | .ok (.ping reqId _) => (p, .ok ⟨p.scope, .ping reqId⟩)
  | .ok (.listServicesRequest reqId) => (p, .ok ⟨p.scope, .listServices reqId⟩)
  | .ok _ => (p, .ok ⟨p.scope, .unexpected⟩)

/-- `sinceEpoch` is the wall clock in seconds, if it stands after the epoch. -/
def encodePong (inbound : DecodedApprovalInbound) (sinceEpoch : Option UInt64) :
    Except ApprovalFfiError Bytes :=
  if inbound.owner ≠ p.scope then .error .wrongSession
  else
    match inbound.payload, sinceEpoch with
    | .ping reqId, some seconds =>
      if seconds.toNat < 2 ^ 63 then
        (encode WireMessage.intoWriter (.pong reqId seconds.toInt64)).mapError fun _ =>
          .invalidRequest
      else .error .invalidRequest
    | _, _ => .error .invalidRequest

def encodeListServicesResponse (inbound : DecodedApprovalInbound) (services : List String) :
    Except ApprovalFfiError Bytes :=
  if inbound.owner ≠ p.scope then .error .wrongSession
  else
    match inbound.payload with
    | .listServices reqId =>
      (encode WireMessage.intoWriter (.listServicesResponse reqId services)).mapError fun _ =>
        .invalidRequest
    | _ => .error .invalidRequest

def evaluateTier (request : ValidatedApprovalRequest)
    (recentApprovals : List ApprovedDestination) : Except ApprovalFfiError TierDecision :=
  if request.owner ≠ p.scope then .error .wrongSession
  else
    let decision := p.inner.policy.evaluate request.request recentApprovals
    .ok ⟨decision.tier, decision.reasons.map tier3ReasonText⟩

/-- Only an approval needs the binding text. -/
def checkBinding (request : ApprovalRequest) (decision : Decision) : Except ApprovalFfiError Unit :=
  if decision = .approved then
    (request.canonicalBindingJson.map fun _ => ()).mapError fun _ => .invalidRequest
  else .ok ()

/-- Everything `signed_response` checks before the identity signs: the response
without its signature, and the payload. -/
def prepare (request : ValidatedApprovalRequest) (decision : Decision) (reason : Option String) :
    Except ApprovalFfiError (ApprovalResponse × Bytes) :=
  if request.owner ≠ p.scope then .error .wrongSession
  else if request.request.reqId.hex ∈ p.inner.terminalIds then .error .duplicateDecision
  else do
    checkBinding request.request decision
    let response := unsigned request.request.reqId decision reason
    let payload ← response.signaturePayload.mapError fun _ => .signingFailed
    let _ ← (encode WireMessage.intoWriter (.approvalResponse response)).mapError fun _ =>
      .signingFailed
    .ok (response, payload)

/-- From the signature on; the request id is reserved by now. -/
def conclude (request : ApprovalRequest) (response : ApprovalResponse) (signature : Bytes)
    (r : Readings) : ApprovalProtocol × Except ApprovalFfiError Bytes :=
  if h : signature.length = 64 then
    let response := { response with signature := ⟨signature, h⟩ }
    let encoded := (encode WireMessage.intoWriter (.approvalResponse response)).mapError fun _ =>
      .signingFailed
    if response.decision = .approved then
      match p.inner.tracker.recordApproval request response r with
      | (tracker, .error _) => (p.withTracker tracker, .error .invalidRequest)
      | (tracker, .ok _) => (p.withTracker tracker, encoded)
    else (p, encoded)
  else (p, .error .signingFailed)

/-- In the middle, the payload the identity signed, if it did. -/
def signedResponse (request : ValidatedApprovalRequest) (decision : ApprovalDecision)
    (reason : Option String) (identity : UnlockedIdentity) (r : Readings) :
    ApprovalProtocol × Option Bytes × Except ApprovalFfiError Bytes :=
  match p.prepare request decision.toDecision reason with
  | .error e => (p, none, .error e)
  | .ok (response, payload) =>
    let reserved := p.reserve request.request.reqId.hex
    let concluded := reserved.conclude request.request response (identity.sign payload) r
    (concluded.1, some payload, concluded.2)

def validateExecuteBinding (plaintext : Bytes) (r : Readings) :
    ApprovalProtocol × Except (Fault ApprovalFfiError) Unit :=
  match decodeExecuteRequest fromReader plaintext with
  | .error e => (p, .error (hideCause .bindingRejected e))
  | .ok execute =>
    (p.withTracker (p.inner.tracker.validateExecute execute r).1,
      (p.inner.tracker.validateExecute execute r).2.mapError fun _ => .err .bindingRejected)

end Calls

end ApprovalProtocol

/-! ## Calls on any number of objects -/

/-- A call on a protocol object, over how requests and inbound messages are passed. -/
inductive Invocation (Request Inbound : Type) where
  | decodeRequest (plaintext : Bytes)
  | decodeInbound (plaintext : Bytes)
  | encodePong (inbound : Inbound) (sinceEpoch : Option UInt64)
  | encodeListServicesResponse (inbound : Inbound) (services : List String)
  | evaluateTier (request : Request) (recentApprovals : List ApprovedDestination)
  | signedResponse (request : Request) (decision : ApprovalDecision) (reason : Option String)
      (identity : UnlockedIdentity) (r : Readings)
  | validateExecuteBinding (plaintext : Bytes) (r : Readings)

/-- A call as the object sees it. -/
abbrev Resolved := Invocation ValidatedApprovalRequest DecodedApprovalInbound

inductive Value where
  | request (handle : ValidatedApprovalRequest)
  | inbound (handle : DecodedApprovalInbound)
  | tier (decision : TierDecision)
  | bytes (encoded : Bytes)
  | unit

/-- What a call leaves: the object, the payload an identity signed, and the result. -/
structure Reply where
  protocol : ApprovalProtocol
  signed : Option Bytes
  result : Except (Fault ApprovalFfiError) Value

/-- A call, and what came of it. -/
structure Receipt where
  self : Nat
  invocation : Resolved
  signed : Option Bytes
  result : Except (Fault ApprovalFfiError) Value

/-- The objects Kotlin may hold references to. -/
structure Objects where
  protocols : List ApprovalProtocol
  requests : List ValidatedApprovalRequest
  inbound : List DecodedApprovalInbound

inductive Action where
  | new (policyToml : String)
  | invoke (self : Nat) (invocation : Invocation Nat Nat)

section Run

variable (fromStr : String → Except String PhoneApprovalPolicy)
variable (fromReader : Bytes → Except String WireMessage)

def ApprovalProtocol.invoke (p : ApprovalProtocol) : Resolved → Reply
  | .decodeRequest plaintext =>
    ⟨(p.decodeRequest fromReader plaintext).1, none,
      (p.decodeRequest fromReader plaintext).2.map .request⟩
  | .decodeInbound plaintext =>
    ⟨(p.decodeInbound fromReader plaintext).1, none,
      (p.decodeInbound fromReader plaintext).2.map .inbound⟩
  | .encodePong inbound sinceEpoch =>
    ⟨p, none, ((p.encodePong inbound sinceEpoch).map .bytes).mapError .err⟩
  | .encodeListServicesResponse inbound services =>
    ⟨p, none, ((p.encodeListServicesResponse inbound services).map .bytes).mapError .err⟩
  | .evaluateTier request recentApprovals =>
    ⟨p, none, ((p.evaluateTier request recentApprovals).map .tier).mapError .err⟩
  | .signedResponse request decision reason identity r =>
    let reply := p.signedResponse request decision reason identity r
    ⟨reply.1, reply.2.1, (reply.2.2.map .bytes).mapError .err⟩
  | .validateExecuteBinding plaintext r =>
    ⟨(p.validateExecuteBinding fromReader plaintext r).1, none,
      (p.validateExecuteBinding fromReader plaintext r).2.map fun _ => .unit⟩

/-- Follow the references. -/
def Objects.resolve (o : Objects) : Invocation Nat Nat → Option Resolved
  | .decodeRequest plaintext => some (.decodeRequest plaintext)
  | .decodeInbound plaintext => some (.decodeInbound plaintext)
  | .encodePong i sinceEpoch => o.inbound[i]?.map (.encodePong · sinceEpoch)
  | .encodeListServicesResponse i services =>
    o.inbound[i]?.map (.encodeListServicesResponse · services)
  | .evaluateTier i recentApprovals => o.requests[i]?.map (.evaluateTier · recentApprovals)
  | .signedResponse i decision reason identity r =>
    o.requests[i]?.map (.signedResponse · decision reason identity r)
  | .validateExecuteBinding plaintext r => some (.validateExecuteBinding plaintext r)

/-- The request handles a call gave out. An inbound message gives its request away. -/
def Receipt.requests (receipt : Receipt) : List ValidatedApprovalRequest :=
  match receipt.result with
  | .ok (.request handle) => [handle]
  | .ok (.inbound inbound) => inbound.approvalRequest.toList
  | _ => []

def Receipt.inbound (receipt : Receipt) : List DecodedApprovalInbound :=
  match receipt.result with
  | .ok (.inbound inbound) => [inbound]
  | _ => []

def Reply.receipt (reply : Reply) (self : Nat) (invocation : Resolved) : Receipt :=
  ⟨self, invocation, reply.signed, reply.result⟩

/-- The object called is now `p`, and the handles of the call are given out. -/
def Objects.keep (o : Objects) (receipt : Receipt) (p : ApprovalProtocol) : Objects :=
  ⟨o.protocols.set receipt.self p, o.requests ++ receipt.requests, o.inbound ++ receipt.inbound⟩

/-- A call that refers to no object is not made. -/
def Objects.step (o : Objects) : Action → Objects × List Receipt
  | .new policyToml =>
    match ApprovalProtocol.new fromStr ⟨o.protocols.length⟩ policyToml with
    | .error _ => (o, [])
    | .ok p => ({ o with protocols := o.protocols ++ [p] }, [])
  | .invoke self invocation =>
    match o.protocols[self]?, o.resolve invocation with
    | some p, some resolved =>
      let reply := p.invoke fromReader resolved
      (o.keep (reply.receipt self resolved) reply.protocol, [reply.receipt self resolved])
    | _, _ => (o, [])

def Objects.run (o : Objects) : List Action → Objects × List Receipt
  | [] => (o, [])
  | a :: actions =>
    let rest := run (o.step fromStr fromReader a).1 actions
    (rest.1, (o.step fromStr fromReader a).2 ++ rest.2)

end Run

/-! ## What a call can do -/

/-- The tracker has no entry it did not have. -/
structure Shrinks (t t' : ApprovedRequestTracker) : Prop where
  ttl : t'.ttl = t.ttl
  pending : ∀ id entry, t'.pending id = some entry → t.pending id = some entry

theorem Shrinks.refl (t : ApprovedRequestTracker) : Shrinks t t := ⟨rfl, fun _ _ h => h⟩

theorem Shrinks.prune (t : ApprovedRequestTracker) (r : Readings) : Shrinks t (t.prune r) :=
  ⟨rfl, fun _ _ h => h⟩

theorem Shrinks.remove (t : ApprovedRequestTracker) (id : String) : Shrinks t (t.remove id) :=
  ⟨rfl, fun _ _ h => (ApprovedRequestTracker.pending_remove h).1⟩

/-- A signature takes as many octets as the zeros in its place. -/
theorem encode_signed {response : ApprovalResponse} {bytes : Bytes}
    (h : encode WireMessage.intoWriter (.approvalResponse response) = .ok bytes)
    (signature : Octets 64) :
    ∃ bytes', encode WireMessage.intoWriter
      (.approvalResponse { response with signature }) = .ok bytes' := by
  obtain ⟨-, rfl, hlen⟩ := encode_eq_ok.mp h
  refine ⟨_, encode_eq_ok.mpr ⟨rfl, rfl, ?_⟩⟩
  have hsame := Cbor.length_write_map
    (("type", .text "approval_response") :: ([response.reqId.entry,
      ("decision", .text response.decision.name)] ++ optionalEntry "reason" response.reason)) []
    "signature" (.bytes response.signature.1) (.bytes signature.1)
  have hbytes : ∀ b : Octets 64,
    (Cbor.write (.bytes b.1)).length = (Cbor.head 2 64).length + 64 := by
    intro b
    rw [Cbor.write, b.2, List.length_append, b.2]
  rw [hbytes, hbytes] at hsame
  exact (Nat.add_right_cancel hsame) ▸ hlen

/-! ## What the calls encode -/

section Encoded

variable {p : ApprovalProtocol}

variable {encoded : Bytes} {r : Readings} {inbound : DecodedApprovalInbound}

/-- What comes out of `conclude` encodes the response with a signature. -/
theorem conclude_ok {request : ApprovalRequest} {response : ApprovalResponse} {signature : Bytes}
    (h : (p.conclude request response signature r).2 = .ok encoded) :
    ∃ signature, encode WireMessage.intoWriter (.approvalResponse { response with signature }) =
      .ok encoded := by
  unfold ApprovalProtocol.conclude at h
  split_ifs at h with hlength
  refine ⟨⟨signature, hlength⟩, ?_⟩
  dsimp only at h
  split at h
  · split at h
    · cases h
    · exact mapError_eq_ok.mp h
  · exact mapError_eq_ok.mp h

/-- A signed response answers the request it was asked for, with the decision asked for. -/
theorem signedResponse_ok {request : ValidatedApprovalRequest} {decision : ApprovalDecision}
    {reason : Option String} {identity : UnlockedIdentity}
    (h : (p.signedResponse request decision reason identity r).2.2 = .ok encoded) :
    ∃ response : ApprovalResponse, response.reqId = request.request.reqId ∧
      response.decision = decision.toDecision ∧
      encode WireMessage.intoWriter (.approvalResponse response) = .ok encoded := by
  unfold ApprovalProtocol.signedResponse at h
  split at h
  · cases h
  · next response payload hprepare =>
    obtain ⟨signature, hencoded⟩ := conclude_ok h
    have hresponse : response = unsigned request.request.reqId decision.toDecision reason := by
      unfold ApprovalProtocol.prepare at hprepare
      split_ifs at hprepare
      obtain ⟨_, -, hprepare⟩ := bind_eq_ok.mp hprepare
      obtain ⟨_, -, hprepare⟩ := bind_eq_ok.mp hprepare
      obtain ⟨_, -, hprepare⟩ := bind_eq_ok.mp hprepare
      cases hprepare
      rfl
    subst hresponse
    exact ⟨_, rfl, rfl, hencoded⟩

theorem encodePong_ok {sinceEpoch : Option UInt64}
    (h : p.encodePong inbound sinceEpoch = .ok encoded) :
    ∃ reqId timestamp, encode WireMessage.intoWriter (.pong reqId timestamp) = .ok encoded := by
  unfold ApprovalProtocol.encodePong at h
  split_ifs at h
  split at h
  · split_ifs at h
    exact ⟨_, _, mapError_eq_ok.mp h⟩
  · cases h

theorem encodeListServicesResponse_ok {services : List String}
    (h : p.encodeListServicesResponse inbound services = .ok encoded) :
    ∃ reqId, encode WireMessage.intoWriter (.listServicesResponse reqId services) =
      .ok encoded := by
  unfold ApprovalProtocol.encodeListServicesResponse at h
  split_ifs at h
  split at h
  · exact ⟨_, mapError_eq_ok.mp h⟩
  · cases h

end Encoded

section Effects

variable (fromReader : Bytes → Except String WireMessage) (p : ApprovalProtocol)

/-- Everything a call can do to its object, with what it checked on the way. -/
inductive Effect : Resolved → Reply → Prop
  | fail {c : Resolved} {e : Fault ApprovalFfiError} : Effect c ⟨p, none, .error e⟩
  | pong {inbound : DecodedApprovalInbound} {sinceEpoch : Option UInt64} {encoded : Bytes}
      (howner : inbound.owner = p.scope) :
      Effect (.encodePong inbound sinceEpoch) ⟨p, none, .ok (.bytes encoded)⟩
  | services {inbound : DecodedApprovalInbound} {services : List String} {encoded : Bytes}
      (howner : inbound.owner = p.scope) :
      Effect (.encodeListServicesResponse inbound services) ⟨p, none, .ok (.bytes encoded)⟩
  | tier {request : ValidatedApprovalRequest} {recentApprovals : List ApprovedDestination}
      {decision : TierDecision} (howner : request.owner = p.scope) :
      Effect (.evaluateTier request recentApprovals) ⟨p, none, .ok (.tier decision)⟩
  | hear {plaintext : Bytes} {payload : ApprovalInboundPayload}
      (hcontrol : ∀ handle, payload ≠ .request handle) :
      Effect (.decodeInbound plaintext) ⟨p, none, .ok (.inbound ⟨p.scope, payload⟩)⟩
  | register {plaintext : Bytes} {request : ApprovalRequest}
      (hnew : request.reqId.hex ∉ p.inner.receivedIds) :
      Effect (.decodeRequest plaintext)
        ⟨p.receive request.reqId.hex, none, .ok (.request ⟨request, p.scope⟩)⟩
  | registerInbound {plaintext : Bytes} {request : ApprovalRequest}
      (hnew : request.reqId.hex ∉ p.inner.receivedIds) :
      Effect (.decodeInbound plaintext)
        ⟨p.receive request.reqId.hex, none, .ok (.inbound ⟨p.scope, .request ⟨request, p.scope⟩⟩)⟩
  | answer {request : ValidatedApprovalRequest} {decision : ApprovalDecision}
      {reason : Option String} {identity : UnlockedIdentity} {r : Readings} {payload : Bytes}
      {tracker : ApprovedRequestTracker} {result : Except (Fault ApprovalFfiError) Value}
      (howner : request.owner = p.scope)
      (hnew : request.request.reqId.hex ∉ p.inner.terminalIds)
      (htracker : Shrinks p.inner.tracker tracker)
      (hresult : ∀ value, result = .ok value →
        decision ≠ .approved ∧ ∃ encoded, value = .bytes encoded) :
      Effect (.signedResponse request decision reason identity r)
        ⟨(p.reserve request.request.reqId.hex).withTracker tracker, some payload, result⟩
  | approve {request : ValidatedApprovalRequest} {reason : Option String}
      {identity : UnlockedIdentity} {r : Readings} {payload encoded : Bytes} {json : String}
      (howner : request.owner = p.scope)
      (hnew : request.request.reqId.hex ∉ p.inner.terminalIds)
      (hjson : request.request.canonicalBindingJson = .ok json) :
      Effect (.signedResponse request .approved reason identity r)
        ⟨(p.reserve request.request.reqId.hex).withTracker
            ((p.inner.tracker.prune r).insert request.request.reqId.hex ⟨json, r.stamp⟩),
          some payload, .ok (.bytes encoded)⟩
  | attempt {plaintext : Bytes} {r : Readings} {tracker : ApprovedRequestTracker}
      {e : Fault ApprovalFfiError} (htracker : Shrinks p.inner.tracker tracker) :
      Effect (.validateExecuteBinding plaintext r) ⟨p.withTracker tracker, none, .error e⟩
  | execute {plaintext : Bytes} {r : Readings} {tracker : ApprovedRequestTracker}
      {exec : ExecuteRequest} {entry : Entry}
      (hdecode : decodeExecuteRequest fromReader plaintext = .ok exec)
      (hpending : p.inner.tracker.pending exec.reqId.hex = some entry)
      (hage : r.age ≤ entry.approvedAt + p.inner.tracker.ttl)
      (hjson : toCanonicalString exec.json = .ok entry.approvedJson)
      (htracker : Shrinks p.inner.tracker tracker)
      (hgone : tracker.pending exec.reqId.hex = none) :
      Effect (.validateExecuteBinding plaintext r) ⟨p.withTracker tracker, none, .ok .unit⟩

variable {fromReader p}

theorem registerRequest_cases (request : ApprovalRequest) :
    p.registerRequest request = (p, .error .duplicateRequest) ∨
    (request.reqId.hex ∉ p.inner.receivedIds ∧
      p.registerRequest request = (p.receive request.reqId.hex, .ok ⟨request, p.scope⟩)) := by
  unfold ApprovalProtocol.registerRequest
  split_ifs with hseen
  · exact .inl rfl
  · exact .inr ⟨hseen, rfl⟩

theorem decodeRequest_effect (plaintext : Bytes) :
    Effect fromReader p (.decodeRequest plaintext)
      (p.invoke fromReader (.decodeRequest plaintext)) := by
  simp only [ApprovalProtocol.invoke, ApprovalProtocol.decodeRequest]
  cases decodeApprovalRequest fromReader plaintext with
  | error e => exact .fail
  | ok request =>
    rcases registerRequest_cases (p := p) request with heq | ⟨hnew, heq⟩
    · simp only [heq]
      exact .fail
    · simp only [heq]
      exact .register hnew

theorem decodeInbound_effect (plaintext : Bytes) :
    Effect fromReader p (.decodeInbound plaintext)
      (p.invoke fromReader (.decodeInbound plaintext)) := by
  simp only [ApprovalProtocol.invoke, ApprovalProtocol.decodeInbound]
  cases decode fromReader plaintext with
  | error e => exact .fail
  | ok message =>
    cases message with
    | approvalRequest request =>
      dsimp only
      cases request.validate with
      | error e => exact .fail
      | ok _ =>
        dsimp only
        split_ifs with hop
        · exact .fail
        · rcases registerRequest_cases (p := p) request with heq | ⟨hnew, heq⟩
          · simp only [heq]
            exact .fail
          · simp only [heq]
            exact .registerInbound hnew
    | _ => exact .hear nofun

/-- What a prepared response was checked for. -/
theorem prepare_ok {request : ValidatedApprovalRequest} {decision : Decision}
    {reason : Option String} {response : ApprovalResponse} {payload : Bytes}
    (h : p.prepare request decision reason = .ok (response, payload)) :
    request.owner = p.scope ∧ request.request.reqId.hex ∉ p.inner.terminalIds ∧
      response = unsigned request.request.reqId decision reason ∧
      ∃ bytes, encode WireMessage.intoWriter (.approvalResponse response) = .ok bytes := by
  unfold ApprovalProtocol.prepare at h
  split_ifs at h with howner hterminal
  obtain ⟨_, -, h⟩ := bind_eq_ok.mp h
  obtain ⟨_, -, h⟩ := bind_eq_ok.mp h
  obtain ⟨bytes, hencode, h⟩ := bind_eq_ok.mp h
  cases h
  exact ⟨not_not.mp howner, hterminal, rfl, bytes, mapError_eq_ok.mp hencode⟩

/-- Past the reservation, a response is recorded and returned, or neither. -/
theorem conclude_cases (request : ApprovalRequest) {response : ApprovalResponse} {bytes : Bytes}
    (hencode : encode WireMessage.intoWriter (.approvalResponse response) = .ok bytes)
    (signature : Bytes) (r : Readings) :
    (∃ json encoded, response.decision = .approved ∧ request.canonicalBindingJson = .ok json ∧
      p.conclude request response signature r =
        (p.withTracker ((p.inner.tracker.prune r).insert request.reqId.hex ⟨json, r.stamp⟩),
          .ok encoded)) ∨
    (∃ encoded, response.decision ≠ .approved ∧
      p.conclude request response signature r = (p, .ok encoded)) ∨
    (∃ tracker e, Shrinks p.inner.tracker tracker ∧
      p.conclude request response signature r = (p.withTracker tracker, .error e)) := by
  unfold ApprovalProtocol.conclude
  by_cases hlen : signature.length = 64
  · obtain ⟨encoded, hencoded⟩ := encode_signed hencode ⟨signature, hlen⟩
    simp only [dif_pos hlen, hencoded]
    split_ifs with happroved
    · rcases ApprovedRequestTracker.recordApproval_cases p.inner.tracker request
        { response with signature := ⟨signature, hlen⟩ } r with
        ⟨json, hjson, -, heq⟩ | ⟨e, heq | heq⟩
      · rw [heq]
        exact .inl ⟨json, encoded, happroved, hjson, rfl⟩
      · rw [heq]
        exact .inr (.inr ⟨_, _, .refl _, rfl⟩)
      · rw [heq]
        exact .inr (.inr ⟨_, _, .prune _ r, rfl⟩)
    · exact .inr (.inl ⟨encoded, happroved, rfl⟩)
  · rw [dif_neg hlen]
    exact .inr (.inr ⟨p.inner.tracker, _, .refl _, rfl⟩)

theorem ApprovalDecision.toDecision_eq_approved {decision : ApprovalDecision} :
    decision.toDecision = .approved ↔ decision = .approved := by
  cases decision <;> decide

theorem signedResponse_effect (request : ValidatedApprovalRequest) (decision : ApprovalDecision)
    (reason : Option String) (identity : UnlockedIdentity) (r : Readings) :
    Effect fromReader p (.signedResponse request decision reason identity r)
      (p.invoke fromReader (.signedResponse request decision reason identity r)) := by
  simp only [ApprovalProtocol.invoke, ApprovalProtocol.signedResponse]
  cases hprepare : p.prepare request decision.toDecision reason with
  | error e => exact .fail
  | ok prepared =>
    obtain ⟨response, payload⟩ := prepared
    obtain ⟨howner, hnew, rfl, bytes, hencode⟩ := prepare_ok hprepare
    rcases conclude_cases (p := p.reserve request.request.reqId.hex) request.request hencode
      (identity.sign payload) r with
      ⟨json, encoded, happroved, hjson, heq⟩ | ⟨encoded, hother, heq⟩ | ⟨tracker, e, hshrinks, heq⟩
    · simp only [heq]
      obtain rfl := ApprovalDecision.toDecision_eq_approved.mp happroved
      exact .approve howner hnew hjson
    · simp only [heq]
      refine .answer howner hnew (.refl p.inner.tracker) fun value hvalue => ?_
      cases hvalue
      exact ⟨fun h => hother (ApprovalDecision.toDecision_eq_approved.mpr h), encoded, rfl⟩
    · simp only [heq]
      exact .answer howner hnew hshrinks nofun

theorem validateExecuteBinding_effect (plaintext : Bytes) (r : Readings) :
    Effect fromReader p (.validateExecuteBinding plaintext r)
      (p.invoke fromReader (.validateExecuteBinding plaintext r)) := by
  simp only [ApprovalProtocol.invoke, ApprovalProtocol.validateExecuteBinding]
  cases hdecode : decodeExecuteRequest fromReader plaintext with
  | error e => exact .fail
  | ok exec =>
    have hremoved : Shrinks p.inner.tracker ((p.inner.tracker.prune r).remove exec.reqId.hex) :=
      ⟨rfl, (Shrinks.remove (p.inner.tracker.prune r) exec.reqId.hex).pending⟩
    rcases ApprovedRequestTracker.validateExecute_cases p.inner.tracker exec r with
      ⟨-, e, heq⟩ | ⟨e, heq⟩ | ⟨entry, hpending, hage, ⟨hjson, heq⟩ | ⟨e, heq⟩⟩
    · simp only [heq]
      exact .attempt (.prune _ r)
    · simp only [heq]
      exact .attempt hremoved
    · simp only [heq]
      refine .execute hdecode hpending hage hjson ⟨rfl, hremoved.pending⟩ ?_
      rw [ApprovedRequestTracker.spend_pending, ApprovedRequestTracker.remove_pending,
        Function.update_self]
    · simp only [heq]
      exact .attempt ⟨rfl, hremoved.pending⟩

/-- **What a call does is one of the effects.** -/
theorem invoke_effect (c : Resolved) : Effect fromReader p c (p.invoke fromReader c) := by
  cases c with
  | decodeRequest plaintext => exact decodeRequest_effect plaintext
  | decodeInbound plaintext => exact decodeInbound_effect plaintext
  | encodePong inbound sinceEpoch =>
    rw [ApprovalProtocol.invoke]
    cases hpong : p.encodePong inbound sinceEpoch with
    | error e => exact .fail
    | ok encoded =>
      unfold ApprovalProtocol.encodePong at hpong
      split_ifs at hpong with howner
      exact .pong (not_not.mp howner)
  | encodeListServicesResponse inbound services =>
    rw [ApprovalProtocol.invoke]
    cases hservices : p.encodeListServicesResponse inbound services with
    | error e => exact .fail
    | ok encoded =>
      unfold ApprovalProtocol.encodeListServicesResponse at hservices
      split_ifs at hservices with howner
      exact .services (not_not.mp howner)
  | evaluateTier request recentApprovals =>
    simp only [ApprovalProtocol.invoke, ApprovalProtocol.evaluateTier]
    split_ifs with howner
    · exact .fail
    · exact .tier (not_not.mp howner)
  | signedResponse request decision reason identity r =>
    exact signedResponse_effect request decision reason identity r
  | validateExecuteBinding plaintext r => exact validateExecuteBinding_effect plaintext r

end Effects

end Conveyance.Ffi
