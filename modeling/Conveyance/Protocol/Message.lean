import Conveyance.Crypto.CanonicalJson
import Conveyance.Crypto.Hex
import Conveyance.Wire.Framing

/-!
# Wire messages (conveyance-protocol, message.rs)

The typed messages the daemon and the phone exchange, the canonical-domain
check every signed or compared value passes, the two preimages the phone signs,
and the encoder. CBOR itself and Ed25519 are parameters.
-/

namespace Conveyance.Protocol

open Lib Crypto

/-! ## Errors -/

inductive MismatchCause where
  | payloadDiffers
  | unknownReqId
  | expiredReqId
  | replayedReqId
deriving DecidableEq

inductive ProtocolError where
  | cbor (text : String)
  | messageTooLarge
  | trailingData
  | invalidMap
  | nestingTooDeep
  | unexpectedMessageType
  | unsupportedApprovalOperation
  | unsupportedValueType (field : String)
  | signatureInvalid
  | approvalMismatch (cause : MismatchCause)
  | duplicateRequestId
  | notApproved
  | frame (e : Wire.FrameError)
  | crypto (e : CryptoError)
  | unknownEnumValue
deriving DecidableEq

/-! ## Identifiers and enumerations -/

/-- A 128-bit request correlation id. -/
structure ReqId where
  bytes : Octets 16
deriving DecidableEq

def ReqId.hex (r : ReqId) : String := hexEncode r.bytes.1

/-- One hex text is of one id. -/
theorem ReqId.hex_inj {a b : ReqId} (h : a.hex = b.hex) : a = b := by
  cases a
  cases b
  exact congrArg ReqId.mk (Subtype.ext (hexEncode_inj h))

inductive OpType where
  | authenticatedRequest
  | listServices
  | sessionEnd
deriving DecidableEq

/-- The serde name of an operation. -/
def OpType.name : OpType → String
  | .authenticatedRequest => "authenticated_request"
  | .listServices => "list_services"
  | .sessionEnd => "session_end"

inductive Decision where
  | approved
  | denied
  | expired
deriving DecidableEq

def Decision.name : Decision → String
  | .approved => "approved"
  | .denied => "denied"
  | .expired => "expired"

inductive Status where
  | ok
  | error
  | denied
deriving DecidableEq

def Status.name : Status → String
  | .ok => "ok"
  | .error => "error"
  | .denied => "denied"

/-! ## Messages -/

/-- What the phone is asked to approve. -/
structure ApprovalRequest where
  reqId : ReqId
  opType : OpType
  service : String
  method : String
  endpoint : String
  params : Json.Value
  requestedBy : Option String
  timestamp : Int64

/-- The phone's signed decision on it. -/
structure ApprovalResponse where
  reqId : ReqId
  decision : Decision
  reason : Option String
  signature : Octets 64
deriving DecidableEq

/-- The same fields again, to be carried out. -/
structure ExecuteRequest where
  reqId : ReqId
  opType : OpType
  service : String
  method : String
  endpoint : String
  params : Json.Value
  requestedBy : Option String
  timestamp : Int64

/-- The signed result. -/
structure ExecuteResponse where
  reqId : ReqId
  status : Status
  httpStatus : Option UInt16
  body : Json.Value
  executedAt : Int64
  signature : Octets 64

/-- Of conveyance-pairing, as is `PairingAck`. -/
structure PairingConfirm where
  phoneIdPub : Octets 32
  phoneDhPub : Octets 32
  signature : Octets 64
deriving DecidableEq

structure PairingAck where
  nonce : Octets 32
  pcIdPub : Octets 32
  phoneIdPub : Octets 32
  phoneDhPub : Octets 32
  signature : Octets 64
deriving DecidableEq

/-- The carrier. -/
inductive WireMessage where
  | approvalRequest (m : ApprovalRequest)
  | approvalResponse (m : ApprovalResponse)
  | executeRequest (m : ExecuteRequest)
  | executeResponse (m : ExecuteResponse)
  | listServicesRequest (reqId : ReqId)
  | listServicesResponse (reqId : ReqId) (services : List String)
  | ping (reqId : ReqId) (timestamp : Int64)
  | pong (reqId : ReqId) (timestamp : Int64)
  | sessionEnd (reqId : ReqId) (reason : String)
  | pairingConfirm (m : PairingConfirm)
  | pairingAck (m : PairingAck)

/-! ## The canonical domain -/

mutual
/-- Refuse a value outside the canonical-JSON domain, naming the field it
stands in. -/
def ensureCanonicalDomain : Json → String → Except ProtocolError Unit
  | .number (.float _), field => .error (.unsupportedValueType field)
  | .array items, field => ensureItems items field
  | .object members, field => ensureMembers members field
  | _, _ => .ok ()
def ensureItems : List Json → String → Except ProtocolError Unit
  | [], _ => .ok ()
  | x :: xs, field => do
    ensureCanonicalDomain x field
    ensureItems xs field
def ensureMembers : List (String × Json) → String → Except ProtocolError Unit
  | [], _ => .ok ()
  | (_, x) :: xs, field => do
    ensureCanonicalDomain x field
    ensureMembers xs field
end

variable {field text : String} {a : ApprovalRequest} {e : ExecuteRequest}

theorem ensureItems_ok {items : List Json} :
    ensureItems items field = .ok () ↔ ∀ x ∈ items, ensureCanonicalDomain x field = .ok () := by
  induction items with
  | nil => simp [ensureItems]
  | cons x xs ih =>
    rw [ensureItems, bind_eq_ok, List.forall_mem_cons, ← ih]
    exact ⟨fun ⟨_, hx, hxs⟩ => ⟨hx, hxs⟩, fun ⟨hx, hxs⟩ => ⟨(), hx, hxs⟩⟩

theorem ensureMembers_ok {members : List (String × Json)} :
    ensureMembers members field = .ok () ↔
      ∀ m ∈ members, ensureCanonicalDomain m.2 field = .ok () := by
  induction members with
  | nil => simp [ensureMembers]
  | cons m ms ih =>
    rw [ensureMembers, bind_eq_ok, List.forall_mem_cons, ← ih]
    exact ⟨fun ⟨_, hx, hxs⟩ => ⟨hx, hxs⟩, fun ⟨hx, hxs⟩ => ⟨(), hx, hxs⟩⟩

/-- Exactly the doubles are outside the domain. -/
theorem ensureCanonicalDomain_ok (j : Json) (field : String) :
    ensureCanonicalDomain j field = .ok () ↔ ¬ j.HasFloat := by
  induction j using Json.induct with
  | null | bool | string => exact ⟨fun _ => nofun, fun _ => rfl⟩
  | number n =>
    cases n with
    | posInt | negInt => exact ⟨fun _ => nofun, fun _ => rfl⟩
    | float bits => exact ⟨nofun, fun h => absurd (.here bits) h⟩
  | array items ih =>
    rw [Json.hasFloat_array, ensureCanonicalDomain, ensureItems_ok, forall₂_congr ih]
    push Not
    rfl
  | object members ih =>
    rw [Json.hasFloat_object, ensureCanonicalDomain, ensureMembers_ok, forall₂_congr ih]
    push Not
    rfl

/-- **Canonical JSON is injective and parse-stable.** Over values with no
double in them, equal canonical texts come from equal values, and the bytes of
a canonical text parse to the value under any standard parser, however that
parser rounds doubles. Over all values whatsoever, the writer succeeds exactly
where the domain check accepts, which is where no double stands in the tree. -/
theorem canonical_json_injective_and_parse_stable (toF64 : List Char → Option UInt64)
    (field : String) :
    (∀ v w : Json.Value, ¬ v.1.HasFloat → ¬ w.1.HasFloat →
      canonicalize v.1 = canonicalize w.1 → v = w) ∧
    (∀ v : Json.Value, ¬ v.1.HasFloat → ∃ text, canonicalize v.1 = .ok text ∧
      Json.parseBytes toF64 text.toUTF8 = some v.1) ∧
    (∀ v : Json.Value, ((∃ text, canonicalize v.1 = .ok text) ↔
        ensureCanonicalDomain v.1 field = .ok ()) ∧
      (ensureCanonicalDomain v.1 field = .ok () ↔ ¬ v.1.HasFloat)) := by
  refine ⟨fun v w hv hw heq => ?_, fun v hv => ?_, fun v => ⟨?_, ensureCanonicalDomain_ok _ _⟩⟩
  · obtain ⟨text, htext⟩ := (canonicalize_ok_iff v.1).mpr hv
    exact canonicalize_inj htext (heq ▸ htext)
  · obtain ⟨text, htext⟩ := (canonicalize_ok_iff v.1).mpr hv
    exact ⟨text, htext, parse_canonicalize toF64 htext⟩
  · rw [canonicalize_ok_iff, ensureCanonicalDomain_ok]

/-- Two members whose UTF-16 order is not their scalar order, over escapes and
a negative integer. -/
def astralMembers : Json.Value :=
  .object [("\ue000", .string "tab\tquote\""), ("😀", .number (.ofInt64 (-7)))]

/-- The astral key is written first, though the map lists it last, and the text
still parses to the map. -/
theorem canonical_json_astral_members :
    (canonicalize astralMembers.1 =
      .ok (r#"{"😀":-7,""# ++ "\ue000" ++ r#"":"tab\tquote\""}"#)) ∧
    (∃ text, canonicalize astralMembers.1 = .ok text ∧
      Json.parseBytes (fun _ => none) text.toUTF8 = some astralMembers.1) ∧
    (∀ w : Json.Value, ¬ w.1.HasFloat → canonicalize astralMembers.1 = canonicalize w.1 →
      astralMembers = w) := by
  have hdomain : ¬ astralMembers.1.HasFloat :=
    (ensureCanonicalDomain_ok astralMembers.1 "params").mp rfl
  obtain ⟨hinj, hparse, -⟩ :=
    canonical_json_injective_and_parse_stable (fun _ => none) "params"
  exact ⟨rfl, hparse astralMembers hdomain, fun w hw => hinj astralMembers w hdomain hw⟩

/-! ## Requests as JSON -/

section Requests

variable (reqId : ReqId) (opType : OpType) (service method endpoint : String)
  (params : Json.Value) (requestedBy : Option String) (timestamp : Int64)

/-- A field that is absent, never null, when it has no value. -/
def optionalField (name : String) : Option String → List (String × Json.Value)
  | none => []
  | some s => [(name, .string s)]

/-- The serde fields an ApprovalRequest and an ExecuteRequest share. -/
def requestFields : List (String × Json.Value) :=
  [("req_id", .string reqId.hex), ("op_type", .string opType.name), ("service", .string service),
    ("method", .string method), ("endpoint", .string endpoint), ("params", params)] ++
    optionalField "requested_by" requestedBy ++
    [("timestamp", .number (.ofInt64 timestamp))]

def ApprovalRequest.json (a : ApprovalRequest) : Json.Value :=
  .object (requestFields a.reqId a.opType a.service a.method a.endpoint a.params a.requestedBy
    a.timestamp)

def ExecuteRequest.json (e : ExecuteRequest) : Json.Value :=
  .object (requestFields e.reqId e.opType e.service e.method e.endpoint e.params e.requestedBy
    e.timestamp)

/-- All eight fields of an execution are those of the approval. -/
structure SameFields (a : ApprovalRequest) (e : ExecuteRequest) : Prop where
  reqId : e.reqId = a.reqId
  opType : e.opType = a.opType
  service : e.service = a.service
  method : e.method = a.method
  endpoint : e.endpoint = a.endpoint
  params : e.params = a.params
  requestedBy : e.requestedBy = a.requestedBy
  timestamp : e.timestamp = a.timestamp

theorem requestFields_nodup :
    ((requestFields reqId opType service method endpoint params requestedBy timestamp).map
      Prod.fst).Nodup := by
  cases requestedBy <;> simp [requestFields, optionalField]

theorem requestFields_noFloat (h : ¬ params.1.HasFloat) :
    ¬ (Json.Value.object (requestFields reqId opType service method endpoint params requestedBy
      timestamp)).1.HasFloat := by
  intro hobject
  obtain ⟨f, hf, hfloat⟩ := Json.Value.hasFloat_object hobject
  rcases List.mem_append.mp hf with hf | hf
  · rcases List.mem_append.mp hf with hf | hf
    · simp only [List.mem_cons, List.not_mem_nil, or_false] at hf
      rcases hf with rfl | rfl | rfl | rfl | rfl | rfl
      -- five texts, and the parameters
      iterate 5 exact nomatch hfloat
      exact h hfloat
    · cases requestedBy with
      | none => cases hf
      | some s =>
        cases List.mem_singleton.mp hf
        exact nomatch hfloat
  · cases List.mem_singleton.mp hf
    exact Json.Value.ofInt64_noFloat _ hfloat

/-- Equal fields have one JSON value. -/
theorem SameFields.json (h : SameFields a e) : e.json = a.json := by
  rw [ExecuteRequest.json, h.reqId, h.opType, h.service, h.method, h.endpoint, h.params,
    h.requestedBy, h.timestamp, ApprovalRequest.json]

theorem OpType.name_inj {a b : OpType} (h : a.name = b.name) : a = b := by
  cases a <;> cases b <;> first | rfl | exact absurd h (by decide)

theorem mem_requestedBy {by_ : String} :
    ("requested_by", .string by_) ∈
        requestFields reqId opType service method endpoint params requestedBy timestamp ↔
      requestedBy = some by_ := by
  cases requestedBy with
  | none => simp [requestFields, optionalField]
  | some s =>
    simp only [requestFields, optionalField, List.mem_append, List.mem_cons, Prod.mk.injEq]
    constructor
    · intro h
      have hs : Json.Value.string by_ = Json.Value.string s := by simpa using h
      rw [Json.Value.string_inj hs]
    · intro h
      simp [Option.some.inj h]

/-- An absent `requested_by` is an absent field, so it too is determined. -/
theorem requestedBy_eq_of_json (h : e.json = a.json) : e.requestedBy = a.requestedBy :=
  Json.Value.object_option_eq (requestFields_nodup ..) (requestFields_nodup ..) h
    (fun _ => mem_requestedBy ..) (fun _ => mem_requestedBy ..)

/-- The compared JSON determines every field. -/
theorem sameFields_of_json (h : e.json = a.json) : SameFields a e := by
  have hfield := fun k x y => Json.Value.object_field_eq (k := k) (x := x) (y := y)
    (requestFields_nodup ..) (requestFields_nodup ..) h
  exact {
    reqId := ReqId.hex_inj (Json.Value.string_inj
      (hfield "req_id" _ _ (by simp [requestFields]) (by simp [requestFields])))
    opType := OpType.name_inj (Json.Value.string_inj
      (hfield "op_type" _ _ (by simp [requestFields]) (by simp [requestFields])))
    service := Json.Value.string_inj
      (hfield "service" _ _ (by simp [requestFields]) (by simp [requestFields]))
    method := Json.Value.string_inj
      (hfield "method" _ _ (by simp [requestFields]) (by simp [requestFields]))
    endpoint := Json.Value.string_inj
      (hfield "endpoint" _ _ (by simp [requestFields]) (by simp [requestFields]))
    params := hfield "params" _ _ (by simp [requestFields]) (by simp [requestFields])
    requestedBy := requestedBy_eq_of_json h
    timestamp := Json.Number.ofInt64_inj (Json.Value.number_inj
      (hfield "timestamp" _ _ (by simp [requestFields]) (by simp [requestFields]))) }

/-! ## Construction and validation -/

def ApprovalRequest.validate (a : ApprovalRequest) : Except ProtocolError Unit :=
  ensureCanonicalDomain a.params.1 "params"

def ExecuteRequest.validate (e : ExecuteRequest) : Except ProtocolError Unit :=
  ensureCanonicalDomain e.params.1 "params"

def ApprovalRequest.new : Except ProtocolError ApprovalRequest := do
  ensureCanonicalDomain params.1 "params"
  .ok ⟨reqId, opType, service, method, endpoint, params, requestedBy, timestamp⟩

def ExecuteRequest.new : Except ProtocolError ExecuteRequest := do
  ensureCanonicalDomain params.1 "params"
  .ok ⟨reqId, opType, service, method, endpoint, params, requestedBy, timestamp⟩

end Requests

def toCanonicalString (v : Json.Value) : Except ProtocolError String :=
  (canonicalize v.1).mapError .crypto

/-- The text an approval is remembered by. -/
def ApprovalRequest.canonicalBindingJson (a : ApprovalRequest) : Except ProtocolError String := do
  a.validate
  toCanonicalString a.json

theorem toCanonicalString_ok {v : Json.Value} :
    toCanonicalString v = .ok text ↔ canonicalize v.1 = .ok text := by
  rw [toCanonicalString, mapError_eq_ok]

/-- A request that validates has a binding text. -/
theorem ApprovalRequest.canonicalBindingJson_ok (h : a.validate = .ok ()) :
    ∃ text, a.canonicalBindingJson = .ok text := by
  have hfloat := requestFields_noFloat a.reqId a.opType a.service a.method a.endpoint a.params
    a.requestedBy a.timestamp ((ensureCanonicalDomain_ok _ _).mp h)
  obtain ⟨text, htext⟩ := (canonicalize_ok_iff _).mpr hfloat
  exact ⟨text, bind_eq_ok.mpr ⟨(), h, toCanonicalString_ok.mpr htext⟩⟩

/-- **Byte-equal canonical texts are equal requests.** -/
theorem sameFields_of_canonical (ha : a.canonicalBindingJson = .ok text)
    (he : toCanonicalString e.json = .ok text) : SameFields a e := by
  obtain ⟨_, -, ha⟩ := bind_eq_ok.mp ha
  exact sameFields_of_json
    (canonicalize_inj (toCanonicalString_ok.mp he) (toCanonicalString_ok.mp ha))

/-! ## Signatures -/

def approveContext : Bytes := "conveyance-approve-v1".toUTF8.data.toList

def executeContext : Bytes := "conveyance-execute-v1".toUTF8.data.toList

/-- `context || canonical_json(message minus its signature)`. -/
def signingPayload (context : Bytes) (fields : List (String × Json.Value)) :
    Except ProtocolError Bytes := do
  let canonical ← toCanonicalString (.object fields)
  .ok (context ++ canonical.toUTF8.data.toList)

/-- What is signed is the context and then the canonical fields. -/
theorem signingPayload_ok {context : Bytes} {fields : List (String × Json.Value)}
    {payload : Bytes} :
    signingPayload context fields = .ok payload ↔
      ∃ text, canonicalize (Json.Value.object fields).1 = .ok text ∧
        payload = context ++ text.toUTF8.data.toList := by
  rw [signingPayload, bind_eq_ok]
  simp only [toCanonicalString_ok, Except.ok.injEq]
  exact exists_congr fun _ => and_congr_right fun _ => eq_comm

section Signatures

-- Ed25519 verification: key, message, signature
variable (verify : Octets 32 → Bytes → Octets 64 → Bool)

def ApprovalResponse.signaturePayload (rsp : ApprovalResponse) : Except ProtocolError Bytes :=
  signingPayload approveContext
    ([("req_id", .string rsp.reqId.hex), ("decision", .string rsp.decision.name)] ++
      optionalField "reason" rsp.reason)

def ApprovalResponse.verifySignature (rsp : ApprovalResponse) (phonePublic : Octets 32) :
    Except ProtocolError Unit := do
  let payload ← rsp.signaturePayload
  if verify phonePublic payload rsp.signature then .ok () else .error .signatureInvalid

def ExecuteResponse.signaturePayload (rsp : ExecuteResponse) : Except ProtocolError Bytes :=
  signingPayload executeContext
    ([("req_id", .string rsp.reqId.hex), ("status", .string rsp.status.name)] ++
      (match rsp.httpStatus with
        | none => []
        | some code => [("http_status", .number (.posInt code.toUInt64))]) ++
      [("body", rsp.body), ("executed_at", .number (.ofInt64 rsp.executedAt))])

def ExecuteResponse.verifySignature (rsp : ExecuteResponse) (phonePublic : Octets 32) :
    Except ProtocolError Unit := do
  let payload ← rsp.signaturePayload
  if verify phonePublic payload rsp.signature then .ok () else .error .signatureInvalid

end Signatures

/-! ## Encoding -/

def maxWireMessageBytes : Nat := Wire.defaultReassemblyCap

/-- The checks behind the types. -/
def validateSemantics : WireMessage → Except ProtocolError Unit
  | .approvalRequest m => m.validate
  | .executeRequest m => m.validate
  | .executeResponse m => ensureCanonicalDomain m.body.1 "body"
  | _ => .ok ()

/-- `intoWriter` is the CBOR serializer. -/
def encode (intoWriter : WireMessage → Except String Bytes) (msg : WireMessage) :
    Except ProtocolError Bytes := do
  validateSemantics msg
  let out ← (intoWriter msg).mapError .cbor
  if maxWireMessageBytes < out.length then .error .messageTooLarge else .ok out

end Conveyance.Protocol
