import Conveyance.Crypto.HashChain
import Conveyance.Protocol.Message

/-!
# Signed phone-log rows (conveyance-core, storage/logdiff.rs) and what a signature covers

The phone signs three kinds of things: an approval's decision, an execution's
result and a row of its own log. Each preimage is a context followed by the
canonical JSON of the value without its signature, and they are built in three
places of the source.
-/

namespace Conveyance.Storage

open Lib Crypto Protocol

def phoneLogContext : Bytes := "conveyance-phone-log-v1".toUTF8.data.toList

/-- One exported phone log row. -/
structure PhoneLogRow where
  reqId : Octets 16
  eventType : String
  payloadJson : String
  timestamp : Int64
  signature : Octets 64
deriving DecidableEq

/-- The event a row is about. -/
def PhoneLogRow.event (row : PhoneLogRow) : LogEvent :=
  ⟨row.reqId, row.eventType, row.payloadJson, row.timestamp⟩

/-- `Display` of the one error `to_canonical_string` returns. -/
def canonicalDomainText : String := "value outside the canonical-JSON domain"

def phoneRowSigningPayload (row : PhoneLogRow) : Except String Bytes := do
  let canonical ← (canonicalize (Json.Value.object
    [("req_id", .string (hexEncode row.reqId.1)), ("event_type", .string row.eventType),
      ("payload_json", .string row.payloadJson),
      ("timestamp", .number (.ofInt64 row.timestamp))]).1).mapError fun _ => canonicalDomainText
  .ok (phoneLogContext ++ canonical.toUTF8.data.toList)

/-! ## The preimage the phone's export signs -/

/-- The PC lists a row's fields in another order than the phone. -/
theorem rowObject_eq (row : PhoneLogRow) :
    Json.Value.object [("req_id", .string (hexEncode row.reqId.1)),
      ("event_type", .string row.eventType), ("payload_json", .string row.payloadJson),
      ("timestamp", .number (.ofInt64 row.timestamp))] =
    Json.Value.object (eventFields row.event) :=
  Json.Value.object_perm (by simp [eventFields])
    ((List.Perm.swap ..).trans ((List.Perm.swap ..).cons _))

/-- The row's preimage is always defined, and is the one the export signs: the context followed by
the very content the log's hash chain covers. -/
theorem phoneRowSigningPayload_event (row : PhoneLogRow) :
    phoneRowSigningPayload row = .ok (phoneLogContext ++ eventContentJson row.event) := by
  have htext := canonicalize_canonicalText (.object (eventFields row.event))
    (eventFields_noFloat row.event)
  refine bind_eq_ok.mpr ⟨_, mapError_eq_ok.mpr ?_, rfl⟩
  rw [rowObject_eq]
  exact htext

/-! ## Three kinds of preimage -/

inductive Kind where
  | decision
  | execution
  | row
deriving DecidableEq

def Kind.context : Kind → Bytes
  | .decision => approveContext
  | .execution => executeContext
  | .row => phoneLogContext

/-- The contexts differ in their twelfth octet, so none can be taken for another whatever
follows. -/
theorem Kind.eq_of_context_append {k k' : Kind} {x y : Bytes}
    (h : k.context ++ x = k'.context ++ y) : k = k' := by
  have hlength : ∀ k : Kind, 12 ≤ k.context.length := by
    intro k
    cases k <;> decide
  have htake := congrArg (List.take 12) h
  rw [List.take_append_of_le_length (hlength k),
    List.take_append_of_le_length (hlength k')] at htake
  revert htake
  cases k <;> cases k' <;> decide

/-- What the phone signs. -/
inductive Signed where
  | decision (rsp : ApprovalResponse)
  | execution (rsp : ExecuteResponse)
  | row (r : PhoneLogRow)

def Signed.kind : Signed → Kind
  | .decision _ => .decision
  | .execution _ => .execution
  | .row _ => .row

/-- The bytes the signature of a value covers, where they are defined. -/
def Signed.preimage : Signed → Option Bytes
  | .decision rsp => rsp.signaturePayload.toOption
  | .execution rsp => rsp.signaturePayload.toOption
  | .row r => (phoneRowSigningPayload r).toOption

/-- One kind, and every field but the signature. -/
def Signed.Agree : Signed → Signed → Prop
  | .decision a, .decision b => a.reqId = b.reqId ∧ a.decision = b.decision ∧ a.reason = b.reason
  | .execution a, .execution b =>
    a.reqId = b.reqId ∧ a.status = b.status ∧ a.httpStatus = b.httpStatus ∧ a.body = b.body ∧
      a.executedAt = b.executedAt
  | .row a, .row b =>
    a.reqId = b.reqId ∧ a.eventType = b.eventType ∧ a.payloadJson = b.payloadJson ∧
      a.timestamp = b.timestamp
  | _, _ => False

/-- The fields of a value that its signature covers. -/
def Signed.fields : Signed → List (String × Json.Value)
  | .decision rsp =>
    [("req_id", .string rsp.reqId.hex), ("decision", .string rsp.decision.name)] ++
      optionalField "reason" rsp.reason
  | .execution rsp =>
    [("req_id", .string rsp.reqId.hex), ("status", .string rsp.status.name)] ++
      (match rsp.httpStatus with
        | none => []
        | some code => [("http_status", .number (.posInt code.toUInt64))]) ++
      [("body", rsp.body), ("executed_at", .number (.ofInt64 rsp.executedAt))]
  | .row r => eventFields r.event

theorem Signed.fields_nodup (a : Signed) : (a.fields.map Prod.fst).Nodup := by
  cases a with
  | decision rsp => cases h : rsp.reason <;> simp [Signed.fields, optionalField, h]
  | execution rsp => cases h : rsp.httpStatus <;> simp [Signed.fields, h]
  | row r => simp [Signed.fields, eventFields]

/-- Every preimage is the kind's context followed by the canonical text of the fields. -/
theorem Signed.preimage_some {a : Signed} {p : Bytes} (h : a.preimage = some p) :
    ∃ text, canonicalize (Json.Value.object a.fields).1 = .ok text ∧
      p = a.kind.context ++ text.toUTF8.data.toList := by
  have hok : ∀ {ε : Type} {x : Except ε Bytes}, x.toOption = some p → x = .ok p := by
    intro ε x hx
    cases x with
    | error e => cases hx
    | ok y => exact congrArg Except.ok (Option.some.inj hx)
  cases a with
  | decision | execution => exact signingPayload_ok.mp (hok h)
  | row r =>
    have hrow := hok h
    rw [phoneRowSigningPayload_event] at hrow
    exact ⟨_, canonicalize_canonicalText _ (eventFields_noFloat r.event), (Except.ok.inj hrow).symm⟩

theorem Decision.name_inj {a b : Decision} (h : a.name = b.name) : a = b := by
  cases a <;> cases b <;> first | rfl | exact absurd h (by decide)

theorem Status.name_inj {a b : Status} (h : a.name = b.name) : a = b := by
  cases a <;> cases b <;> first | rfl | exact absurd h (by decide)

theorem mem_reason {rsp : ApprovalResponse} {s : String} :
    ("reason", Json.Value.string s) ∈ (Signed.decision rsp).fields ↔ rsp.reason = some s := by
  cases h : rsp.reason with
  | none => simp [Signed.fields, optionalField, h]
  | some t =>
    simp only [Signed.fields, optionalField, h, List.mem_append, List.mem_cons, Prod.mk.injEq]
    constructor
    · intro hmem
      have hs : Json.Value.string s = Json.Value.string t := by simpa using hmem
      rw [Json.Value.string_inj hs]
    · intro hs
      simp [Option.some.inj hs]

theorem mem_httpStatus {rsp : ExecuteResponse} {code : UInt16} :
    ("http_status", Json.Value.number (.posInt code.toUInt64)) ∈ (Signed.execution rsp).fields ↔
      rsp.httpStatus = some code := by
  cases h : rsp.httpStatus with
  | none => simp [Signed.fields, h]
  | some c =>
    simp only [Signed.fields, h, List.mem_append, List.mem_cons, Prod.mk.injEq]
    constructor
    · intro hmem
      have hc : Json.Value.number (.posInt code.toUInt64) =
          Json.Value.number (.posInt c.toUInt64) := by simpa using hmem
      rw [UInt16.toUInt64_inj.mp (Json.Number.posInt.inj (Json.Value.number_inj hc))]
    · intro hs
      simp [Option.some.inj hs]

theorem Signed.agree_of_fields {a b : Signed} (hkind : a.kind = b.kind)
    (h : Json.Value.object a.fields = Json.Value.object b.fields) : a.Agree b := by
  have hfield := fun k x y => Json.Value.object_field_eq (k := k) (x := x) (y := y)
    a.fields_nodup b.fields_nodup h
  cases a with
  | decision a =>
    cases b with
    | decision b =>
      refine ⟨ReqId.hex_inj (Json.Value.string_inj (hfield "req_id" _ _ ?_ ?_)),
        Decision.name_inj (Json.Value.string_inj (hfield "decision" _ _ ?_ ?_)),
        Json.Value.object_option_eq (Signed.fields_nodup _) (Signed.fields_nodup _) h
          (fun _ => mem_reason) (fun _ => mem_reason)⟩ <;> simp [Signed.fields]
    | execution | row => cases hkind
  | execution a =>
    cases b with
    | decision b => cases hkind
    | execution b =>
      refine ⟨ReqId.hex_inj (Json.Value.string_inj (hfield "req_id" _ _ ?_ ?_)),
        Status.name_inj (Json.Value.string_inj (hfield "status" _ _ ?_ ?_)),
        Json.Value.object_option_eq (Signed.fields_nodup _) (Signed.fields_nodup _) h
          (fun _ => mem_httpStatus) (fun _ => mem_httpStatus), hfield "body" _ _ ?_ ?_,
        Json.Number.ofInt64_inj (Json.Value.number_inj (hfield "executed_at" _ _ ?_ ?_))⟩ <;>
        simp [Signed.fields]
    | row b => cases hkind
  | row a =>
    cases b with
    | decision | execution => cases hkind
    | row b =>
      have hevent : a.event = b.event := eventFields_inj h
      obtain ⟨hreq, htype, hpayload, htime⟩ := LogEvent.mk.inj hevent
      exact ⟨hreq, htype, hpayload, htime⟩

/-- **A signature covers one value.** Decisions, execution results and log rows whose signed bytes
are equal are of one kind and agree on every field but the signature. -/
theorem preimages_unambiguous {a b : Signed} {p : Bytes} (ha : a.preimage = some p)
    (hb : b.preimage = some p) : a.Agree b := by
  obtain ⟨text, htext, hp⟩ := Signed.preimage_some ha
  obtain ⟨text', htext', hp'⟩ := Signed.preimage_some hb
  have happend : a.kind.context ++ text.toUTF8.data.toList =
      b.kind.context ++ text'.toUTF8.data.toList := hp.symm.trans hp'
  have hkind : a.kind = b.kind := Kind.eq_of_context_append happend
  rw [hkind] at happend
  have hsame : text = text' := toUTF8_inj (List.append_cancel_left happend)
  exact Signed.agree_of_fields hkind (canonicalize_inj htext (hsame ▸ htext'))

/-- What is signed of an approval without a reason. -/
def approvedText : String :=
  r#"conveyance-approve-v1{"decision":"approved","# ++
    r#""req_id":"07070707070707070707070707070707"}"#

/-- Two copies of one decision under different signatures share their preimage; with an empty
reason in place of none they would not. -/
theorem preimages_of_resigned_decision :
    let rsp : ApprovalResponse := ⟨⟨.replicate 16 7⟩, .approved, none, .replicate 64 0⟩
    let resigned := { rsp with signature := .replicate 64 1 }
    let reasoned := { rsp with reason := some "" }
    (Signed.decision resigned).Agree (.decision rsp) ∧
      (Signed.decision rsp).preimage = some approvedText.toUTF8.data.toList ∧
      (Signed.decision reasoned).preimage ≠ (Signed.decision rsp).preimage := by
  intro rsp resigned reasoned
  have hrsp : (Signed.decision rsp).preimage = some approvedText.toUTF8.data.toList := by
    decide +kernel
  refine ⟨preimages_unambiguous (a := .decision resigned) hrsp hrsp, hrsp, ?_⟩
  intro heq
  have hagree := preimages_unambiguous (heq.trans hrsp) hrsp
  exact absurd hagree.2.2 (by decide)

end Conveyance.Storage
