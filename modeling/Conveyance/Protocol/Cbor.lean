import Conveyance.Lib.Cbor
import Conveyance.Protocol.Message

/-!
# Wire messages as CBOR (conveyance-protocol, message.rs)

The layout serde gives a `WireMessage`: one map, its tag first, then the fields
in declaration order, with absent options left out. Ids and signatures are byte
strings.
-/

namespace Conveyance.Protocol

open Lib

mutual
/-- `serde_json::Value`. Doubles never get here: `encode` refuses them. -/
def jsonItem : Json → Cbor.Item
  | .null => .null
  | .bool b => .bool b
  | .number (.posInt n) => .unsigned n
  | .number (.negInt i _ _) => .negative (UInt64.ofNat (-1 - i).toNat)
  | .number (.float bits) => .double bits
  | .string s => .text s
  | .array items => .array (jsonItems items)
  | .object members => .map (jsonEntries members)
def jsonItems : List Json → List Cbor.Item
  | [] => []
  | x :: xs => jsonItem x :: jsonItems xs
def jsonEntries : List (String × Json) → List (String × Cbor.Item)
  | [] => []
  | (key, x) :: xs => (key, jsonItem x) :: jsonEntries xs
end

def optionalEntry (name : String) : Option String → List (String × Cbor.Item)
  | none => []
  | some s => [(name, .text s)]

def ReqId.entry (r : ReqId) : String × Cbor.Item := ("req_id", .bytes r.bytes.1)

def requestEntries (reqId : ReqId) (opType : OpType) (service method endpoint : String)
    (params : Json.Value) (requestedBy : Option String) (timestamp : Int64) :
    List (String × Cbor.Item) :=
  [reqId.entry, ("op_type", .text opType.name), ("service", .text service),
    ("method", .text method), ("endpoint", .text endpoint), ("params", jsonItem params.1)] ++
    optionalEntry "requested_by" requestedBy ++ [("timestamp", Cbor.ofInt64 timestamp)]

/-- A plain octet array is an array of integers; only `serialize_bytes` makes a byte string. -/
def octetsItem {n : Nat} (b : Octets n) : Cbor.Item :=
  .array (b.1.map fun x => .unsigned x.toUInt64)

/-- The tag of a message, and its fields. -/
def WireMessage.entries : WireMessage → String × List (String × Cbor.Item)
  | .approvalRequest m => ("approval_request",
      requestEntries m.reqId m.opType m.service m.method m.endpoint m.params m.requestedBy
        m.timestamp)
  | .approvalResponse m => ("approval_response",
      [m.reqId.entry, ("decision", .text m.decision.name)] ++ optionalEntry "reason" m.reason ++
        [("signature", .bytes m.signature.1)])
  | .executeRequest m => ("execute_request",
      requestEntries m.reqId m.opType m.service m.method m.endpoint m.params m.requestedBy
        m.timestamp)
  | .executeResponse m => ("execute_response",
      [m.reqId.entry, ("status", .text m.status.name)] ++
        (match m.httpStatus with
          | none => []
          | some code => [("http_status", .unsigned code.toUInt64)]) ++
        [("body", jsonItem m.body.1), ("executed_at", Cbor.ofInt64 m.executedAt),
          ("signature", .bytes m.signature.1)])
  | .listServicesRequest reqId => ("list_services_request", [reqId.entry])
  | .listServicesResponse reqId services => ("list_services_response",
      [reqId.entry, ("services", .array (services.map .text))])
  | .ping reqId timestamp => ("ping", [reqId.entry, ("timestamp", Cbor.ofInt64 timestamp)])
  | .pong reqId timestamp => ("pong", [reqId.entry, ("timestamp", Cbor.ofInt64 timestamp)])
  | .sessionEnd reqId reason => ("session_end", [reqId.entry, ("reason", .text reason)])
  | .pairingConfirm m => ("pairing_confirm",
      [("phone_id_pub", octetsItem m.phoneIdPub), ("phone_dh_pub", octetsItem m.phoneDhPub),
        ("signature", .bytes m.signature.1)])
  | .pairingAck m => ("pairing_ack",
      [("nonce", octetsItem m.nonce), ("pc_id_pub", octetsItem m.pcIdPub),
        ("phone_id_pub", octetsItem m.phoneIdPub), ("phone_dh_pub", octetsItem m.phoneDhPub),
        ("signature", .bytes m.signature.1)])

def WireMessage.item (m : WireMessage) : Cbor.Item :=
  .map (("type", .text m.entries.1) :: m.entries.2)

/-- What `ciborium::ser::into_writer` writes. A vector takes everything. -/
def WireMessage.intoWriter (m : WireMessage) : Except String Bytes := .ok (Cbor.write m.item)

end Conveyance.Protocol
