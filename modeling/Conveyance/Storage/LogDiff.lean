import Mathlib.Data.List.AList
import Conveyance.Storage.PhoneLog

/-!
# Log reconciliation (conveyance-core, storage/logdiff.rs)

The phone's signed approval rows against the PC's execution events, by request id.
Rows whose signature does not verify are set aside; the others are indexed, and so
are the executions, where a result takes the place of whatever was there and a sent
request does not.

The hash maps are association lists with distinct keys, and the order in which they
are gone through is a parameter, `Order`. Signature verification and the JSON reader
are parameters.
-/

namespace Conveyance.Storage

open Lib Crypto Protocol

/-! ## Data -/

structure PcEvent where
  reqId : Octets 16
  eventType : String
  payloadJson : String
  timestamp : Int64
deriving DecidableEq

inductive SigSide where
  | phone
  | pc
deriving DecidableEq

structure SigFailure where
  side : SigSide
  reqId : Octets 16
  eventType : String
deriving DecidableEq

structure TimestampAnomaly where
  reqId : Octets 16
  executedAt : Int64
  approvedAt : Int64
deriving DecidableEq

structure DiffReport where
  matched : List (Octets 16)
  missingExecution : List (Octets 16)
  executionWithoutApproval : List (Octets 16)
  signatureFailures : List SigFailure
  timestampAnomalies : List TimestampAnomaly
  openRequests : List (Octets 16)
deriving DecidableEq

def DiffReport.clean (report : DiffReport) : Bool :=
  report.executionWithoutApproval.isEmpty && report.signatureFailures.isEmpty &&
    report.timestampAnomalies.isEmpty

/-- The order in which the entries of a map come out. -/
structure Order where
  entries : {V : Type} → List (Octets 16 × V) → List (Octets 16 × V)
  perm : ∀ {V : Type} (l : List (Octets 16 × V)), (entries l).Perm l

/-- Oldest insertion first. -/
def Order.insertion : Order := ⟨fun l => l, fun _ => .refl _⟩

/-! ## Indexes -/

/-- `HashMap<[u8; 16], V>`. -/
abbrev Index (V : Type) := AList fun _ : Octets 16 => V

/-- `entry(id).or_insert(v)`. -/
def Index.orInsert {V : Type} (m : Index V) (id : Octets 16) (v : V) : Index V :=
  if (m.lookup id).isSome then m else m.insert id v

def Index.iter {V : Type} (order : Order) (m : Index V) : List (Octets 16 × V) :=
  order.entries (m.entries.map fun e => (e.1, e.2))

/-- One round of the loop over the PC's events. -/
def indexExecution (m : Index PcEvent) (ev : PcEvent) : Index PcEvent :=
  if ev.eventType = "execute_sent" then m.orInsert ev.reqId ev
  else if ev.eventType = "execute_result" then m.insert ev.reqId ev
  else m

def pcExecuted (pcEvents : List PcEvent) : Index PcEvent := pcEvents.foldl indexExecution ∅

/-- One round of the loop over the trusted rows. -/
def indexGrant (m : Index Int64) (row : PhoneLogRow) : Index Int64 :=
  if row.eventType = "approval_granted" then m.orInsert row.reqId row.timestamp else m

def grants (trusted : List PhoneLogRow) : Index Int64 := trusted.foldl indexGrant ∅

/-! ## Sorting -/

def idLe (a b : Octets 16) : Prop := lexLe a.1 b.1 = true

instance : DecidableRel idLe := fun _ _ => inferInstanceAs (Decidable (_ = true))

instance : Std.Total idLe := ⟨fun a b => lexLe_total a.1 b.1⟩

instance : IsTrans (Octets 16) idLe := ⟨fun _ _ _ => lexLe_trans⟩

def sortIds (ids : List (Octets 16)) : List (Octets 16) := ids.insertionSort idLe

def SigSide.rank : SigSide → Nat
  | .phone => 0
  | .pc => 1

/-- By side, then by request id. -/
def failureLe (a b : SigFailure) : Prop :=
  a.side.rank < b.side.rank ∨ (a.side = b.side ∧ idLe a.reqId b.reqId)

instance : DecidableRel failureLe := fun _ _ => inferInstanceAs (Decidable (_ ∨ _))

/-! ## The report -/

section Diff

-- Ed25519 verification, and the JSON reader
variable (verify : Octets 32 → Bytes → Octets 64 → Bool) (fromStr : String → Option Json.Value)

def PhoneLogRow.verifySignature (row : PhoneLogRow) (phonePublic : Octets 32) : Bool :=
  match phoneRowSigningPayload row with
  | .ok payload => verify phonePublic payload row.signature
  | .error _ => false

/-- The view of an execution row that its signature should cover; what is absent or
null is left out. -/
def signingView (ev : PcEvent) (payload : Json.Value) : Json.Value :=
  let unsigned := payload.remove "signature"
  let field (name : String) : String × Json.Value := (name, (unsigned.get name).getD .null)
  .object ([("req_id", .string (hexEncode ev.reqId.1)), field "status", field "http_status",
    field "body", field "executed_at"].filter fun f => !f.2.isNull)

/-- The bytes rebuilt for the embedded signature. -/
def coveredBytes (ev : PcEvent) (payload : Json.Value) : Except CryptoError Bytes := do
  let canonical ← canonicalize (signingView ev payload).1
  .ok (executeContext ++ canonical.toUTF8.data.toList)

/-- The text under `signature`, if there is one. -/
def signatureText (payload : Json.Value) : Option String :=
  match payload.get "signature" with
  | some ⟨.string s, _⟩ => some s
  | _ => none

section

variable (phonePub : Octets 32)

/-- The embedded signature of an event fails. -/
def pcSignatureFails (ev : PcEvent) : Bool :=
  if ev.eventType ≠ "execute_result" then false
  else
    match fromStr ev.payloadJson with
    | none => false
    | some payload =>
      match signatureText payload with
      -- an older row cannot be verified, which is no evidence against it
      | none => false
      | some sigHex =>
        match hexDecodeArray 64 sigHex, coveredBytes ev payload with
        | some sig, .ok covered => !verify phonePub covered sig
        | _, _ => true

def phoneFailures (phoneRows : List PhoneLogRow) : List SigFailure :=
  (phoneRows.filter fun row => !row.verifySignature verify phonePub).map fun row =>
    ⟨.phone, row.reqId, row.eventType⟩

def pcFailures (pcEvents : List PcEvent) : List SigFailure :=
  (pcEvents.filter (pcSignatureFails verify fromStr phonePub)).map fun ev =>
    ⟨.pc, ev.reqId, ev.eventType⟩

def trustedRows (phoneRows : List PhoneLogRow) : List PhoneLogRow :=
  phoneRows.filter (·.verifySignature verify phonePub)

end

/-- The anomaly of a granted request, if its execution came before the approval. -/
def anomaly (executed : Index PcEvent) (grant : Octets 16 × Int64) : Option TimestampAnomaly := do
  let exec ← executed.lookup grant.1
  if exec.timestamp < grant.2 then some ⟨grant.1, exec.timestamp, grant.2⟩ else none

def diffLogs (order : Order) (pcEvents : List PcEvent) (phoneRows : List PhoneLogRow)
    (phonePub : Octets 32) : DiffReport :=
  let trusted := trustedRows verify phonePub phoneRows
  let executed := pcExecuted pcEvents
  let granted := grants trusted
  let requested := (trusted.filter (·.eventType = "approval_request")).map (·.reqId)
  { matched := sortIds
      (((granted.iter order).filter fun g => (executed.lookup g.1).isSome).map Prod.fst)
    missingExecution := sortIds
      (((granted.iter order).filter fun g => (executed.lookup g.1).isNone).map Prod.fst)
    executionWithoutApproval := sortIds
      (((executed.iter order).map Prod.fst).filter fun id => (granted.lookup id).isNone)
    signatureFailures := (phoneFailures verify phonePub phoneRows ++
      pcFailures verify fromStr phonePub pcEvents).insertionSort failureLe
    timestampAnomalies := ((granted.iter order).filterMap (anomaly executed)).insertionSort
      fun a b => a.executedAt ≤ b.executedAt
    openRequests := sortIds (requested.filter fun id =>
      (granted.lookup id).isNone && (executed.lookup id).isNone) }

end Diff

/-! ## What the indexes hold -/

/-- The event is an execution of the request. -/
def PcEvent.Executes (ev : PcEvent) (id : Octets 16) : Prop :=
  (ev.eventType = "execute_sent" ∨ ev.eventType = "execute_result") ∧ ev.reqId = id

instance (ev : PcEvent) (id : Octets 16) : Decidable (ev.Executes id) :=
  inferInstanceAs (Decidable (_ ∧ _))

/-- The row grants the request. -/
def PhoneLogRow.Grants (row : PhoneLogRow) (id : Octets 16) : Prop :=
  row.eventType = "approval_granted" ∧ row.reqId = id

instance (row : PhoneLogRow) (id : Octets 16) : Decidable (row.Grants id) :=
  inferInstanceAs (Decidable (_ ∧ _))

/-- The time of the first grant. -/
def firstGrant (trusted : List PhoneLogRow) (id : Octets 16) : Option Int64 :=
  (trusted.find? fun row => decide (row.Grants id)).map (·.timestamp)

/-- The execution that is compared: the last result, or else the first sent request. -/
def decisiveExecution (pcEvents : List PcEvent) (id : Octets 16) : Option PcEvent :=
  (pcEvents.filter fun ev => ev.eventType = "execute_result" ∧ ev.reqId = id).getLast?.or
    (pcEvents.find? fun ev => ev.eventType = "execute_sent" ∧ ev.reqId = id)

section Indexes

variable {V : Type} {m : Index V} {id id' : Octets 16} {v : V}

theorem Index.lookup_insert : (m.insert id v).lookup id' =
    if id' = id then some v else m.lookup id' := by
  split_ifs with hid
  · rw [hid, AList.lookup_insert]
  · exact AList.lookup_insert_ne hid

theorem Index.lookup_orInsert : (m.orInsert id v).lookup id' =
    if id' = id then (m.lookup id).or (some v) else m.lookup id' := by
  unfold Index.orInsert
  split_ifs with hsome hid hid
  · rw [hid, Option.or_of_isSome hsome]
  · rfl
  · rw [Index.lookup_insert, if_pos hid, Option.not_isSome_iff_eq_none.mp hsome, Option.none_or]
  · rw [Index.lookup_insert, if_neg hid]

theorem Index.mem_iter {order : Order} {e : Octets 16 × V} :
    e ∈ m.iter order ↔ m.lookup e.1 = some e.2 := by
  rw [Index.iter, (order.perm _).mem_iff, List.mem_map, ← Option.mem_def, AList.mem_lookup_iff]
  constructor
  · rintro ⟨e', he', rfl⟩
    exact he'
  · exact fun h => ⟨_, h, rfl⟩

theorem Index.nodup_iter (order : Order) (m : Index V) : ((m.iter order).map Prod.fst).Nodup := by
  rw [Index.iter, ((order.perm _).map Prod.fst).nodup_iff, List.map_map]
  exact m.nodupKeys

end Indexes

/-- The first grant is the one indexed. -/
theorem granted_lookup (trusted : List PhoneLogRow) (id : Octets 16) :
    (grants trusted).lookup id = firstGrant trusted id := by
  induction trusted using List.reverseRecOn with
  | nil => rfl
  | append_singleton rows row ih =>
    have hstep : grants (rows ++ [row]) = indexGrant (grants rows) row := by
      simp [grants]
    have hfirst : firstGrant (rows ++ [row]) id =
        (firstGrant rows id).or (if row.Grants id then some row.timestamp else none) := by
      rw [firstGrant, firstGrant, List.find?_append, Option.map_or]
      by_cases hrow : row.Grants id <;> simp [hrow]
    rw [hstep, hfirst, ← ih, indexGrant]
    unfold PhoneLogRow.Grants
    grind [Index.lookup_orInsert]

/-- A result takes the place of what was there, and a sent request does not. -/
theorem executed_lookup (pcEvents : List PcEvent) (id : Octets 16) :
    (pcExecuted pcEvents).lookup id = decisiveExecution pcEvents id := by
  induction pcEvents using List.reverseRecOn with
  | nil => rfl
  | append_singleton events ev ih =>
    have hstep : pcExecuted (events ++ [ev]) = indexExecution (pcExecuted events) ev := by
      simp [pcExecuted]
    rw [hstep, indexExecution]
    unfold decisiveExecution at ih ⊢
    split_ifs with hsent hresult
    · rw [Index.lookup_orInsert]
      split_ifs with hid
      · rw [← hid, ih]
        simp [hsent, hid]
      · simp [ih, Ne.symm hid]
    · rw [Index.lookup_insert]
      split_ifs with hid
      · simp [hresult, hid]
      · simp [ih, Ne.symm hid]
    · simp [ih, hsent, hresult]

end Conveyance.Storage
