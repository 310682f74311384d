import Conveyance.Daemon.Refinement
import Conveyance.Storage.Reconciliation

/-!
# Execution rows, verified again from the log

The daemon checks the signature of an execution result, and logs the result with the
signature inside. `log diff` rebuilds the signed bytes from that row. The wire
message leaves out an optional field that has no value, and so does the rebuilt view,
but it leaves out whatever is null, and a body may be.
-/

namespace Conveyance.Daemon

open Lib Crypto Conveyance.Core Protocol Wire Storage

/-- What `serde_json` does with a canonical text: it reads the value the text was
written from, and it reads it unless the value is nested more than it allows. -/
structure ReadsCanonical (fromStr : String → Option Json.Value) : Prop where
  exact {v x : Json.Value} {text : String} :
    canonicalize v.1 = .ok text → fromStr text = some x → x = v
  shallow {v : Json.Value} {text : String} :
    canonicalize v.1 = .ok text → v.1.nesting < 127 → ∃ x, fromStr text = some x

/-- A log row as the reconciliation takes it. -/
def pcEvent (row : LogEvent) : PcEvent := ⟨row.reqId, row.eventType, row.payloadJson, row.timestamp⟩

/-! ## The rebuilt view -/

section View

variable (rsp : ExecuteResponse) (flight : InFlight)

def statusFields : List (String × Json.Value) :=
  match rsp.httpStatus with
  | none => []
  | some code => [("http_status", .number (.posInt code.toUInt64))]

/-- The status code, null when there is none. -/
def statusValue : Json.Value :=
  match rsp.httpStatus with
  | none => .null
  | some code => .number (.posInt code.toUInt64)

/-- What the wire signature covers. -/
def wireFields : List (String × Json.Value) :=
  [("req_id", .string rsp.reqId.hex), ("status", .string rsp.status.name)] ++ statusFields rsp ++
    [("body", rsp.body), ("executed_at", .number (.ofInt64 rsp.executedAt))]

def resultFields : List (String × Json.Value) :=
  [("status", .string rsp.status.name), ("service", optionalText flight.service),
    ("method", optionalText flight.method), ("endpoint", optionalText flight.endpoint),
    ("body", rsp.body)] ++ statusFields rsp ++
    [("executed_at", .number (.ofInt64 rsp.executedAt)),
      ("signature", .string (hexEncode rsp.signature.1))]

theorem resultPayload_resultFields :
    resultPayload rsp flight = .object (resultFields rsp flight) := rfl

theorem wireFields_nodup : ((wireFields rsp).map Prod.fst).Nodup := by
  cases h : rsp.httpStatus <;> simp [wireFields, statusFields, h]

theorem resultFields_nodup : ((resultFields rsp flight).map Prod.fst).Nodup := by
  cases h : rsp.httpStatus <;> simp [resultFields, statusFields, h]

variable {rsp flight}

theorem resultFields_scalar {f : String × Json.Value} (hf : f ∈ resultFields rsp flight) :
    (¬ f.2.1.HasFloat ∧ f.2.1.nesting = 0) ∨ f = ("body", rsp.body) := by
  have htext : ∀ o : Option String,
      ¬ (optionalText o).1.HasFloat ∧ (optionalText o).1.nesting = 0 := by
    intro o
    cases o <;> exact ⟨nofun, rfl⟩
  simp only [resultFields, List.mem_append, List.mem_cons, List.not_mem_nil, or_false] at hf
  rcases hf with ((rfl | rfl | rfl | rfl | rfl) | hf) | (rfl | rfl)
  · exact .inl ⟨nofun, rfl⟩
  · exact .inl (htext _)
  · exact .inl (htext _)
  · exact .inl (htext _)
  · exact .inr rfl
  · unfold statusFields at hf
    split at hf
    · cases hf
    · rw [List.mem_singleton.mp hf]
      exact .inl ⟨nofun, rfl⟩
  · exact .inl ⟨Json.Value.ofInt64_noFloat _, rfl⟩
  · exact .inl ⟨nofun, rfl⟩

theorem get_resultPayload {k : String} {x : Json.Value} :
    (resultPayload rsp flight).get k = some x ↔ (k, x) ∈ resultFields rsp flight := by
  rw [resultPayload_resultFields, Json.Value.get_object (resultFields_nodup rsp flight)]

theorem get_httpStatus :
    ((resultPayload rsp flight).get "http_status").getD .null = statusValue rsp := by
  cases h : rsp.httpStatus with
  | none =>
    have hnone : (resultPayload rsp flight).get "http_status" = none := by
      refine Option.eq_none_iff_forall_ne_some.mpr fun x hx => ?_
      have hmem := get_resultPayload.mp hx
      simp [resultFields, statusFields, h] at hmem
    rw [hnone, statusValue, h]
    rfl
  | some code =>
    have hsome : (resultPayload rsp flight).get "http_status" =
        some (.number (.posInt code.toUInt64)) :=
      get_resultPayload.mpr (by simp [resultFields, statusFields, h])
    rw [hsome, statusValue, h]
    rfl

/-- The fields the rebuilt view has: those of the wire, without a body that is null. -/
theorem signingView_result (row : LogEvent) (hreq : row.reqId = rsp.reqId.bytes) :
    signingView (pcEvent row) (resultPayload rsp flight) =
      .object ((wireFields rsp).filter fun f => !f.2.isNull) := by
  have hget : ∀ {k : String} {x : Json.Value}, k ≠ "signature" → (k, x) ∈ resultFields rsp flight →
      ((resultPayload rsp flight).remove "signature").get k = some x := by
    intro k x hk hx
    rw [Json.Value.get_remove hk]
    exact get_resultPayload.mpr hx
  have hstatus := hget (k := "status") (x := .string rsp.status.name) (by decide)
    (by simp [resultFields])
  have hbody := hget (k := "body") (x := rsp.body) (by decide) (by simp [resultFields])
  have hexecuted := hget (k := "executed_at") (x := .number (.ofInt64 rsp.executedAt)) (by decide)
    (by simp [resultFields])
  have hhttp : (((resultPayload rsp flight).remove "signature").get "http_status").getD .null =
      statusValue rsp := by
    rw [Json.Value.get_remove (by decide)]
    exact get_httpStatus
  unfold signingView
  dsimp only
  rw [hstatus, hbody, hexecuted, hhttp, pcEvent, hreq]
  cases h : rsp.httpStatus with
  | none | some =>
    simp only [statusValue, wireFields, statusFields, h]
    rfl

variable {row : LogEvent} {covered : Bytes}

/-- **With a body, the rebuilt bytes are the signed ones.** -/
theorem coveredBytes_result (hreq : row.reqId = rsp.reqId.bytes) (hbody : rsp.body ≠ .null)
    (hsigned : rsp.signaturePayload = .ok covered) :
    coveredBytes (pcEvent row) (resultPayload rsp flight) = .ok covered := by
  have hnulls : (wireFields rsp).filter (fun f => !f.2.isNull) = wireFields rsp := by
    refine List.filter_eq_self.mpr fun f hf => ?_
    have hnull : rsp.body.isNull = false := by
      rw [← Bool.not_eq_true, Json.Value.isNull_iff]
      exact hbody
    simp only [wireFields, List.mem_append, List.mem_cons, List.not_mem_nil, or_false] at hf
    rcases hf with ((rfl | rfl) | hf) | (rfl | rfl)
    · rfl
    · rfl
    · unfold statusFields at hf
      split at hf
      · cases hf
      · rw [List.mem_singleton.mp hf]
        rfl
    · simp [hnull]
    · rfl
  obtain ⟨text, htext, rfl⟩ := signingPayload_ok.mp hsigned
  unfold coveredBytes
  rw [signingView_result row hreq, hnulls]
  exact bind_eq_ok.mpr ⟨text, htext, rfl⟩

/-- **Without one, they never are.** -/
theorem coveredBytes_null (hreq : row.reqId = rsp.reqId.bytes) (hbody : rsp.body = .null)
    (hsigned : rsp.signaturePayload = .ok covered) :
    coveredBytes (pcEvent row) (resultPayload rsp flight) ≠ .ok covered := by
  intro hcovered
  obtain ⟨text, htext, rfl⟩ := signingPayload_ok.mp hsigned
  obtain ⟨text', htext', hbytes⟩ := bind_eq_ok.mp hcovered
  have hsame : text' = text := toUTF8_inj (List.append_cancel_left (Except.ok.inj hbytes))
  rw [signingView_result row hreq, hsame] at htext'
  -- one canonical text, one value: but the wire's has a body
  have hobjects := canonicalize_inj htext htext'
  have hmem : ("body", rsp.body) ∈ (wireFields rsp).filter fun f => !f.2.isNull :=
    Json.Value.object_inj (wireFields_nodup rsp)
      ((wireFields_nodup rsp).sublist (List.filter_sublist.map _)) hobjects (by simp [wireFields])
  have hnull := (List.mem_filter.mp hmem).2
  rw [hbody] at hnull
  cases hnull

/-- A signed response has no double in its body, so the row has a canonical payload. -/
theorem canonicalize_resultPayload (env : Env) (hsigned : rsp.signaturePayload = .ok covered) :
    canonicalize (resultPayload rsp flight).1 =
      .ok (World.payloadJson env (resultPayload rsp flight)) := by
  obtain ⟨text, htext, -⟩ := signingPayload_ok.mp hsigned
  have hwire : ¬ (Json.Value.object (wireFields rsp)).1.HasFloat :=
    (canonicalize_ok_iff _).mp ⟨text, htext⟩
  have hbody : ¬ rsp.body.1.HasFloat := by
    intro hfloat
    have hget : (Json.Value.object (wireFields rsp)).get "body" = some rsp.body :=
      (Json.Value.get_object (wireFields_nodup rsp)).mpr (by simp [wireFields])
    exact hwire (.of_get (Json.Value.get_eq_some.mp hget) hfloat)
  have hrow : ¬ (resultPayload rsp flight).1.HasFloat := by
    intro hfloat
    obtain ⟨f, hf, hfloat⟩ := Json.Value.hasFloat_object hfloat
    rcases resultFields_scalar hf with ⟨hscalar, -⟩ | rfl
    · exact hscalar hfloat
    · exact hbody hfloat
  obtain ⟨row, hcanonical⟩ := (canonicalize_ok_iff _).mpr hrow
  have htext' : toCanonicalString (resultPayload rsp flight) = .ok row :=
    toCanonicalString_ok.mpr hcanonical
  rw [World.payloadJson, htext']
  exact hcanonical

/-- The row lies one level above the body. -/
theorem nesting_resultPayload {n : Nat} (h : rsp.body.1.nesting < n) :
    (resultPayload rsp flight).1.nesting ≤ n := by
  refine Json.Value.nesting_object fun f hf => ?_
  rcases resultFields_scalar hf with ⟨-, hscalar⟩ | rfl
  · omega
  · exact h

end View

/-! ## The row of a result -/

section Row

variable {env : Env} {w : World} {p : ActiveParts} {rsp : ExecuteResponse} {flight : InFlight}
  {row : LogEvent}

/-- The row is the one that was logged for an accepted response. -/
structure ResultRow (env : Env) (key : Octets 32) (rsp : ExecuteResponse) (flight : InFlight)
    (row : LogEvent) : Prop where
  signed : ∃ covered, rsp.signaturePayload = .ok covered ∧
    env.verify key covered rsp.signature = true
  reqId : row.reqId = rsp.reqId.bytes
  eventType : row.eventType = "execute_result"
  payload : row.payloadJson = World.payloadJson env (resultPayload rsp flight)

/-- The row that is written at the next append. -/
def Env.resultRow (env : Env) (w : World) (rsp : ExecuteResponse) (flight : InFlight) : LogEvent :=
  ⟨rsp.reqId.bytes, "execute_result", World.payloadJson env (resultPayload rsp flight),
    env.unixNow w.ticks⟩

theorem finishExecute_accepted (hverify : rsp.verifySignature env.verify p.phoneIdPub = .ok ())
    (hlog : env.logAppend w.appends = true) :
    (finishExecute env w p rsp flight).trace = w.trace ++
      [.row (env.resultRow w rsp flight), .reply flight.reply (.ok (.body rsp.body))] := by
  have hrow : w.nextRow env rsp.reqId.bytes "execute_result"
      (World.payloadJson env (resultPayload rsp flight)) = [.row (env.resultRow w rsp flight)] :=
    if_pos hlog
  unfold finishExecute
  rw [hverify]
  show w.trace ++ w.nextRow env rsp.reqId.bytes "execute_result"
    (World.payloadJson env (resultPayload rsp flight)) ++ [_] = _
  rw [hrow, List.append_assoc, List.singleton_append]

/-- The only result row that `finish_execute` writes is that of a response whose
signature it verified. -/
theorem finishExecute_row {obs : List Obs}
    (htrace : (finishExecute env w p rsp flight).trace = w.trace ++ obs) (hrow : .row row ∈ obs)
    (htype : row.eventType = "execute_result") : ResultRow env p.phoneIdPub rsp flight row := by
  have hmem : ∀ {id : Octets 16} {eventType payloadJson : String} {last : Obs},
      w.trace ++ w.nextRow env id eventType payloadJson ++ [last] = w.trace ++ obs →
      last ≠ .row row → row = ⟨id, eventType, payloadJson, env.unixNow w.ticks⟩ := by
    intro id eventType payloadJson last heq hlast
    rw [List.append_assoc] at heq
    rw [← List.append_cancel_left heq] at hrow
    unfold World.nextRow at hrow
    split_ifs at hrow
    · simpa [Ne.symm hlast] using hrow
    · simp [Ne.symm hlast] at hrow
  unfold finishExecute at htrace
  cases hverify : rsp.verifySignature env.verify p.phoneIdPub with
  | error e =>
    rw [hverify] at htrace
    have hnote : "daemon_note" = "execute_result" := by
      rw [← htype, hmem htrace (by simp)]
    exact absurd hnote (by decide)
  | ok u =>
    rw [hverify] at htrace
    obtain ⟨covered, hsigned, hcheck⟩ := bind_eq_ok.mp hverify
    have haccepts : env.verify p.phoneIdPub covered rsp.signature = true := by
      by_contra hrejects
      rw [if_neg hrejects] at hcheck
      cases hcheck
    have heq := hmem htrace (by simp)
    exact ⟨⟨covered, hsigned, haccepts⟩, by rw [heq], htype, by rw [heq]⟩

end Row

/-! ## Verifying it again -/

section Again

variable {env : Env} {w : World} {p : ActiveParts} {rsp : ExecuteResponse} {flight : InFlight}
  {row : LogEvent} {fromStr : String → Option Json.Value} {order : Order} {key : Octets 32}

/-- The row checks out offline: its payload is read, the bytes rebuilt from it are the
signed ones, and among whatever other events it adds no failure. -/
structure Reverifies (verify : Octets 32 → Bytes → Octets 64 → Bool)
    (fromStr : String → Option Json.Value) (order : Order) (key : Octets 32)
    (rsp : ExecuteResponse) (row : LogEvent) : Prop where
  read : rsp.body.1.nesting < 126 → ∃ payload, fromStr row.payloadJson = some payload
  covered : ∀ payload, fromStr row.payloadJson = some payload →
    ∃ covered, coveredBytes (pcEvent row) payload = .ok covered ∧ rsp.signaturePayload = .ok covered
  passes : ∀ before after phoneRows,
    ((diffLogs verify fromStr order (before ++ pcEvent row :: after) phoneRows
      key).signatureFailures.filter (·.side = .pc)).Perm
    ((diffLogs verify fromStr order (before ++ after) phoneRows
      key).signatureFailures.filter (·.side = .pc))

theorem signatureText_result :
    signatureText (resultPayload rsp flight) = some (hexEncode rsp.signature.1) := by
  have hget : (resultPayload rsp flight).get "signature" =
      some (.string (hexEncode rsp.signature.1)) :=
    get_resultPayload.mpr (by simp [resultFields])
  rw [signatureText, hget]
  rfl

section

variable (h : ResultRow env key rsp flight row)

include h

variable (hread : ReadsCanonical fromStr)

include hread

/-- What is read from the row is the payload it was written from. -/
theorem ResultRow.read_eq
    {payload : Json.Value} (hpayload : fromStr row.payloadJson = some payload) :
    payload = resultPayload rsp flight := by
  obtain ⟨covered, hsigned, -⟩ := h.signed
  rw [h.payload] at hpayload
  exact hread.exact (canonicalize_resultPayload env hsigned) hpayload

theorem ResultRow.reads
    (hshallow : rsp.body.1.nesting < 126) : ∃ payload, fromStr row.payloadJson = some payload := by
  obtain ⟨covered, hsigned, -⟩ := h.signed
  rw [h.payload]
  exact hread.shallow (canonicalize_resultPayload env hsigned)
    (Nat.lt_succ_of_le (nesting_resultPayload hshallow))

/-- With a body, the embedded signature is found good. -/
theorem ResultRow.passes
    (hbody : rsp.body ≠ .null) : pcSignatureFails env.verify fromStr key (pcEvent row) = false := by
  unfold pcSignatureFails
  split_ifs
  · rfl
  · cases hpayload : fromStr (pcEvent row).payloadJson with
    | none => rfl
    | some payload =>
      obtain ⟨covered, hsigned, hverify⟩ := h.signed
      obtain rfl := h.read_eq hread hpayload
      simp [signatureText_result, hexDecodeArray_hexEncode,
        coveredBytes_result h.reqId hbody hsigned, hverify]

/-- Without one it is found bad, if it is a signature of nothing else. -/
theorem ResultRow.fails (hbody : rsp.body = .null)
    (hexact : ∀ bytes, env.verify key bytes rsp.signature = true →
      rsp.signaturePayload = .ok bytes) :
    pcSignatureFails env.verify fromStr key (pcEvent row) = true := by
  have hshallow : rsp.body.1.nesting < 126 := by
    rw [hbody]
    decide
  obtain ⟨payload, hpayload⟩ := h.reads hread hshallow
  obtain rfl := h.read_eq hread hpayload
  unfold pcSignatureFails
  have htype : (pcEvent row).eventType = "execute_result" := h.eventType
  rw [if_neg (not_not.mpr htype), show fromStr (pcEvent row).payloadJson = _ from hpayload]
  simp only [signatureText_result, hexDecodeArray_hexEncode]
  cases hcovered : coveredBytes (pcEvent row) (resultPayload rsp flight) with
  | error e => rfl
  | ok bytes =>
    have hrejects : env.verify key bytes rsp.signature ≠ true := fun haccepts =>
      coveredBytes_null h.reqId hbody (hexact bytes haccepts) hcovered
    simpa using hrejects

end

/-- **A result row verifies again exactly if the response had a body.** -/
theorem result_rows_reverify_with_a_body {obs : List Obs} (hread : ReadsCanonical fromStr)
    (htrace : (finishExecute env w p rsp flight).trace = w.trace ++ obs) (hrow : .row row ∈ obs)
    (htype : row.eventType = "execute_result") :
    Reverifies env.verify fromStr order p.phoneIdPub rsp row ↔ rsp.body ≠ .null := by
  have hresult := finishExecute_row htrace hrow htype
  obtain ⟨covered, hsigned, -⟩ := hresult.signed
  constructor
  · intro h hbody
    have hshallow : rsp.body.1.nesting < 126 := by
      rw [hbody]
      decide
    obtain ⟨payload, hpayload⟩ := h.read hshallow
    obtain ⟨bytes, hrebuilt, hbytes⟩ := h.covered payload hpayload
    obtain rfl := hresult.read_eq hread hpayload
    exact coveredBytes_null hresult.reqId hbody hbytes hrebuilt
  · intro hbody
    refine ⟨hresult.reads hread, fun payload hpayload => ?_, fun before after phoneRows => ?_⟩
    · obtain rfl := hresult.read_eq hread hpayload
      exact ⟨covered, coveredBytes_result hresult.reqId hbody hsigned, hsigned⟩
    · refine (pcFailures_of_report ..).trans (.trans (.of_eq ?_) (pcFailures_of_report ..).symm)
      simp [pcFailures, List.filter_append, hresult.passes hread hbody]

/-- The reader for the cases below. -/
def readText : String → Option Json.Value := Json.readValue fun _ => none

theorem readsCanonical_readText : ReadsCanonical readText where
  exact hcanonical hx := Option.some.inj (hx.symm.trans (readValue_canonicalize _ hcanonical))
  shallow hcanonical _ := ⟨_, readValue_canonicalize _ hcanonical⟩

namespace Bench

/-- The request was sent, and its result is awaited. -/
def awaiting : InFlight := ⟨.execute, reqId 1, none, some "mail", some "GET", some "/", 0, 0⟩

def bodied : ExecuteResponse :=
  ⟨reqId 1, .ok, some 200, .object [("ok", ⟨.bool true, trivial⟩)], 1700000001, execution1⟩

/-- The signature stands for the one text that was signed with it. -/
def bodilessSignature : Octets 64 := .replicate 64 9

def bodiless : ExecuteResponse := ⟨reqId 1, .denied, none, .null, 1700000001, bodilessSignature⟩

/-- The phone signed `bodiless` and nothing else. -/
def bodilessEnv : Env :=
  { twoRequests with
    verify := fun key payload signature =>
      key = phone.idPub ∧ signature = bodilessSignature ∧ bodiless.signaturePayload = .ok payload }

end Bench

/-- The row of an accepted response without a body: `log diff` reports its signature. -/
theorem bodiless_result_is_reported :
    .row (Bench.bodilessEnv.resultRow .init Bench.bodiless Bench.awaiting) ∈
      (finishExecute Bench.bodilessEnv .init Bench.freshParts Bench.bodiless Bench.awaiting).trace ∧
    (diffLogs Bench.bodilessEnv.verify readText .insertion
      [pcEvent (Bench.bodilessEnv.resultRow .init Bench.bodiless Bench.awaiting)] []
      Bench.phone.idPub).signatureFailures =
        [⟨.pc, Bench.bodiless.reqId.bytes, "execute_result"⟩] := by
  have htrace : (finishExecute Bench.bodilessEnv .init Bench.freshParts Bench.bodiless
      Bench.awaiting).trace = World.init.trace ++ _ :=
    finishExecute_accepted (by decide +kernel) rfl
  have hrow := finishExecute_row htrace List.mem_cons_self rfl
  have hfails : pcSignatureFails Bench.bodilessEnv.verify readText Bench.phone.idPub
      (pcEvent (Bench.bodilessEnv.resultRow .init Bench.bodiless Bench.awaiting)) = true := by
    refine hrow.fails readsCanonical_readText rfl fun bytes haccepts => ?_
    obtain ⟨-, -, hpayload⟩ := of_decide_eq_true haccepts
    exact hpayload
  constructor
  · rw [htrace]
    simp
  · rw [diffLogs, phoneFailures, pcFailures, List.filter_cons_of_pos hfails]
    rfl

/-- A response with a body: its row verifies again. -/
theorem bodied_result_reverifies :
    Reverifies Bench.twoRequests.verify readText .insertion Bench.phone.idPub Bench.bodied
      (Bench.twoRequests.resultRow .init Bench.bodied Bench.awaiting) := by
  have htrace : (finishExecute Bench.twoRequests .init Bench.freshParts Bench.bodied
      Bench.awaiting).trace = World.init.trace ++ _ :=
    finishExecute_accepted (by decide +kernel) rfl
  refine (result_rows_reverify_with_a_body readsCanonical_readText htrace ?_ rfl).mpr ?_
  · simp
  · rw [Ne, ← Json.Value.isNull_iff]
    decide

end Again

end Conveyance.Daemon
