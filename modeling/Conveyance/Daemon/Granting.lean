import Conveyance.Daemon.Limits
import Conveyance.Daemon.Pledge

/-!
# From approval to execution

What `finish_approval` needs to turn an approval into an execution is settled when
`start_route` sends the request: its fields are valid, the tracker does not know it, it encodes
and Noise took it. `Bound` carries that to the turn the answer comes in. The execution has the
same fields under a tag that is a byte shorter (`length_execute`), so it passes every check its
request passed.
-/

namespace Conveyance.Daemon

open Lib Crypto Conveyance.Core Protocol Wire

/-! ## The two messages -/

variable {a : ApprovalRequest} {e : ExecuteRequest}

theorem requestEntries_same (h : SameFields a e) :
    (WireMessage.executeRequest e).entries.2 = (WireMessage.approvalRequest a).entries.2 := by
  simp only [WireMessage.entries, h.reqId, h.opType, h.service, h.method, h.endpoint, h.params,
    h.requestedBy, h.timestamp]

/-- **An execution is a byte shorter than its request.** -/
theorem length_execute (h : SameFields a e) :
    (Cbor.write (WireMessage.executeRequest e).item).length + 1 =
      (Cbor.write (WireMessage.approvalRequest a).item).length := by
  have hexecute : (Cbor.writeText "execute_request").length = 16 := by decide +kernel
  have happroval : (Cbor.writeText "approval_request").length = 17 := by decide +kernel
  rw [WireMessage.item, WireMessage.item, requestEntries_same h]
  simp only [WireMessage.entries, Cbor.write, Cbor.writeEntries, List.length_append,
    List.length_cons, hexecute, happroval]
  omega

/-- **A request that encodes is executed by a message that encodes.** -/
theorem encode_execute {bytes : Bytes} (h : SameFields a e)
    (henc : encode WireMessage.intoWriter (.approvalRequest a) = .ok bytes) :
    ∃ bytes', encode WireMessage.intoWriter (.executeRequest e) = .ok bytes' ∧
      bytes'.length < bytes.length := by
  obtain ⟨hvalid, rfl, hfits⟩ := encode_eq_ok.mp henc
  have hshorter := length_execute h
  have hexecute : validateSemantics (.executeRequest e) = .ok () := by
    rw [validateSemantics, ExecuteRequest.validate, h.params]
    exact hvalid
  exact ⟨_, encode_eq_ok.mpr ⟨hexecute, rfl, by omega⟩, by omega⟩

/-! ## Granting -/

/-- The message is a verified approval of the flight. -/
structure Approves (env : Env) (p : ActiveParts) (rsp : ApprovalResponse) (flight : InFlight) :
    Prop where
  inFlight : p.inFlight = some flight
  stage : flight.stage = .approval
  reqId : rsp.reqId = flight.reqId
  verified : rsp.verifySignature env.verify p.phoneIdPub = .ok ()
  approved : rsp.decision = .approved

/-- The link takes every frame written on the way from one moment to another. -/
def TakesWrites (env : Env) (w w' : World) : Prop :=
  ∀ n, w.writes ≤ n → n < w'.writes → ∀ frame, env.linkSend n frame = true

section Granting

variable {env : Env} {w : World} {p : ActiveParts} {rsp : ApprovalResponse} {flight : InFlight}
  {a : ApprovalRequest} {execute : ExecuteRequest} {between after : ApprovedRequestTracker}
  {bytes : Bytes}

theorem TakesWrites.sendFrames (frames : List Bytes)
    (h : TakesWrites env w (sendFrames env w frames).1) :
    (Daemon.sendFrames env w frames).2 = true := by
  induction frames generalizing w with
  | nil => rfl
  | cons frame frames ih =>
    rw [Daemon.sendFrames] at h ⊢
    by_cases hfirst : env.linkSend w.writes frame = true
    · rw [if_pos hfirst] at h ⊢
      exact ih fun n hle hlt => h n ((Nat.le_succ _).trans hle) hlt
    · rw [if_neg hfirst] at h
      exact absurd (h w.writes (Nat.le_refl _) (Nat.lt_succ_self _) frame) hfirst

/-- A live session with a nonce left sends what fits, if the link takes the frames. -/
theorem transmit_takes {ciphers : Nat → Cipher} (henv : env.SealsWith ciphers)
    (hlive : p.session.isLive = true) (hnonce : p.session.sent < lastNonce)
    (hwrites : 1 ≤ p.link.maxWriteLen) (hfits : bytes.length + tagLen ≤ maxMessage)
    (htakes : TakesWrites env w (transmit env w p bytes).1) :
    (transmit env w p bytes).2.2 = true := by
  obtain ⟨ciphertext, hsealed, hlength⟩ := encrypt_sealed henv hnonce p.session.sid hfits
  obtain ⟨frames, next, hsplit⟩ := splitMessage_ok p.txSeq hwrites hlength
  rw [transmit, if_pos hlive, hsealed] at htakes ⊢
  simp only [hsplit] at htakes ⊢
  exact TakesWrites.sendFrames frames htakes

/-- Neither writes nor observations are taken back. -/
structure World.Leads (w w' : World) : Prop where
  writes : w.writes ≤ w'.writes
  trace : w.trace <+: w'.trace

theorem World.Leads.trans {w₁ w₂ w₃ : World} (h : w₁.Leads w₂) (h' : w₂.Leads w₃) : w₁.Leads w₃ :=
  ⟨h.writes.trans h'.writes, h.trace.trans h'.trace⟩

theorem World.leads_emit (w : World) (o : Obs) : w.Leads (w.emit o) :=
  ⟨Nat.le_refl _, List.prefix_append _ _⟩

theorem teardown_leads (w : World) (p : ActiveParts) (reason : EndReason) :
    w.Leads (teardown env w p reason).1 := by
  refine ⟨Nat.le_refl _, ?_⟩
  simp only [teardown, World.append, List.append_assoc]
  exact List.prefix_append _ _

theorem prepare_leads (w : World) (op : RoutedOp) (ch : Nat) : w.Leads (prepare env w op ch).1 := by
  rcases prepare_cases env w op ch with
    ⟨w', e, obs, hprepare, -, hwrites, hdesk⟩ | ⟨w', o, rows, hprepare, -, -, hwrites, hdesk⟩
  all_goals
    have htrace : w'.trace = w.trace ++ _ := congrArg Desk.trace (hdesk none none)
    rw [hprepare]
    exact ⟨hwrites.ge, htrace ▸ List.prefix_append _ _⟩

theorem startRoute_leads (w : World) (p : ActiveParts) (op : RoutedOp) (ch : Nat) :
    w.Leads (startRoute env w p op ch).1 := by
  have hprepared := (w.leads_emit (.started ch)).trans (@prepare_leads env _ op ch)
  unfold startRoute
  generalize prepare env (w.emit (.started ch)) op ch = prepared at hprepared ⊢
  obtain ⟨w₁, e | opening⟩ := prepared
  · exact hprepared.trans (World.leads_emit _ _)
  · obtain ⟨n, sent, txSeq, taken, hn, hsend, -⟩ := transmit_cases env w₁ p opening.bytes
    have hsaid : w.Leads ({ w₁ with writes := n }.emit
        (.wire (some ch) p.session.sid opening.message taken)) :=
      hprepared.trans ⟨hn, List.prefix_append _ _⟩
    simp only [sendOverSession, hsend]
    cases taken with
    | false => exact (hsaid.trans (teardown_leads _ _ _)).trans (World.leads_emit _ _)
    | true => exact ⟨hsaid.writes, hsaid.trace⟩

theorem drainRouteQueue_leads (w : World) (p : ActiveParts) :
    w.Leads (drainRouteQueue env w p).1 := by
  unfold drainRouteQueue
  cases p.routeQueue with
  | nil => exact ⟨Nat.le_refl _, List.prefix_rfl⟩
  | cons cmd rest => exact startRoute_leads w _ cmd.op cmd.reply

/-- The world once both rows of a granted request are logged. -/
def World.granted (env : Env) (w : World) (a : ApprovalRequest) (rsp : ApprovalResponse) : World :=
  { w.logReq env a.reqId "approval_granted"
      (approvalPayload "approved" rsp.reason a rsp.signature) with
    calls := w.calls + 2 }.logReq env a.reqId "execute_sent" (executePayload a)

/-- An approval the tracker accepts is executed: what is left is to send it. -/
theorem executeApproved_accepted
    (hrecord : p.binding.recordApproval a rsp (env.readings w.calls) = (between, .ok ()))
    (hnew : rebuild a = .ok execute)
    (hvalid : between.validateExecute execute (env.readings (w.calls + 1)) = (after, .ok ()))
    (henc : encode env.intoWriter (.executeRequest execute) = .ok bytes) :
    (executeApproved env w p rsp flight a).1.writes =
        (transmit env (w.granted env a rsp) { p with binding := after } bytes).1.writes ∧
      ((transmit env (w.granted env a rsp) { p with binding := after } bytes).2.2 = true →
        (executeApproved env w p rsp flight a).2.2 = false ∧
        (executeApproved env w p rsp flight a).1.trace =
          (w.granted env a rsp).trace ++
            [.wire (some flight.reply) p.session.sid (.executeRequest execute) true]) := by
  have hid : execute.reqId = a.reqId := (sameFields_of_rebuild hnew).reqId
  obtain ⟨n, sent, txSeq, taken, -, hsend, -⟩ := transmit_cases env (w.granted env a rsp)
    { p with binding := after } bytes
  have hlogged : { w.logReq env a.reqId "approval_granted"
      (approvalPayload "approved" rsp.reason a rsp.signature) with
        calls := w.calls + 1 + 1 }.logReq env execute.reqId "execute_sent" (executePayload a) =
      w.granted env a rsp := by
    rw [hid]
    rfl
  have hcalls : (w.logReq env a.reqId "approval_granted"
      (approvalPayload "approved" rsp.reason a rsp.signature)).calls = w.calls := rfl
  unfold rebuild at hnew
  unfold executeApproved
  simp only [hcalls, hrecord, hnew, hvalid, hlogged, henc, sendOverSession, hsend]
  cases taken with
  | false => exact ⟨rfl, fun h => absurd h Bool.false_ne_true⟩
  | true => exact ⟨rfl, fun _ => ⟨rfl, rfl⟩⟩

/-- A verified approval goes to the Approved arm, and then to the queue. -/
theorem onPlaintext_approves (h : Approves env p rsp flight) (ha : flight.approval = some a) :
    (executeApproved env (w.emit (.received p.session.sid (.approvalResponse rsp)))
      { p with inFlight := none } rsp flight a).1.Leads
        (onPlaintext env w p (some (.approvalResponse rsp))).1 := by
  rw [onPlaintext_eq, Option.elim_some, tryCompleteRoute, h.inFlight]
  generalize w.emit (.received p.session.sid (.approvalResponse rsp)) = heard
  have hfinish : finishApproval env heard { p with inFlight := none } rsp flight =
      executeApproved env heard { p with inFlight := none } rsp flight a := by
    rw [finishApproval, ha]
    simp only [h.verified, h.approved]
  simp only [h.stage, h.reqId, if_true, hfinish]
  generalize executeApproved env heard { p with inFlight := none } rsp flight a = r
  obtain ⟨w', q, _ | _⟩ := r
  · exact drainRouteQueue_leads w' q
  · exact ⟨Nat.le_refl _, List.prefix_rfl⟩

end Granting

/-- The turn is an approval that meets what is asked of it, but for the link. -/
def Turn.granting (env : Env) : Turn → Bool
  | .message w p (some (.approvalResponse rsp)) =>
    p.inFlight.any (fun flight => flight.stage = .approval ∧ rsp.reqId = flight.reqId) &&
    (rsp.verifySignature env.verify p.phoneIdPub).toBool && rsp.decision = .approved &&
    (env.readings (w.calls + 1)).age ≤ (env.readings w.calls).stamp + defaultApprovalTtl &&
    p.session.sent < lastNonce
  | _ => false

theorem Turn.approves_of_granting {env : Env} {t : Turn} (h : t.granting env = true) :
    ∃ w p rsp flight, t = .message w p (some (.approvalResponse rsp)) ∧
      Approves env p rsp flight ∧
      (env.readings (w.calls + 1)).age ≤ (env.readings w.calls).stamp + defaultApprovalTtl ∧
      p.session.sent < lastNonce := by
  unfold Turn.granting at h
  split at h
  next w p rsp =>
    simp only [Bool.and_eq_true, decide_eq_true_eq] at h
    obtain ⟨⟨⟨⟨hflight, hverified⟩, happroved⟩, hclock⟩, hnonce⟩ := h
    cases hinFlight : p.inFlight with
    | none => simp [hinFlight] at hflight
    | some flight =>
      rw [hinFlight, Option.any_some, decide_eq_true_eq] at hflight
      obtain ⟨hstage, hreqId⟩ := hflight
      obtain ⟨_, hverified⟩ := exists_of_toBool hverified
      exact ⟨w, p, rsp, flight, rfl, ⟨hinFlight, hstage, hreqId, hverified, happroved⟩, hclock,
        hnonce⟩
  next => cases h

/-- A request, and the phone's approval. -/
def grantedOnce : List Event := [.command .start, Bench.get "a", Bench.sends 1 Bench.approved]

/-- **A granted approval is executed.** In every run, at every message that is a verified approval
of the request in flight: if its req_id is new to the session's tracker, as it is where every
req_id is drawn once, the tracker's two calls are less than an approval's lifetime apart, a
nonce is left and the link takes what is written, then both calls accept, the execution is built
and encodes, `approval_granted` and `execute_sent` are logged one after the other, and the
execution goes out. -/
theorem granted_approval_is_executed (env : Env) (ciphers : Nat → Cipher)
    (hseals : env.SealsWith ciphers) (hcbor : env.intoWriter = WireMessage.intoWriter)
    (events : List Event) (w : World) (p : ActiveParts) (rsp : ApprovalResponse) (flight : InFlight)
    (hturn : .message w p (some (.approvalResponse rsp)) ∈ turns env .init events)
    (happroves : Approves env p rsp flight)
    (hunused : FreshIds env ∨ p.binding.Unused flight.reqId.hex)
    (hclock : (env.readings (w.calls + 1)).age ≤ (env.readings w.calls).stamp + defaultApprovalTtl)
    (hnonce : p.session.sent < lastNonce)
    (hlink : TakesWrites env w (onPlaintext env w p (some (.approvalResponse rsp))).1) :
    ∃ a execute between after bytes, flight.approval = some a ∧ a.reqId = flight.reqId ∧
      p.binding.recordApproval a rsp (env.readings w.calls) = (between, .ok ()) ∧
      ExecuteRequest.new a.reqId a.opType a.service a.method a.endpoint a.params a.requestedBy
        a.timestamp = .ok execute ∧
      between.validateExecute execute (env.readings (w.calls + 1)) = (after, .ok ()) ∧
      encode env.intoWriter (.executeRequest execute) = .ok bytes ∧
      ((w.emit (.received p.session.sid (.approvalResponse rsp))).granted env a rsp).trace ++
          [.wire (some flight.reply) p.session.sid (.executeRequest execute) true] <+:
        (onPlaintext env w p (some (.approvalResponse rsp))).1.trace := by
  set heard := w.emit (.received p.session.sid (.approvalResponse rsp))
  obtain ⟨_, ⟨rfl, hlive⟩, hfound⟩ := turns_bound hturn
  have hbound : Bound env w.draws (some p.seat) (some flight.flight) := by
    simpa [Turn.world, Turn.slot, desk, happroves.inFlight] using hfound
  obtain ⟨a, ha, hpledge⟩ := hbound.pledge _ rfl happroves.stage
  obtain ⟨asked, hasked⟩ := hbound.posted _ rfl happroves.stage _ rfl a ha
  have hnew : p.binding.Unused flight.reqId.hex :=
    hunused.elim (fun hfresh => hbound.unused hfresh _ rfl happroves.stage _ rfl) id
  have hgranted : Granted env (.message w p (some (.approvalResponse rsp))) p.phoneIdPub
      flight.flight a rsp :=
    ⟨rfl, happroves.stage, happroves.reqId, ha, happroves.verified, happroves.approved⟩
  obtain ⟨between, execute, hrecord, hbuilt, haccepted⟩ := hbound.accepts hgranted hnew hclock
  obtain ⟨after, hvalid⟩ : ∃ after,
      between.validateExecute execute (env.readings (w.calls + 1)) = (after, .ok ()) :=
    ⟨_, Prod.ext rfl haccepted⟩
  -- the execution is shorter than the request, which Noise has taken
  obtain ⟨bytes, henc, hshorter⟩ := encode_execute (sameFields_of_rebuild hbuilt)
    (hcbor ▸ hasked.encoded)
  rw [← hcbor] at henc
  have hfits : asked.length + tagLen ≤ maxMessage := by
    by_contra hlong
    obtain ⟨sid, nonce, _, htaken⟩ := hasked.taken
    rw [encrypt_refused hseals sid nonce hlong] at htaken
    cases htaken
  refine ⟨a, execute, between, after, bytes, ha, hpledge.reqId, hrecord, hbuilt, hvalid, henc, ?_⟩
  have hleads := @onPlaintext_approves env w p rsp flight a happroves ha
  obtain ⟨hwrites, hsends⟩ := @executeApproved_accepted env heard { p with inFlight := none } rsp
    flight a execute between after bytes hrecord hbuilt hvalid henc
  have htakes : TakesWrites env (heard.granted env a rsp) (transmit env (heard.granted env a rsp)
      { p with inFlight := none, binding := after } bytes).1 := by
    intro n hle hlt
    refine hlink n hle (hlt.trans_le ?_)
    rw [← hwrites]
    exact hleads.writes
  have hshort : bytes.length + tagLen ≤ maxMessage := by omega
  have hsent := @transmit_takes env _ { p with inFlight := none, binding := after } bytes ciphers
    hseals hlive hnonce hasked.writes hshort htakes
  rw [← (hsends hsent).2]
  exact hleads.trace

theorem approved_request_is_executed :
    let env := Bench.twoRequests
    ∃ w p rsp flight a execute,
      .message w p (some (.approvalResponse rsp)) ∈ turns env .init grantedOnce ∧
      Approves env p rsp flight ∧ FreshIds env ∧
      ((w.emit (.received p.session.sid (.approvalResponse rsp))).granted env a rsp).trace ++
          [.wire (some flight.reply) p.session.sid (.executeRequest execute) true] <+:
        (onPlaintext env w p (some (.approvalResponse rsp))).1.trace := by
  intro env
  have hany : (turns env .init grantedOnce).any (Turn.granting env) = true := by decide +kernel
  obtain ⟨t, ht, hgranting⟩ := List.any_eq_true.mp hany
  obtain ⟨w, p, rsp, flight, rfl, happroves, hclock, hnonce⟩ :=
    Turn.approves_of_granting hgranting
  have hfresh : FreshIds env := Bench.freshIds _ _ (by decide)
  obtain ⟨a, execute, _, _, _, -, -, -, -, -, -, htrace⟩ := granted_approval_is_executed env
    (fun _ => plainCipher) (Bench.sealsWith _ _) rfl grantedOnce w p rsp flight ht happroves
    (.inl hfresh) hclock hnonce fun _ _ _ _ => rfl
  exact ⟨w, p, rsp, flight, a, execute, ht, happroves, hfresh, htrace⟩

end Conveyance.Daemon
