import Conveyance.Daemon.Desk
import Conveyance.Protocol.Cbor

/-!
# The session owner refines the desk

Each handler of the owner is a sequence of moves of the desk, under the turn
the owner is at. `run_path` puts them together: a run goes through its turns in order, each
of which starts from the desk it finds. So what moves keep holds after the run, by
`run_reaches`, and where any of its turns begins.
-/

namespace Conveyance.Daemon

open Lib Crypto Conveyance.Core Protocol Wire ActiveParts

/-! ## The abstraction -/

def ActiveParts.seat (p : ActiveParts) : Seat :=
  ⟨p.session.sid, p.phoneIdPub, p.link, p.session.isLive, p.binding⟩

def ActiveParts.waiting (p : ActiveParts) : List Nat := p.routeQueue.map (·.reply)

/-- What the desk keeps of the owner's state; `hand` is the request a handler is
working on. -/
def desk (w : World) (slot : Option ActiveParts) (hand : Option Nat) : Desk :=
  ⟨w.trace, w.taken, w.draws, w.starts, slot.map (·.seat),
    (slot.map (·.waiting)).getD [], (slot.bind (·.inFlight)).map (·.flight), hand, false⟩

def Owner.desk (o : Owner) : Desk := Daemon.desk o.world o.slot none

theorem Owner.desk_of_slot {o : Owner} {p : ActiveParts} (h : o.slot = some p) :
    o.desk = Daemon.desk o.world (some p) none := by
  rw [Owner.desk, h]

/-- The parts a handler leaves, or none once it ended the session. -/
def deskAfter (r : World × ActiveParts × Bool) : Desk :=
  desk r.1 (if r.2.2 then none else some r.2.1) none

/-- The same, with the queue yet to be drained if the session goes on. -/
def deskBeforeDrain (r : World × ActiveParts × Bool) : Desk :=
  { deskAfter r with draining := !r.2.2 }

/-- Moves under one turn. -/
abbrev Does (env : Env) (t : Turn) : Desk → Desk → Prop := Reaches (Move env) (· = t)

section Handlers

variable (env : Env) {t : Turn}

theorem Does.one {env : Env} {σ σ₁ σ₂ : Desk} (h : Move env t σ σ₁) (heq : σ₁ = σ₂) :
    Does env t σ σ₂ :=
  heq ▸ .single h

/-! ## The world -/

/-- The world went on and said `obs`; the counters the desk keeps stand still. -/
structure World.Adds (w w' : World) (obs : List Obs) : Prop where
  trace : w'.trace = w.trace ++ obs
  taken : w'.taken = w.taken
  draws : w'.draws = w.draws
  starts : w'.starts = w.starts

variable {w w' : World} {obs : List Obs} {p : ActiveParts}

theorem World.Adds.desk (h : w.Adds w' obs) (slot : Option ActiveParts) (hand : Option Nat) :
    desk w' slot hand = (desk w slot hand).say obs := by
  simp [Daemon.desk, Desk.say, h.trace, h.taken, h.draws, h.starts]

theorem World.Adds.trans {w'' : World} {obs' : List Obs} (h : w.Adds w' obs)
    (h' : w'.Adds w'' obs') : w.Adds w'' (obs ++ obs') :=
  ⟨by rw [h'.trace, h.trace, List.append_assoc], h'.taken.trans h.taken, h'.draws.trans h.draws,
    h'.starts.trans h.starts⟩

theorem World.Adds.emit (h : w.Adds w' obs) (o : Obs) : w.Adds (w'.emit o) (obs ++ [o]) :=
  h.trans ⟨rfl, rfl, rfl, rfl⟩

theorem World.Adds.calls (h : w.Adds w' obs) (n : Nat) : w.Adds { w' with calls := n } obs :=
  ⟨h.trace, h.taken, h.draws, h.starts⟩

section

variable (w : World)

theorem append_adds (reqId : Octets 16) (eventType payloadJson : String) :
    ∃ rows, Rows env reqId eventType rows ∧
      w.Adds (w.append env reqId eventType payloadJson) rows := by
  refine ⟨w.nextRow env reqId eventType payloadJson, ?_, rfl, rfl, rfl, rfl⟩
  unfold World.nextRow
  split_ifs with h
  · exact .inl ⟨_, _, rfl⟩
  · exact .inr ⟨rfl, fun hall => h (hall _)⟩

theorem logReq_adds (reqId : ReqId) (eventType : String) (payload : Json.Value) :
    ∃ rows, Rows env reqId.bytes eventType rows ∧
      w.Adds (w.logReq env reqId eventType payload) rows :=
  append_adds env w reqId.bytes eventType _

theorem note_adds (text : String) :
    ∃ rows, Rows env lifecycleReqId "daemon_note" rows ∧ w.Adds (w.note env text) rows :=
  append_adds env w lifecycleReqId _ _

@[simp] theorem desk_emit (o : Obs) (slot : Option ActiveParts) (hand : Option Nat) :
    desk (w.emit o) slot hand = (desk w slot hand).say [o] := rfl

@[simp] theorem desk_tick (slot : Option ActiveParts) (hand : Option Nat) :
    desk w.tick slot hand = desk w slot hand := rfl

@[simp] theorem say_say (σ : Desk) (a b : List Obs) : (σ.say a).say b = σ.say (a ++ b) := by
  simp [Desk.say]

theorem sendFrames_cases (frames : List Bytes) :
    ∃ n sent, w.writes ≤ n ∧ sendFrames env w frames = ({ w with writes := n }, sent) := by
  induction frames generalizing w with
  | nil => exact ⟨w.writes, true, Nat.le_refl _, rfl⟩
  | cons frame frames ih =>
    rw [sendFrames]
    split_ifs
    · obtain ⟨n, sent, hn, hrest⟩ := ih { w with writes := w.writes + 1 }
      exact ⟨n, sent, Nat.le_of_succ_le hn, hrest⟩
    · exact ⟨w.writes + 1, false, Nat.le_succ _, rfl⟩

variable (p : ActiveParts)

/-- Sending counts the writes and the nonces; what the link took was sealed and split. -/
theorem transmit_cases (bytes : Bytes) :
    ∃ n sent txSeq taken, w.writes ≤ n ∧
      transmit env w p bytes = ({ w with writes := n },
        { p with session := { p.session with sent }, txSeq }, taken) ∧
      (taken = true → Sealed env bytes ∧ 1 ≤ p.link.maxWriteLen) := by
  unfold transmit
  split_ifs with hlive
  · cases hsealed : env.encrypt p.session.sid p.session.sent bytes with
    | none => exact ⟨_, _, _, _, Nat.le_refl _, rfl, nofun⟩
    | some ciphertext =>
      dsimp only
      cases hsplit : Wire.splitMessage ciphertext p.link.maxWriteLen p.txSeq with
      | error e => exact ⟨_, _, _, _, Nat.le_refl _, rfl, nofun⟩
      | ok cut =>
        obtain ⟨n, taken, hn, hsend⟩ := sendFrames_cases env w cut.1
        refine ⟨n, p.session.sent + 1, cut.2, taken, hn, by simp only [hsend],
          fun _ => ⟨⟨_, _, _, hsealed⟩, ?_⟩⟩
        refine Nat.pos_of_ne_zero fun hzero => ?_
        rw [Wire.splitMessage, if_pos hzero] at hsplit
        cases hsplit
  · exact ⟨_, _, _, _, Nat.le_refl _, rfl, nofun⟩

/-- Sending leaves the desk as it was, but for the message in the trace. -/
theorem sendOverSession_cases (ch : Option Nat) (m : WireMessage) (bytes : Bytes) :
    ∃ w' p' sent, sendOverSession env w p ch m bytes = (w', p', sent) ∧ p'.seat = p.seat ∧
      p'.routeQueue = p.routeQueue ∧
      (sent = true → Sealed env bytes ∧ 1 ≤ p.link.maxWriteLen) ∧
      ∀ hand, desk w' (some p') hand =
        (desk w (some p) hand).say [.wire ch p.seat.sid m sent] := by
  obtain ⟨n, sent, txSeq, taken, -, hsend, htaken⟩ := transmit_cases env w p bytes
  unfold sendOverSession
  rw [hsend]
  exact ⟨_, _, taken, rfl, rfl, rfl, htaken, fun _ => rfl⟩

theorem desk_install (stage : Stage) (reqId : ReqId)
    (approval : Option ApprovalRequest) (service method endpoint : Option String) (ch : Nat)
    (hand : Option Nat) :
    desk (install env w p stage reqId approval service method endpoint ch).1
        (some (install env w p stage reqId approval service method endpoint ch).2) hand =
      { desk w (some p) hand with flight := some ⟨ch, reqId, stage, approval⟩ } := by
  simp [install, desk, seat, Session.onActivity_isLive, World.tick, InFlight.flight,
    waiting]

/-! ## Starting a request -/

/-- Preparing an opening fails in one of the ways `OpenFailure` lists, or
succeeds as `Opening` says. -/
theorem prepare_cases (op : RoutedOp) (ch : Nat) :
    (∃ w' e obs, prepare env w op ch = (w', .error e) ∧ OpenFailure env w.draws ch op obs e ∧
      w'.writes = w.writes ∧ ∀ slot hand, desk w' slot hand =
        { (desk w slot hand).say obs with draws := w.draws + 1 }) ∨
    (∃ w' o rows, prepare env w op ch = (w', .ok o) ∧ Opening env w.draws o rows ∧
      encode env.intoWriter o.message = .ok o.bytes ∧ w'.writes = w.writes ∧
      ∀ slot hand, desk w' slot hand =
        { (desk w slot hand).say (.assigned ch o.reqId :: rows) with draws := w.draws + 1 }) := by
  unfold prepare
  cases hdraw : env.entropy w.draws with
  | none =>
    exact .inl ⟨_, _, [], rfl, .entropy hdraw, rfl, fun slot hand => by simp [desk, Desk.say]⟩
  | some reqId =>
    cases op with
    | authenticatedRequest service method endpoint params requestedBy =>
      dsimp only
      split
      next e hnew =>
        exact .inl ⟨_, _, _, rfl, .domain hdraw hnew, rfl, fun slot hand => rfl⟩
      next a hnew =>
        obtain ⟨rows, hrows, hadds⟩ := logReq_adds env
          ({ w with draws := w.draws + 1 }.emit (.assigned ch reqId)).tick reqId "approval_request"
          (requestDetail service method endpoint requestedBy)
        split
        next e henc =>
          refine .inl ⟨_, _, _, rfl, .approvalEncoding hdraw hnew hrows henc, rfl,
            fun slot hand => ?_⟩
          rw [hadds.desk, desk_tick, desk_emit, say_say]
          rfl
        next bytes henc =>
          refine .inr ⟨_, _, _, rfl, .approval hdraw hnew hrows, henc, rfl, fun slot hand => ?_⟩
          rw [hadds.desk, desk_tick, desk_emit, say_say]
          rfl
    | listServices =>
      obtain ⟨rows, hrows, hadds⟩ := logReq_adds env
        ({ w with draws := w.draws + 1 }.emit (.assigned ch reqId)) reqId "list_services_request"
        (.object [])
      dsimp only
      split
      next e henc =>
        refine .inl ⟨_, _, _, rfl, .servicesEncoding hdraw hrows henc, rfl, fun slot hand => ?_⟩
        rw [hadds.desk, desk_emit, say_say]
        rfl
      next bytes henc =>
        refine .inr ⟨_, _, _, rfl, .services hdraw hrows, henc, rfl, fun slot hand => ?_⟩
        rw [hadds.desk, desk_emit, say_say]
        rfl

/-! ## Ending -/

theorem endedReplies_eq (hand : Option Nat) :
    endedReplies p = (desk w (some p) hand).endedReplies := by
  unfold endedReplies Desk.endedReplies
  cases hflight : p.inFlight with
  | none => simp [desk, hflight, waiting]
  | some f => simp [desk, hflight, waiting, InFlight.flight]

/-- A teardown answers everyone, logs one row and leaves a dead session. -/
theorem teardown_cases (reason : EndReason) :
    ∃ w' p' ends, teardown env w p reason = (w', p') ∧ Rows env lifecycleReqId "session_end" ends ∧
      ∀ hand, desk w' (some p') hand =
        { (desk w (some p) hand).say ((desk w (some p) hand).endedReplies ++ ends) with
          flight := none, queue := [], session := some { p.seat with live := false } } := by
  obtain ⟨ends, hends, hadds⟩ := append_adds env { w with trace := w.trace ++ endedReplies p }
    lifecycleReqId "session_end" (r#"{"reason":""# ++ reason.asStr ++ r#""}"#)
  refine ⟨_, _, ends, rfl, hends, fun hand => ?_⟩
  refine (hadds.desk (some _) hand).trans ?_
  rw [← endedReplies_eq w p hand]
  simp [desk, Desk.say, seat, waiting, Session.endFor_isLive]

end

/-! ## Starting a request -/

theorem startRoute_moves {op : RoutedOp} (ch : Nat) (hstarts : t.Starts p.waiting op)
    (hdraws : t.world.draws = w.draws) :
    Move env t (desk w (some p) (some ch))
      (desk (startRoute env w p op ch).1 (some (startRoute env w p op ch).2) none) := by
  unfold startRoute
  rcases prepare_cases env (w.emit (.started ch)) op ch with
    ⟨w₁, e, obs, hprep, hfail, -, hdesk⟩ | ⟨w₁, o, rows, hprep, hopen, henc, -, hdesk⟩
  · have hmove : Move env t (desk w (some p) (some ch)) _ :=
      .openFailed rfl hstarts hdraws hfail
    rw [hprep]
    convert hmove using 1
    simp only [desk_emit, hdesk]
    simp [desk, Desk.say, World.emit]
  · obtain ⟨w₂, p₂, sent, hsend, hseat, -, htaken, hsent⟩ :=
      sendOverSession_cases env w₁ p (some ch) o.message o.bytes
    rw [hprep]
    dsimp only
    rw [hsend]
    cases sent with
    | false =>
      obtain ⟨w₃, p₃, ends, htear, hends, hend⟩ :=
        teardown_cases env w₂ p₂ .peerDisconnected
      have hmove : Move env t (desk w (some p) (some ch)) _ := .openDead rfl rfl hopen hends
      dsimp only
      rw [htear]
      convert hmove using 1
      simp only [desk_emit, hend, hsent, hdesk, hseat]
      simp [desk, Desk.say, World.emit, Desk.endedReplies]
    | true =>
      have hmove : Move env t (desk w (some p) (some ch)) _ :=
        .opened rfl rfl hopen ⟨henc, (htaken rfl).1, (htaken rfl).2⟩
      convert hmove using 1
      simp only [desk_install, desk_emit, hsent, hdesk]
      simp [desk, Desk.say, World.emit]

/-- Draining the queue of a turn that may start its head. -/
theorem drainRouteQueue_does
    (hpop : p.inFlight = none ∨ ∃ w₀ p₀ decoded, t = .message w₀ p₀ decoded ∧
      Grants env p₀ decoded ∧ p₀.routeQueue = p.routeQueue)
    (hstarts : ∀ cmd rest, p.routeQueue = cmd :: rest → t.Starts (rest.map (·.reply)) cmd.op)
    (hdraws : t.world.draws = w.draws) :
    Does env t { desk w (some p) none with draining := true }
      (desk (drainRouteQueue env w p).1 (some (drainRouteQueue env w p).2) none) := by
  unfold drainRouteQueue
  cases hqueue : p.routeQueue with
  | nil => exact .one (.settle rfl (by simp [desk, waiting, hqueue])) rfl
  | cons cmd rest =>
    have hstart := startRoute_moves env (p := { p with routeQueue := rest }) cmd.reply
      (hstarts cmd rest hqueue) hdraws
    refine .head (.pop rfl rfl ?_ ?_) (.single hstart)
    · simp [desk, waiting, hqueue]
    · rcases hpop with hnone | ⟨w₀, p₀, decoded, ht, hgrants, hsame⟩
      · left
        simp [desk, hnone]
      · exact .inr ⟨w₀, p₀, decoded, ht, hgrants, by simp [hsame, hqueue]⟩

/-! ## Completing a request -/

/-- What a handler that took the flight out of `p` leaves: the desk it moved to
and, if the session goes on, the same queue with nothing in flight unless the
turn's message granted the request. -/
structure Finished (t : Turn) (w : World) (p : ActiveParts) (r : World × ActiveParts × Bool) :
    Prop where
  does : Does env t (desk w (some p) none) (deskBeforeDrain r)
  draws : r.2.2 = false → r.1.draws = w.draws
  queue : r.2.2 = false → r.2.1.routeQueue = p.routeQueue
  flight : r.2.2 = false → r.2.1.inFlight = none ∨ Grants env p t.decoded

theorem desk_closed (w : World) (p : ActiveParts) (hand : Option Nat) :
    desk w none hand =
      { desk w (some p) hand with session := none, queue := [], flight := none } := rfl

theorem desk_refused (h : w.Adds w' obs) (p : ActiveParts) (binding : ApprovedRequestTracker) :
    deskBeforeDrain (w', { p with inFlight := none, binding }, false) =
      { (desk w (some p) none).say obs with
        flight := none, session := some { p.seat with binding }, draining := true } := by
  have hdesk := h.desk (some { p with inFlight := none, binding }) none
  simp only [deskBeforeDrain, deskAfter, Bool.false_eq_true, if_false, hdesk]
  rfl

section Granted

variable {w : World} {p : ActiveParts} {flight : InFlight} {rsp : ApprovalResponse}
  {approval : ApprovalRequest} (hflight : p.inFlight = some flight)
  (hserves : t.Serves p.seat flight.flight w.trace)

include hflight hserves

/-- An approval is refused, sent and lost, or sent and on its way. -/
theorem executeApproved_finished
    (hgranted : Granted env t p.phoneIdPub flight.flight approval rsp) :
    Finished env t w p
      (executeApproved env w { p with inFlight := none } rsp flight approval) := by
  have hgrants : Grants env p t.decoded :=
    ⟨flight, rsp, hflight, hgranted.decoded, hgranted.decoded ▸ ⟨hgranted.stage, hgranted.reqId⟩,
      hgranted.verified, hgranted.approved⟩
  have hfl : (desk w (some p) none).flight = some flight.flight := by simp [desk, hflight]
  obtain ⟨granted, hgrant, hadds⟩ := logReq_adds env w approval.reqId "approval_granted"
    (approvalPayload "approved" rsp.reason approval rsp.signature)
  have hrefused : ∀ {w' binding rows e}, w.Adds w' (granted ++ rows) →
      Refusal env p.binding approval rsp binding rows e →
      Finished env t w p (w'.emit (.reply flight.reply (.error e)),
        { p with inFlight := none, binding }, false) := fun hadds hrefusal =>
    ⟨.one (.refused rfl hfl hserves hgranted hgrant hrefusal)
      (desk_refused (hadds.emit _) p _).symm, fun _ => hadds.draws, fun _ => rfl, fun _ => .inl rfl⟩
  unfold executeApproved
  generalize w.logReq env approval.reqId "approval_granted"
    (approvalPayload "approved" rsp.reason approval rsp.signature) = w₁ at hadds ⊢
  have halone : ∀ calls, w.Adds { w₁ with calls } (granted ++ []) := by simpa using hadds.calls
  dsimp only
  split
  next binding e hrecord => exact hrefused (halone _) (.unrecorded hrecord)
  next binding _ hrecord =>
    split
    next e hrebuild => exact hrefused (halone _) (.unbuilt hrecord hrebuild)
    next execute hrebuild =>
      split
      next binding₂ e hvalid => exact hrefused (halone _) (.mismatch hrecord hrebuild hvalid)
      next binding₂ _ hvalid =>
        have hexec : Executes env p.binding binding₂ approval rsp execute :=
          ⟨hrebuild, _, _, hrecord, hvalid⟩
        obtain ⟨sent, hsentRow, hadds₂⟩ := logReq_adds env { w₁ with calls := w₁.calls + 1 + 1 }
          execute.reqId "execute_sent" (executePayload approval)
        replace hadds₂ := (hadds.calls _).trans hadds₂
        have hrows : GrantRows env approval execute (granted ++ sent) :=
          ⟨granted, sent, hgrant, hsentRow, rfl⟩
        generalize World.logReq env { w₁ with calls := w₁.calls + 1 + 1 } execute.reqId
          "execute_sent" (executePayload approval) = w₂ at hadds₂ ⊢
        split
        next e henc => exact hrefused hadds₂ (.unencoded hexec hsentRow henc)
        next bytes henc =>
          obtain ⟨w₃, p₃, complete, hsend, hseat, hqueue, -, hdesk⟩ := sendOverSession_cases env w₂
            { p with inFlight := none, binding := binding₂ } (some flight.reply)
            (.executeRequest execute) bytes
          rw [hsend]
          cases complete with
          | false =>
            obtain ⟨w₄, p₄, ends, htear, hends, hend⟩ :=
              teardown_cases env w₃ p₃ .peerDisconnected
            dsimp only
            rw [htear]
            refine ⟨.one (.promoteDead rfl hfl hserves hgranted hexec hrows hends) ?_, nofun, nofun,
              nofun⟩
            refine .symm ((desk_closed _ p₄ none).trans ?_)
            simp only [desk_emit, hend, hdesk, hadds₂.desk]
            simp [desk, Desk.say, Desk.endedReplies, seat, waiting, InFlight.flight]
          | true =>
            refine ⟨.one (.promote rfl hfl hserves hgranted hexec hrows) ?_, fun _ => ?_,
              fun _ => hqueue, fun _ => Or.inr hgrants⟩
            · have hnew := desk_install env w₃ p₃ .execute flight.reqId none
                (some approval.service) (some approval.method) (some approval.endpoint)
                flight.reply none
              rw [hdesk, hadds₂.desk] at hnew
              simp only [deskBeforeDrain, deskAfter, Bool.false_eq_true, if_false, hnew]
              simp [desk, Desk.say, seat, waiting, InFlight.flight]
            · exact (congrArg Desk.draws (hdesk none)).trans hadds₂.draws

/-- The flight is answered and gone. -/
theorem Finished.answered (hadds : w.Adds w' obs)
    (hanswer : Answer env t p.phoneIdPub flight.flight obs) :
    Finished env t w p (w', { p with inFlight := none }, false) := by
  have hfl : (desk w (some p) none).flight = some flight.flight := by simp [desk, hflight]
  refine ⟨.one (.answer rfl hfl hserves hanswer) ?_, fun _ => hadds.draws, fun _ => rfl,
    fun _ => .inl rfl⟩
  exact (desk_refused hadds p p.binding).symm

theorem finishApproval_finished
    (hdecoded : t.decoded = some (.approvalResponse rsp)) (hstage : flight.stage = .approval)
    (hreq : rsp.reqId = flight.reqId) :
    Finished env t w p (finishApproval env w { p with inFlight := none } rsp flight) := by
  unfold finishApproval
  cases happroval : flight.approval with
  | none =>
    exact .answered env hflight hserves ⟨rfl, rfl, rfl, rfl⟩
      (.lost hdecoded hstage hreq happroval)
  | some a =>
    dsimp only
    split
    next e hbad =>
      obtain ⟨rows, hrows, hadds⟩ := note_adds env w "approval_signature_invalid"
      exact .answered env hflight hserves (hadds.emit _)
        (.badApproval hdecoded hstage hreq hbad hrows)
    next hgood =>
      cases hdecision : rsp.decision with
      | denied =>
        obtain ⟨rows, hrows, hadds⟩ := logReq_adds env w a.reqId "approval_denied"
          (approvalPayload "denied" rsp.reason a rsp.signature)
        exact .answered env hflight hserves (hadds.emit _)
          (.denied _ hdecoded hstage hreq happroval hgood hrows)
      | expired =>
        obtain ⟨rows, hrows, hadds⟩ := logReq_adds env w a.reqId "approval_denied"
          (approvalPayload "expired" rsp.reason a rsp.signature)
        exact .answered env hflight hserves (hadds.emit _)
          (.denied _ hdecoded hstage hreq happroval hgood hrows)
      | approved =>
        exact executeApproved_finished env hflight hserves
          ⟨hdecoded, hstage, hreq, happroval, hgood, hdecision⟩

theorem finishExecute_finished {rsp : ExecuteResponse}
    (hdecoded : t.decoded = some (.executeResponse rsp)) (hstage : flight.stage = .execute)
    (hreq : rsp.reqId = flight.reqId) :
    Finished env t w p
      (finishExecute env w { p with inFlight := none } rsp flight, { p with inFlight := none },
        false) := by
  unfold finishExecute
  split
  next e hbad =>
    obtain ⟨rows, hrows, hadds⟩ := note_adds env w "execute_signature_invalid"
    exact .answered env hflight hserves (hadds.emit _)
      (.badExecution hdecoded hstage hreq hbad hrows)
  next hgood =>
    obtain ⟨rows, hrows, hadds⟩ := logReq_adds env w rsp.reqId "execute_result"
      (resultPayload rsp flight)
    exact .answered env hflight hserves (hadds.emit _)
      (.executed hdecoded hstage hreq hgood hrows)

end Granted

/-! ## One turn -/

section Message

variable {w₀ w : World} {p : ActiveParts} {decoded : Option WireMessage}

/-- After the flight is finished and the session goes on, the queue is drained. -/
theorem Finished.drain {flight : InFlight} {p' : ActiveParts}
    (hdraws : w₀.draws = w.draws) (hflight : p.inFlight = some flight)
    (hanswers : Answers flight decoded)
    (h : Finished env (.message w₀ p decoded) w p (w', p', false)) :
    Does env (.message w₀ p decoded) (desk w (some p) none)
      (desk (drainRouteQueue env w' p').1 (some (drainRouteQueue env w' p').2) none) := by
  refine h.does.trans (drainRouteQueue_does env ?_ ?_ (hdraws.trans (h.draws rfl).symm))
  · rcases h.flight rfl with hnone | hgrants
    · exact .inl hnone
    · exact .inr ⟨w₀, p, decoded, rfl, hgrants, (h.queue rfl).symm⟩
  · intro cmd rest hqueue
    exact ⟨⟨flight, hflight, hanswers⟩, cmd, rest, (h.queue rfl).symm.trans hqueue, rfl, rfl⟩

/-- A message that is taken as the answer to the flight. -/
theorem tryCompleteRoute_does {r : World × ActiveParts × Bool} (hdraws : w₀.draws = w.draws)
    (hheard : Turn.Heard p.seat.sid w.trace (.message w₀ p decoded))
    (h : tryCompleteRoute env w p decoded = some r) :
    Does env (.message w₀ p decoded) (desk w (some p) none) (deskAfter r) := by
  unfold tryCompleteRoute at h
  cases hflight : p.inFlight with
  | none => simp [hflight] at h
  | some flight =>
    rw [hflight] at h
    dsimp only at h
    have hserves : Turn.Serves (.message w₀ p decoded) p.seat flight.flight w.trace :=
      ⟨hheard, p, flight, rfl, rfl, hflight, rfl⟩
    split at h
    next rsp hstage =>
      split_ifs at h with hreq
      have hfin : Finished env (.message w₀ p (some (.approvalResponse rsp))) w p _ :=
        finishApproval_finished env hflight hserves rfl hstage hreq
      split at h
      next w' p' heq =>
        cases h
        rw [heq] at hfin
        exact hfin.does
      next w' p' heq =>
        cases h
        rw [heq] at hfin
        exact hfin.drain env hdraws hflight ⟨hstage, hreq⟩
    next rsp hstage =>
      split_ifs at h with hreq
      cases h
      have hfin : Finished env (.message w₀ p (some (.executeResponse rsp))) w p _ :=
        finishExecute_finished env hflight hserves rfl hstage hreq
      exact hfin.drain env hdraws hflight ⟨hstage, hreq⟩
    next reqId services hstage =>
      split_ifs at h with hreq
      cases h
      have hadds : w.Adds (w.emit (.reply flight.reply (.ok (.services services)))) _ :=
        ⟨rfl, rfl, rfl, rfl⟩
      have hfin : Finished env
        (.message w₀ p (some (.listServicesResponse reqId services))) w p _ :=
        .answered env hflight hserves hadds (.services rfl hstage hreq)
      exact hfin.drain env hdraws hflight ⟨hstage, hreq⟩
    next => cases h

theorem teardown_does (reason : EndReason) (hends : t.Ends env w.trace)
    (hflight : p.inFlight.isSome = t.inFlight.isSome) :
    Does env t (desk w (some p) none) (desk (teardown env w p reason).1 none none) := by
  obtain ⟨w', p', ends, htear, hrows, hend⟩ := teardown_cases env w p reason
  have hsame : (desk w (some p) none).flight.isSome = t.inFlight.isSome := by
    simpa [desk] using hflight
  rw [htear]
  refine .one (.teardown rfl rfl hends hsame hrows) ?_
  refine .symm ((desk_closed _ p' none).trans ?_)
  rw [hend]

/-- Of the session itself the desk keeps its name and whether it is live. -/
theorem desk_session (w : World) (p : ActiveParts) {session : Session} (lastActivity : Nat)
    (hsid : session.sid = p.session.sid) (hlive : session.isLive = p.session.isLive)
    (hand : Option Nat) :
    desk w (some { p with session, lastActivity }) hand = desk w (some p) hand := by
  simp [desk, seat, waiting, hsid, hlive]

/-- A message no flight consumed. -/
theorem onUnclaimed_does
    (htrace : ∀ m, decoded = some m → w.trace = w₀.trace ++ [.received p.seat.sid m]) :
    Does env (.message w₀ p decoded) (desk w (some p) none)
      (deskAfter (onUnclaimed env w p decoded)) := by
  have hnote : Does env (.message w₀ p decoded) (desk w (some p) none)
      (deskAfter (w.note env "unsolicited_wire_message", p, false)) := by
    obtain ⟨rows, hrows, hadds⟩ := note_adds env w "unsolicited_wire_message"
    exact .one (.noted hrows) (hadds.desk _ _).symm
  cases decoded with
  | none => exact teardown_does env .protocolViolation trivial rfl
  | some m =>
    cases m with
    | sessionEnd reqId reason => exact teardown_does env .remoteEnded trivial rfl
    | ping reqId timestamp =>
      unfold onUnclaimed
      have hsame := desk_session w p (env.instant w.ticks) (Session.onActivity_sid p.session)
        (Session.onActivity_isLive p.session) none
      have hflight : { p with
          session := p.session.onActivity
          lastActivity := env.instant w.ticks }.inFlight = p.inFlight := rfl
      generalize { p with
        session := p.session.onActivity, lastActivity := env.instant w.ticks } = q at hsame hflight
      dsimp only
      rw [← hsame]
      split
      next e henc =>
        have hends : Turn.Ends env w.trace (.message w₀ p (some (.ping reqId timestamp))) :=
          .inl ⟨_, e, henc⟩
        exact teardown_does env (w := w.tick.tick) .protocolViolation hends (by rw [hflight]; rfl)
      next bytes henc =>
        obtain ⟨w', p', sent, hsend, -, -, -, hdesk⟩ := sendOverSession_cases env w.tick.tick q none
          (.pong reqId (env.unixNow (w.ticks + 1))) bytes
        have hpong : Does env (.message w₀ p (some (.ping reqId timestamp)))
            (desk w (some q) none) (desk w' (some p') none) :=
          .one (.ponged rfl) (hdesk none).symm
        have hsaid : w'.trace = w₀.trace ++ [.received p.seat.sid (.ping reqId timestamp),
            .wire none p.seat.sid (.pong reqId (env.unixNow (w.ticks + 1))) sent] := by
          have hend : w'.trace = w.trace ++ _ := congrArg Desk.trace (hdesk none)
          have hsid : q.seat.sid = p.seat.sid := congrArg (·.session.elim 0 (·.sid)) hsame
          rw [hend, htrace _ rfl, hsid, List.append_assoc]
          rfl
        have hkept := congrArg (fun σ : Desk => σ.flight.isSome) (hdesk none)
        rw [hsend]
        cases sent with
        | false =>
          have hends : Turn.Ends env w'.trace (.message w₀ p (some (.ping reqId timestamp))) :=
            .inr ⟨_, _, [], (List.append_nil _).trans hsaid.symm⟩
          refine hpong.trans (teardown_does env .protocolViolation hends ?_)
          change p'.inFlight.isSome = p.inFlight.isSome
          simpa [desk, Desk.say, hflight] using hkept
        | true => exact hpong
    | _ => exact hnote

/-- A message is noted, and answers the request in flight or nobody's. -/
theorem onPlaintext_eq (w : World) (p : ActiveParts) (decoded : Option WireMessage) :
    onPlaintext env w p decoded =
      (tryCompleteRoute env (decoded.elim w fun m => w.emit (.received p.session.sid m)) p
        decoded).getD
        (onUnclaimed env (decoded.elim w fun m => w.emit (.received p.session.sid m)) p
          decoded) := by
  cases decoded with
  | none =>
    rw [onPlaintext, Option.elim_none]
    cases tryCompleteRoute env w p none <;> rfl
  | some m =>
    rw [onPlaintext, Option.elim_some]
    cases tryCompleteRoute env (w.emit (.received p.session.sid m)) p (some m) <;> rfl

/-- Once a message has been noted, the rest of its turn. -/
theorem onNoted_does (hdraws : w₀.draws = w.draws)
    (htrace : ∀ m, decoded = some m → w.trace = w₀.trace ++ [.received p.seat.sid m]) :
    Does env (.message w₀ p decoded) (desk w (some p) none)
      (deskAfter ((tryCompleteRoute env w p decoded).getD (onUnclaimed env w p decoded))) := by
  have hheard : Turn.Heard p.seat.sid w.trace (.message w₀ p decoded) := fun m hm =>
    htrace m hm ▸ List.mem_append_right _ (List.mem_singleton_self _)
  cases hcomplete : tryCompleteRoute env w p decoded with
  | some r => exact tryCompleteRoute_does env hdraws hheard hcomplete
  | none => exact onUnclaimed_does env htrace

theorem onHeard_does (w : World) (p : ActiveParts) (m : WireMessage) :
    Does env (.message w p (some m)) (desk (w.emit (.received p.session.sid m)) (some p) none)
      (deskAfter (onPlaintext env w p (some m))) := by
  rw [onPlaintext_eq]
  refine onNoted_does env ?_ fun m' hm' => ?_
  · rfl
  · cases hm'
    rfl

theorem onPlaintext_does (w : World) (p : ActiveParts) (decoded : Option WireMessage) :
    Does env (.message w p decoded) (desk w (some p) none)
      (deskAfter (onPlaintext env w p decoded)) := by
  cases decoded with
  | none =>
    rw [onPlaintext_eq]
    exact onNoted_does env rfl (by simp)
  | some m => exact .head (.heard rfl rfl) (onHeard_does env w p m)

/-- Whatever is said in the turn of a message is said after noting it. -/
theorem onPlaintext_notes (w : World) (p : ActiveParts) (m : WireMessage) :
    w.trace ++ [.received p.session.sid m] <+: (onPlaintext env w p (some m)).1.trace :=
  (onHeard_does env w p m).invariant
    (fun σ => w.trace ++ [.received p.session.sid m] <+: σ.trace) List.prefix_rfl
    fun _ _ _ _ hσ hmove => hσ.trans hmove.trace_grows

end Message

theorem routeTimedOut_does (w₁ : World) (hdraws : w.draws = w₁.draws) :
    Does env (.deadline w p) (desk w₁ (some p) none)
      (desk (routeTimedOut env w₁ p).1 (some (routeTimedOut env w₁ p).2) none) := by
  unfold routeTimedOut
  cases hflight : p.inFlight with
  | none => exact .refl _
  | some flight =>
    obtain ⟨rows, hrows, hadds⟩ := logReq_adds env w₁ flight.reqId "request_timeout"
      (timeoutPayload (timeoutOp flight.stage) flight)
    have hfin := Finished.answered env (t := .deadline w p) hflight
      ⟨nofun, p, flight, rfl, rfl, hflight, rfl⟩ (hadds.emit _)
      (.timedOut (timeoutError flight.stage) ⟨w, p, rfl⟩ hrows)
    refine hfin.does.trans (drainRouteQueue_does env (.inl rfl) ?_
      (hdraws.trans (hfin.draws rfl).symm))
    exact fun cmd rest hqueue => ⟨cmd, rest, hqueue, rfl, rfl⟩

/-- A session start fails, with or without its row, or leaves a live session. -/
theorem beginSession_cases (w : World) (hbegins : t.Begins) :
    (∃ w' e, beginSession env w = (w', .error e) ∧
      Does env t (desk w none none) (desk w' none none)) ∨
    (∃ w' p, beginSession env w = (w', .ok p) ∧
      Does env t (desk w none none) (desk w' (some p) none)) := by
  have hunreached : Does env t (desk w none none)
      (desk { w with starts := w.starts + 1 } none none) :=
    .one (.unreached rfl) rfl
  unfold beginSession
  dsimp only
  split
  next e hlist => exact .inl ⟨_, _, rfl, hunreached⟩
  next pairings hlist =>
    split
    next hlast => exact .inl ⟨_, _, rfl, hunreached⟩
    next peer hlast =>
      split
      next hdial => exact .inl ⟨_, _, rfl, hunreached⟩
      next e hdial => exact .inl ⟨_, _, rfl, hunreached⟩
      next link hdial =>
        split
        next e hshake => exact .inl ⟨_, _, rfl, hunreached⟩
        next txSeq inbound hshake =>
          obtain ⟨rows, hrows, hadds⟩ := append_adds env { w with starts := w.starts + 1 }
            lifecycleReqId "session_start" r#"{"reason":"user_started"}"#
          split_ifs with hkey
          · refine .inr ⟨_, _, rfl, .one (.begun peer.idPub link hbegins rfl rfl hrows) ?_⟩
            refine .symm (((hadds.emit (.opened w.starts peer.idPub)).desk (some _) none).trans ?_)
            rfl
          · refine .inl ⟨_, _, rfl,
              .one (.aborted rfl hlist hlast (Bool.eq_false_iff.mpr hkey) hrows) ?_⟩
            exact (hadds.desk none none).symm

theorem onRoute_does (w : World) (slot : Option ActiveParts) (op : RoutedOp) :
    Does env (.command w slot (.route op)) (desk w slot none)
      (desk (onRoute env { w with taken := w.taken + 1 } slot op w.taken).1
        (onRoute env { w with taken := w.taken + 1 } slot op w.taken).2 none) := by
  unfold onRoute
  cases slot with
  | none => exact .one (.refuse (.fromCore .noSession)) (by simp [desk, Desk.say, World.emit])
  | some p =>
    dsimp only
    split_ifs with hflight hfull
    · exact .one (.refuse .busy) (by simp [desk, Desk.say, World.emit])
    · refine .one (.enqueue ?_ ?_) ?_
      · simpa [desk, Option.isSome_iff_ne_none] using hflight
      · simpa [desk, waiting] using hfull
      · simp [desk, Desk.say, World.emit, waiting, seat]
    · have hnone : p.inFlight = none := by simpa using hflight
      have hstarts : Turn.Starts p.waiting op (.command w (some p) (.route op)) :=
        ⟨hnone, rfl, rfl⟩
      refine .head (.take rfl rfl (by simp [desk, hnone])) (.single ?_)
      exact startRoute_moves env (w := { w with taken := w.taken + 1 }.emit (.took w.taken))
        w.taken hstarts rfl

theorem onCommand_does (w : World) (slot : Option ActiveParts) (cmd : Cmd) :
    Does env (.command w slot cmd) (desk w slot none)
      (desk (onCommand env w slot cmd).1 (onCommand env w slot cmd).2 none) := by
  have hskip : ∀ t, Does env t (desk w slot none)
      (desk { w with taken := w.taken + 1 } slot none) :=
    fun t => .one .skip rfl
  unfold onCommand
  cases cmd with
  | start =>
    refine (hskip _).trans ?_
    cases slot with
    | some p => exact Does.one (.startAnswered rfl) rfl
    | none =>
      dsimp only
      rcases beginSession_cases env (t := .command w none .start)
        { w with taken := w.taken + 1 } trivial with ⟨w', e, hbegin, hdoes⟩ | ⟨w', p, hbegin, hdoes⟩
      · rw [hbegin]
        exact hdoes.trans (Does.one .startFailed rfl)
      · rw [hbegin]
        exact hdoes.trans (Does.one (.startAnswered rfl) rfl)
  | endSession reason =>
    refine (hskip _).trans ?_
    cases slot with
    | none => exact Does.one .endReplied rfl
    | some p =>
      have hends : Turn.Ends env w.trace (.command w (some p) (.endSession reason)) := trivial
      exact (teardown_does env (w := { w with taken := w.taken + 1 }) reason hends rfl).trans
        (Does.one .endReplied rfl)
  | inspect =>
    refine (hskip _).trans ?_
    cases slot with
    | none | some => exact Does.one .inspected rfl
  | timer event =>
    refine (hskip _).trans ?_
    cases slot with
    | none => exact .refl _
    | some p =>
      have hsid := Session.handleTimerEvent_sid p.session event
      dsimp only
      split
      next session reason hev =>
        have hends : Turn.Ends env w.trace (.command w (some p) (.timer event)) := by
          rintro rfl
          rw [Session.handleTimerEvent] at hev
          split at hev <;> cases hev
        -- a teardown says the same whatever state the session is in
        exact teardown_does env reason hends rfl
      next session hev =>
        have hlive : (p.session.handleTimerEvent event).1.isLive = p.session.isLive :=
          Session.handleTimerEvent_isLive (by rw [hev])
        rw [hev] at hsid hlive
        have hsame := desk_session { w with taken := w.taken + 1 } p p.lastActivity hsid hlive none
        rw [hsame]
        exact .refl _
  | route op => exact onRoute_does env w slot op

/-! ## Runs -/

/-- The turns of the message loop of `on_chunk`. -/
def messageTurns (w : World) (p : ActiveParts) : List Bytes → List Turn
  | [] => []
  | message :: messages =>
    match receive env p message with
    | none => [.breach w p]
    | some (p, plaintext) =>
      .message w p (env.fromReader plaintext) ::
        match onPlaintext env w p (env.fromReader plaintext) with
        | (_, _, true) => []
        | (w, p, false) => messageTurns w p messages

def chunkTurns (w : World) (p : ActiveParts) : Except TransportError Bytes → List Turn
  | .error _ => [.breach w p]
  | .ok bytes =>
    match p.assembler.ingest bytes with
    | (assembler, .error _) => [.breach w { p with assembler }]
    | (assembler, .ok messages) => messageTurns env w { p with assembler } messages

/-- The turns the owner takes at an event. -/
def eventTurns (o : Owner) : Event → List Turn
  | .command cmd => [.command o.world o.slot cmd]
  | .chunk chunk =>
    match o.slot with
    | none => []
    | some p => chunkTurns env o.world p chunk
  | .deadline =>
    match o.slot with
    | none => []
    | some p =>
      match p.inFlight with
      | none => []
      | some flight =>
        if env.instant o.world.ticks < flight.deadline then [] else [.deadline o.world p]

/-- The turns of a run, each with the owner's state before it. -/
def turns (o : Owner) : List Event → List Turn
  | [] => []
  | event :: events => eventTurns env o event ++ turns (o.step env event) events

theorem turns_append (o : Owner) (events later : List Event) :
    turns env o (events ++ later) = turns env o events ++ turns env (o.run env events) later := by
  induction events generalizing o with
  | nil => rfl
  | cons event events ih =>
    rw [List.cons_append, turns, ih, turns, List.append_assoc]
    rfl

/-- Decrypting is for live sessions, and only counts the nonces. -/
theorem receive_some {q : ActiveParts} {message plaintext : Bytes}
    (h : receive env p message = some (q, plaintext)) :
    q.session.isLive = true ∧ ∀ w, desk w (some q) none = desk w (some p) none := by
  unfold receive at h
  split_ifs at h with hlive
  obtain ⟨_, -, hq⟩ := Option.map_eq_some_iff.mp h
  obtain ⟨rfl, rfl⟩ := Prod.mk.inj hq
  exact ⟨hlive, fun w => desk_session w p p.lastActivity rfl rfl none⟩

/-- A message is only opened in a live session. -/
def Turn.Live : Turn → Prop
  | .message _ p _ => p.session.isLive = true
  | _ => True

/-- The desk as a turn finds it. -/
def Turn.Finds (t : Turn) (σ : Desk) : Prop := desk t.world t.slot none = σ ∧ t.Live

theorem onMessages_path (w : World) (p : ActiveParts) (messages : List Bytes) :
    Path (Move env) Turn.Finds (desk w (some p) none) (messageTurns env w p messages)
      (deskAfter (onMessages env w p messages)) := by
  induction messages generalizing w p with
  | nil => exact .nil _
  | cons message messages ih =>
    unfold messageTurns onMessages
    cases hopen : receive env p message with
    | none => exact .single ⟨rfl, trivial⟩ (teardown_does env .protocolViolation trivial rfl)
    | some opened =>
      obtain ⟨q, plaintext⟩ := opened
      obtain ⟨hlive, hdesk⟩ := receive_some env hopen
      have hdoes := onPlaintext_does env w q (env.fromReader plaintext)
      rw [← hdesk]
      dsimp only
      generalize onPlaintext env w q (env.fromReader plaintext) = r at hdoes ⊢
      obtain ⟨w', p', ended⟩ := r
      cases ended with
      | true => exact .single ⟨rfl, hlive⟩ hdoes
      | false => exact .cons ⟨rfl, hlive⟩ hdoes (ih w' p')

theorem onChunk_path (w : World) (p : ActiveParts) (chunk : Except TransportError Bytes) :
    Path (Move env) Turn.Finds (desk w (some p) none) (chunkTurns env w p chunk)
      (deskAfter (onChunk env w p chunk)) := by
  cases chunk with
  | error e => exact .single ⟨rfl, trivial⟩ (teardown_does env .peerDisconnected trivial rfl)
  | ok bytes =>
    unfold chunkTurns onChunk
    dsimp only
    generalize p.assembler.ingest bytes = fed
    obtain ⟨assembler, result⟩ := fed
    cases result with
    | error e => exact .single ⟨rfl, trivial⟩ (teardown_does env .protocolViolation trivial rfl)
    | ok messages => exact onMessages_path env w { p with assembler } messages

/-- One event of the owner goes through its turns, each starting from the desk it finds. -/
theorem step_path (o : Owner) (event : Event) :
    Path (Move env) Turn.Finds o.desk (eventTurns env o event) (o.step env event).desk := by
  obtain ⟨w, slot⟩ := o
  cases event with
  | command cmd => exact .single ⟨rfl, trivial⟩ (onCommand_does env w slot cmd)
  | chunk chunk =>
    cases slot with
    | none => exact .nil _
    | some p =>
      have hpath := onChunk_path env w p chunk
      unfold Owner.step
      dsimp only
      generalize onChunk env w p chunk = r at hpath ⊢
      obtain ⟨w', p', ended⟩ := r
      cases ended with
      | true | false => exact hpath
  | deadline =>
    cases slot with
    | none => exact .nil _
    | some p =>
      unfold eventTurns Owner.step
      dsimp only
      cases hflight : p.inFlight with
      | none => exact .nil _
      | some flight =>
        dsimp only
        split_ifs with hclock
        · exact .nil _
        · exact .single ⟨rfl, trivial⟩ (routeTimedOut_does env w.tick rfl)

/-- **Refinement.** A run of the owner is a path of the desk through the turns of the run. -/
theorem run_path (o : Owner) (events : List Event) :
    Path (Move env) Turn.Finds o.desk (turns env o events) (o.run env events).desk := by
  induction events generalizing o with
  | nil => exact .nil _
  | cons event events ih => exact (step_path env o event).append (ih _)

/-- A run of the owner whose turns all meet a condition is a sequence of moves of the desk
under turns that meet it. -/
theorem run_reaches {C : Turn → Prop} (o : Owner) (events : List Event)
    (h : ∀ t ∈ turns env o events, C t) : Reaches (Move env) C o.desk (o.run env events).desk :=
  (run_path env o events).reaches h

theorem run_append (o : Owner) (events later : List Event) :
    o.run env (events ++ later) = (o.run env events).run env later :=
  List.foldl_append

theorem run_trace_grows (o : Owner) (events : List Event) :
    o.world.trace <+: (o.run env events).world.trace := by
  have hreach := run_reaches env o events fun t _ => (trivial : (fun _ : Turn => True) t)
  refine hreach.invariant (fun σ => o.world.trace <+: σ.trace) List.prefix_rfl ?_
  exact fun t σ σ' _ hσ hmove => hσ.trans hmove.trace_grows

end Handlers

/-! ## A bench

Concrete surroundings to run the owner in: one paired phone, a link and a log that take
everything, a clock that moves by a microsecond per reading, req_ids from a list. Sealing
appends an empty tag. CBOR is written as serde lays it out and read back for the messages the
phone is going to send. The phone's signatures are Ed25519 signatures of the payloads next to
them. -/

namespace Bench

def phone : PairingRow where
  idPub := ⟨[215, 90, 152, 1, 130, 177, 10, 183, 213, 75, 254, 211, 201, 100, 7, 58, 14, 225, 114,
    243, 218, 166, 35, 37, 175, 2, 26, 104, 247, 7, 81, 26], rfl⟩
  dhPub := ⟨List.replicate 32 9, rfl⟩

def reqId (n : UInt8) : ReqId := ⟨⟨List.replicate 16 n, rfl⟩⟩

/-- The signature of the approval of `reqId 1`. -/
def approval1 : Octets 64 :=
  ⟨[24, 23, 46, 206, 4, 133, 152, 121, 198, 14, 244, 145, 87, 2, 139, 60, 191, 193, 1, 91, 29, 72,
    92, 141, 36, 48, 84, 125, 245, 173, 167, 39, 112, 152, 111, 21, 226, 83, 181, 185, 174, 110,
    111, 82, 32, 242, 91, 62, 94, 197, 151, 52, 57, 91, 141, 224, 80, 126, 138, 109, 54, 232, 212,
    7], rfl⟩

/-- The signature of the execution result of `reqId 1`. -/
def execution1 : Octets 64 :=
  ⟨[36, 244, 39, 26, 218, 193, 76, 223, 139, 11, 28, 127, 87, 93, 151, 176, 228, 148, 251, 51, 69,
    178, 144, 7, 195, 40, 75, 9, 195, 80, 34, 99, 91, 219, 156, 54, 18, 237, 132, 174, 218, 41, 86,
    200, 190, 91, 5, 25, 141, 243, 59, 10, 6, 87, 203, 88, 13, 21, 251, 169, 243, 116, 23, 0], rfl⟩

/-- What the phone signed. -/
def signed : List (Octets 64 × String) :=
  [(approval1, r#"conveyance-approve-v1{"decision":"approved","# ++
      r#""req_id":"01010101010101010101010101010101"}"#),
    (execution1, r#"conveyance-execute-v1{"body":{"ok":true},"executed_at":1700000001,"# ++
      r#""http_status":200,"req_id":"01010101010101010101010101010101","status":"ok"}"#)]

def verify (key : Octets 32) (payload : Bytes) (signature : Octets 64) : Bool :=
  key = phone.idPub ∧ signed.any fun (s, text) => s = signature ∧ text.toUTF8.data.toList = payload

def maxWriteLen : Nat := 244

/-- The chunk that carries one whole message. -/
def chunkOf (seq : UInt16) (message : Bytes) : Bytes :=
  match splitMessage message maxWriteLen seq with
  | .ok (frames, _) => frames.flatten
  | .error _ => []

def encrypt (plaintext : Bytes) : Option Bytes :=
  if plaintext.length + 16 ≤ 65535 then some (plaintext ++ List.replicate 16 0) else none

def decrypt (ciphertext : Bytes) : Option Bytes :=
  if 16 ≤ ciphertext.length then some (ciphertext.take (ciphertext.length - 16)) else none

/-- The first read that gives the message its bytes. -/
def fromReader (heard : List WireMessage) (bytes : Bytes) : Option WireMessage :=
  heard.find? fun m => match m.intoWriter with
    | .ok written => written = bytes
    | .error _ => false

def env (ids : List ReqId) (heard : List WireMessage) : Env where
  entropy n := ids[n]?
  instant n := n * 1000
  unixNow _ := 1700000000
  readings n := .still (n * 1000)
  linkSend _ _ := true
  logAppend _ := true
  pairings _ := .ok [phone]
  dial _ := .ok ⟨maxWriteLen⟩
  -- the 48 bytes of the handshake's first message went by as frame 0
  handshake _ _ := .ok (1, (InboundAssembler.new.ingest (chunkOf 0 (List.replicate 48 0))).1)
  encrypt _ _ := encrypt
  decrypt _ _ := decrypt
  intoWriter := WireMessage.intoWriter
  fromReader := fromReader heard
  parsesKey _ := true
  verify := verify
  jsonText _ := ""
  approvalWindow := 60 * 1000000000
  executeWindow := 60 * 1000000000
  idleTimeout := 900 * 1000000000
  hardCap := 14400 * 1000000000

/-- A session as it is right after its handshake. -/
def freshParts : ActiveParts where
  session := .establish 0
  link := ⟨maxWriteLen⟩
  assembler := .new
  txSeq := 1
  startedAt := 0
  lastActivity := 0
  phoneIdPub := phone.idPub
  binding := .new
  routeQueue := []
  inFlight := none

theorem freshIds (ids : List ReqId) (heard : List WireMessage) (h : ids.Nodup) :
    FreshIds (env ids heard) := by
  intro i j reqId hi hj
  obtain ⟨hlt, -⟩ := List.getElem?_eq_some_iff.mp hi
  exact (List.getElem?_inj hlt h).mp (hi.trans hj.symm)

/-- The phone sends a message in frame `seq`. -/
def sends (seq : UInt16) (m : WireMessage) : Event :=
  match m.intoWriter with
  | .ok bytes => .chunk (.ok (chunkOf seq ((encrypt bytes).getD [])))
  | .error _ => .chunk (.error .disconnected)

def get (service : String) : Event :=
  .command (.route (.authenticatedRequest service "GET" "/" (.object []) none))

/-- The phone approves `reqId 1`, and reports its execution. -/
def approved : WireMessage := .approvalResponse ⟨reqId 1, .approved, none, approval1⟩

def executed : WireMessage :=
  .executeResponse ⟨reqId 1, .ok, some 200, .object [("ok", ⟨.bool true, trivial⟩)], 1700000001,
    execution1⟩

/-- Two requests, of which the phone approves and executes the first. -/
def twoRequests : Env := env [reqId 1, reqId 2] [approved, executed]

def list : Event := .command (.route .listServices)

/-- The phone answers the list request `reqId 1`. -/
def listed : WireMessage := .listServicesResponse (reqId 1) []

/-- Three requests, of which the phone answers the first. -/
def threeRequests : Env := env [reqId 1, reqId 2, reqId 3] [listed]

end Bench

end Conveyance.Daemon
