import Conveyance.Daemon.Conversations
import Conveyance.Daemon.Pledge
import Conveyance.Daemon.Recovery

/-!
# Which requests recovery takes for orphans

The sweep closes a req_id whose newest row is not terminal. In the source a
request is answered, but its last row is left open, when

- a ListServicesResponse answers it,
- the response to it does not verify,
- its opening or its execution does not encode, or the link does not take it,
- the session ends while it is in flight.

A run with none of these (`Turn.Concludes`, `Delivered`) leaves a settled log
once every request is answered. `Accounted` is the invariant: whatever is open
in the log is in flight.
-/

namespace Conveyance.Daemon

open Lib Crypto Conveyance.Core Protocol Storage

/-! ## Reading the trace -/

section

variable (trace : List Obs)

/-- The rows of a trace. -/
def logged : List LogEvent :=
  trace.filterMap fun
    | .row event => some event
    | _ => none

/-- The newest row of the req_id is not terminal. -/
def Open (reqId : Octets 16) : Prop :=
  reqId ≠ lifecycleReqId ∧
    ∃ eventType, newestOf (logged trace) reqId = some eventType ∧ eventType ∉ terminalEventTypes

/-- The Route commands taken. -/
def takenIn : List Nat :=
  trace.filterMap fun
    | .took ch => some ch
    | _ => none

def AllAnswered : Prop := ∀ ch ∈ takenIn trace, 0 < replyCount ch trace

/-- A message for a routed request that the link did not take in full. -/
def Obs.undelivered : Obs → Bool
  | .wire (some _) _ _ complete => !complete
  | _ => false

def Delivered : Prop := ∀ o ∈ trace, o.undelivered = false

end

section Reading

variable {env : Env} {trace obs rows : List Obs} {reqId id : Octets 16} {eventType : String}

theorem logged_append : logged (trace ++ obs) = logged trace ++ logged obs :=
  List.filterMap_append

theorem mem_takenIn {ch : Nat} (h : .took ch ∈ trace) : ch ∈ takenIn trace :=
  List.mem_filterMap.mpr ⟨_, h, rfl⟩

theorem settled_of_not_open (h : ∀ reqId, ¬ Open trace reqId) : Settled (logged trace) := by
  intro reqId eventType hnewest hid
  by_contra hterminal
  exact h reqId ⟨hid, eventType, hnewest, hterminal⟩

theorem open_unlogged (hobs : logged obs = []) (h : Open (trace ++ obs) reqId) :
    Open trace reqId := by
  rwa [Open, logged_append, hobs, List.append_nil] at h

/-- A new row opens or closes its own req_id only. -/
theorem Rows.open (hlog : Reliable env) (hrows : Rows env id eventType rows)
    (h : Open (trace ++ rows) reqId) :
    (id = reqId ∧ eventType ∉ terminalEventTypes) ∨ (id ≠ reqId ∧ Open trace reqId) := by
  rcases hrows with ⟨payloadJson, timestamp, rfl⟩ | ⟨-, hnot⟩
  · obtain ⟨hlife, last, hnewest, hopen⟩ := h
    rw [logged_append] at hnewest
    change newestOf (logged trace ++ [⟨id, eventType, payloadJson, timestamp⟩]) reqId = _ at hnewest
    by_cases hid : id = reqId
    · rw [newestOf_same hid] at hnewest
      cases Option.some.inj hnewest
      exact .inl ⟨hid, hopen⟩
    · rw [newestOf_other hid] at hnewest
      exact .inr ⟨hid, hlife, last, hnewest, hopen⟩
  · exact absurd hlog hnot

end Reading

/-! ## The conditions -/

/-- If the request is built at all, its opening encodes. -/
def Encodes (env : Env) (n : Nat) (op : RoutedOp) : Prop :=
  ∀ reqId, env.entropy n = some reqId →
    match op with
    | .authenticatedRequest service method endpoint params requestedBy =>
      ∀ tick a, ApprovalRequest.new reqId .authenticatedRequest service method endpoint params
        requestedBy (env.unixNow tick) = .ok a →
        ∃ bytes, encode env.intoWriter (.approvalRequest a) = .ok bytes
    | .listServices => ∃ bytes, encode env.intoWriter (.listServicesRequest reqId) = .ok bytes

/-- The answer to the flight leaves a row behind: it verifies, it is no list of
services, and the execution it approves encodes. -/
def Settles (env : Env) (p : ActiveParts) (flight : InFlight) : Option WireMessage → Prop
  | some (.approvalResponse rsp) =>
    rsp.verifySignature env.verify p.phoneIdPub = .ok () ∧
      (rsp.decision = .approved → ∀ a e, flight.approval = some a → rebuild a = .ok e →
        ∃ bytes, encode env.intoWriter (.executeRequest e) = .ok bytes)
  | some (.executeResponse rsp) => rsp.verifySignature env.verify p.phoneIdPub = .ok ()
  | _ => False

/-- The turn leaves no answered request open; `trace` is that of the run. -/
structure Turn.Concludes (env : Env) (trace : List Obs) (t : Turn) : Prop where
  alone : ¬ t.Overlaps env
  opens : ∀ behind op, t.Starts behind op → Encodes env t.world.draws op
  answers : ∀ p flight, t.slot = some p → p.inFlight = some flight → Answers flight t.decoded →
    Settles env p flight t.decoded
  ends : t.Ends env trace → t.inFlight = none

section Conditions

variable {env : Env} {trace trace' : List Obs} {t : Turn} {s : Seat} {f : Flight}

theorem Turn.Ends.mono (h : t.Ends env trace) (hwithin : trace <+: trace') : t.Ends env trace' := by
  unfold Turn.Ends at h
  split at h
  · trivial
  · exact h
  · trivial
  · trivial
  · trivial
  · rcases h with hencode | ⟨sid, now, hpong⟩
    · exact .inl hencode
    · exact .inr ⟨sid, now, hpong.trans hwithin⟩
  · exact h.elim

theorem OpenFailure.not_encodes {n ch : Nat} {op : RoutedOp} {obs : List Obs} {e : OpError}
    (h : OpenFailure env n ch op obs e) (hencodes : Encodes env n op) : logged obs = [] := by
  cases h with
  | entropy | domain => rfl
  | approvalEncoding hdraw hnew _ henc =>
    obtain ⟨bytes, hbytes⟩ := hencodes _ hdraw _ _ hnew
    cases henc.symm.trans hbytes
  | servicesEncoding hdraw _ henc =>
    obtain ⟨bytes, hbytes⟩ := hencodes _ hdraw
    cases henc.symm.trans hbytes

variable (h : t.Concludes env trace)

include h

variable (hserves : t.Serves s f trace')

include hserves

/-- What a concluding turn knows of an answer to the flight it serves. -/
theorem Turn.Concludes.settles {m : WireMessage} (hdecoded : t.decoded = some m)
    (hanswers : ∀ flight : InFlight, flight.flight = f → Answers flight (some m)) :
    ∃ p flight, p.phoneIdPub = s.key ∧ flight.flight = f ∧ Settles env p flight (some m) := by
  obtain ⟨p, flight, hslot, hkey, hflight, hf⟩ := hserves.slot
  have hsettles := h.answers p flight hslot hflight
  rw [hdecoded] at hsettles
  exact ⟨p, flight, hkey, hf, hsettles (hanswers flight hf)⟩

/-- A response to an approval verifies, and what it approves encodes. -/
theorem Turn.Concludes.approval {rsp : ApprovalResponse}
    (hdecoded : t.decoded = some (.approvalResponse rsp))
    (hstage : f.stage = .approval) (hreq : rsp.reqId = f.reqId) :
    rsp.verifySignature env.verify s.key = .ok () ∧
      (rsp.decision = .approved → ∀ a e, f.approval = some a → rebuild a = .ok e →
        ∃ bytes, encode env.intoWriter (.executeRequest e) = .ok bytes) := by
  obtain ⟨p, flight, hkey, rfl, hsettles⟩ := h.settles hserves hdecoded fun flight hf => by
    subst hf
    exact ⟨hstage, hreq⟩
  exact hkey ▸ hsettles

theorem Turn.Concludes.execution {rsp : ExecuteResponse}
    (hdecoded : t.decoded = some (.executeResponse rsp))
    (hstage : f.stage = .execute) (hreq : rsp.reqId = f.reqId) :
    rsp.verifySignature env.verify s.key = .ok () := by
  obtain ⟨p, flight, hkey, rfl, hsettles⟩ := h.settles hserves hdecoded fun flight hf => by
    subst hf
    exact ⟨hstage, hreq⟩
  exact hkey ▸ hsettles

theorem Turn.Concludes.no_services {reqId : ReqId} {services : List String}
    (hdecoded : t.decoded = some (.listServicesResponse reqId services))
    (hstage : f.stage = .services) (hreq : reqId = f.reqId) : False := by
  obtain ⟨p, flight, hkey, rfl, hsettles⟩ := h.settles hserves hdecoded fun flight hf => by
    subst hf
    exact ⟨hstage, hreq⟩
  exact hsettles

end Conditions

/-! ## Moves -/

/-- Whatever is open in the log is in flight. -/
def Accounted (trace : List Obs) (flight : Option Flight) : Prop :=
  ∀ reqId, Open trace reqId → ∃ f ∈ flight, f.reqId.bytes = reqId

section Moves

variable {env : Env} {t : Turn} {σ σ' : Desk} {trace obs rows : List Obs}
  {flight : Option Flight} {f : Flight} {eventType : String}

theorem Accounted.unlogged (h : Accounted trace flight) (hobs : logged obs = []) :
    Accounted (trace ++ obs) flight :=
  fun reqId hopen => h reqId (open_unlogged hobs hopen)

theorem Accounted.lifecycle (h : Accounted trace flight) (hlog : Reliable env)
    (hrows : Rows env lifecycleReqId eventType rows) : Accounted (trace ++ rows) flight := by
  intro reqId hopen
  rcases hrows.open hlog hopen with ⟨rfl, -⟩ | ⟨-, hopen'⟩
  · exact absurd rfl hopen.1
  · exact h reqId hopen'

/-- A row of the request that is in flight from then on. -/
theorem Accounted.fly (h : Accounted trace flight) (hlog : Reliable env)
    (hrows : Rows env f.reqId.bytes eventType rows) (hsame : ∀ f' ∈ flight, f'.reqId = f.reqId) :
    Accounted (trace ++ rows) (some f) := by
  intro reqId hopen
  rcases hrows.open hlog hopen with ⟨hid, -⟩ | ⟨-, hopen'⟩
  · exact ⟨f, rfl, hid⟩
  · obtain ⟨f', hf', hid⟩ := h reqId hopen'
    exact ⟨f, rfl, hsame f' hf' ▸ hid⟩

/-- A terminal row of the request in flight closes it. -/
theorem Accounted.settle (h : Accounted trace (some f)) (hlog : Reliable env)
    (hrows : Rows env f.reqId.bytes eventType rows) (hterminal : eventType ∈ terminalEventTypes) :
    Accounted (trace ++ rows) none := by
  intro reqId hopen
  rcases hrows.open hlog hopen with ⟨-, hnot⟩ | ⟨hne, hopen'⟩
  · exact absurd hterminal hnot
  · obtain ⟨_, ⟨⟩, hid⟩ := h reqId hopen'
    exact absurd hid hne

theorem logged_endedReplies (σ : Desk) : logged σ.endedReplies = [] :=
  List.filterMap_eq_nil_iff.mpr (σ.all_endedReplies fun _ => rfl)

theorem Opening.reqId_rows {n : Nat} {o : Prepared} (h : Opening env n o rows) :
    ∃ eventType, Rows env o.reqId.bytes eventType rows := by
  cases h with
  | approval _ _ hrows | services _ hrows => exact ⟨_, hrows⟩

/-- An answer at a concluding turn leaves a terminal row. -/
theorem Accounted.answer {final : List Obs} {draws : Nat} {s : Seat}
    (h : Accounted trace (some f)) (hlog : Reliable env) (hconcludes : t.Concludes env final)
    (hbound : Bound env draws (some s) (some f)) (hserves : t.Serves s f trace)
    (hanswer : Answer env t s.key f obs) : Accounted (trace ++ obs) none := by
  have hreply : ∀ {rows : List Obs} {eventType : String} (result : Except OpError IpcResponse),
      Rows env f.reqId.bytes eventType rows → eventType ∈ terminalEventTypes →
      Accounted (trace ++ (rows ++ [.reply f.ch result])) none := by
    intro rows eventType result hrows hterminal
    rw [← List.append_assoc]
    exact (h.settle hlog hrows hterminal).unlogged rfl
  cases hanswer with
  | lost _ hstage _ hnone =>
    obtain ⟨a, ha, -⟩ := hbound.pledge f rfl hstage
    rw [hnone] at ha
    cases ha
  | badApproval hdecoded hstage hreq hbad _ =>
    have hgood := (hconcludes.approval hserves hdecoded hstage hreq).1
    cases hbad.symm.trans hgood
  | denied result hdecoded hstage hreq happroval _ hrows =>
    obtain ⟨a, ha, hpledge⟩ := hbound.pledge f rfl hstage
    cases ha.symm.trans happroval
    rw [hpledge.reqId] at hrows
    exact hreply _ hrows (by simp [terminalEventTypes])
  | badExecution hdecoded hstage hreq hbad _ =>
    have hgood := hconcludes.execution hserves hdecoded hstage hreq
    cases hbad.symm.trans hgood
  | executed _ _ hreq _ hrows =>
    rw [hreq] at hrows
    exact hreply _ hrows (by simp [terminalEventTypes])
  | services hdecoded hstage hreq =>
    exact (hconcludes.no_services hserves hdecoded hstage hreq).elim
  | timedOut result _ hrows => exact hreply _ hrows (by simp [terminalEventTypes])

theorem Accounted.move {final : List Obs} (hlog : Reliable env) (hfresh : FreshIds env)
    (hclock : Timely env) (hconcludes : t.Concludes env final) (hdelivered : Delivered final)
    (horderly : Orderly σ) (hbound : Bound env σ.draws σ.session σ.flight)
    (h : Accounted σ.trace σ.flight) (hmove : Move env t σ σ') (hwithin : σ'.trace <+: final) :
    Accounted σ'.trace σ'.flight := by
  have hone : ∀ {obs}, logged obs = [] → Accounted (σ.trace ++ obs) σ.flight :=
    fun hobs => h.unlogged hobs
  have htaken : ∀ ch sid m, .wire (some ch) sid m false ∉ σ'.trace := by
    intro ch sid m hmem
    cases hdelivered _ (hwithin.subset hmem)
  cases hmove with
  | skip => exact h
  | heard _ _ => exact hone rfl
  | noted hrows | aborted _ _ _ _ hrows => exact h.lifecycle hlog hrows
  | ponged | endReplied | inspected | startAnswered | startFailed | refuse | enqueue | take =>
    exact hone rfl
  | pop | settle | unreached => exact h
  | begun key _ _ _ _ hrows =>
    simp only [Desk.say, ← List.append_assoc]
    exact (h.lifecycle hlog hrows).unlogged rfl
  | @openFailed ch op obs e _ hstarts hdraws hfail =>
    have hencodes := hconcludes.opens _ _ hstarts
    rw [hdraws] at hencodes
    refine hone ?_
    simpa [logged] using hfail.not_encodes hencodes
  | @openDead ch s o _ _ _ _ _ _ =>
    exact absurd (by simp [Desk.say]) (htaken ch s.sid o.message)
  | @opened ch s o rows hhand hs hopen =>
    have hnone : σ.flight = none := horderly.alone (by rw [hhand]; exact Option.some_ne_none ch)
    obtain ⟨eventType, hrows⟩ := hopen.reqId_rows
    have hstarted : Accounted (σ.trace ++ [.started ch, .assigned ch o.reqId]) σ.flight := hone rfl
    rw [hnone] at hstarted
    have hflown : Accounted _ (some ⟨ch, o.reqId, o.stage, o.approval⟩) :=
      hstarted.fly hlog hrows (by simp)
    have hdone : Accounted (_ ++ [.wire (some ch) s.sid o.message true]) _ := hflown.unlogged rfl
    simpa [Desk.say] using hdone
  | answer hs hflight hserves hanswer =>
    rw [hflight] at h
    rw [hs, hflight] at hbound
    exact h.answer hlog hconcludes hbound hserves hanswer
  | refused hs hflight hserves hgranted _ hrefusal =>
    -- only an execution that does not encode is refused
    rw [hs, hflight] at hbound
    obtain ⟨execute, e', hexec, henc⟩ := hbound.refusal hfresh hclock hgranted hrefusal
    obtain ⟨bytes, hbytes⟩ := (hconcludes.approval hserves hgranted.decoded hgranted.stage
      hgranted.reqId).2 hgranted.approved _ _ hgranted.approval hexec.rebuilt
    cases henc.symm.trans hbytes
  | @promoteDead s f _ _ _ execute _ _ _ _ _ _ _ _ _ =>
    exact absurd (by simp [Desk.say]) (htaken f.ch s.sid (.executeRequest execute))
  | @promote s f a rsp after execute rows hs hflight _ hgranted hexec hrows =>
    rw [hs, hflight] at hbound
    rw [hflight] at h
    obtain ⟨granted, sent, hgrant, hsent, rfl⟩ := hrows
    obtain ⟨a', ha', hpledge⟩ := hbound.pledge f rfl hgranted.stage
    cases ha'.symm.trans hgranted.approval
    rw [(sameFields_of_rebuild hexec.rebuilt).reqId, hpledge.reqId] at hsent
    rw [hpledge.reqId] at hgrant
    have hflown : Accounted _ (some ⟨f.ch, f.reqId, .execute, none⟩) :=
      h.fly hlog hgrant (by rintro _ ⟨⟩; rfl)
    have hsaid : Accounted _ (some ⟨f.ch, f.reqId, .execute, none⟩) :=
      hflown.fly hlog hsent (by rintro _ ⟨⟩; rfl)
    have hdone : Accounted (_ ++ [.wire (some f.ch) s.sid (.executeRequest execute) true]) _ :=
      hsaid.unlogged rfl
    simpa [Desk.say] using hdone
  | teardown _ _ hends hsame hrows =>
    have hidle := hconcludes.ends (hends.mono ((List.prefix_append _ _).trans hwithin))
    have hnone : σ.flight = none := by
      rw [hidle] at hsame
      simpa using hsame
    rw [hnone] at h
    simp only [Desk.say, ← List.append_assoc]
    exact (h.unlogged (logged_endedReplies σ)).lifecycle hlog hrows

end Moves

/-! ## Runs -/

/-- The contract of recovery, at the end of a run. -/
structure RecoveryKept (env : Env) (events : List Event) : Prop where
  /-- The newest row of every request that has one is terminal. -/
  terminal : Settled (logged (Owner.init.run env events).world.trace)
  /-- A sweep of the log the run leaves behind, whatever settled log it was
  appended to, appends nothing. -/
  unswept : ∀ sha256 jsonText now earlier before db, LogDb.Stores sha256 before earlier →
    Settled earlier →
    before.appendAll sha256 (logged (Owner.init.run env events).world.trace) = .ok db →
    sweepOrphanedRequests sha256 jsonText now db = .ok (db, 0)

/-- Once everything is answered, nothing is in flight. -/
theorem Orderly.landed {σ : Desk} (h : Orderly σ) (hanswered : AllAnswered σ.trace) :
    σ.flight = none := by
  by_contra hne
  obtain ⟨f, hf⟩ := Option.ne_none_iff_exists'.mp hne
  have hbalance := h.books.balance f.ch
  rw [hf, Option.map_some, Option.toList_some, List.count_singleton_self] at hbalance
  have hpos : 0 < takenCount f.ch σ.trace := by omega
  have honce := h.books.once f.ch
  have hreply := hanswered f.ch (mem_takenIn (takenCount_pos.mp hpos))
  omega

/-- **Recovery finds no orphan among answered requests**, in a run with a log
that takes every row, whose turns conclude what they answer and whose messages
for routed requests are all taken. -/
theorem answered_requests_are_no_orphans (env : Env) (events : List Event) (hlog : Reliable env)
    (hfresh : FreshIds env) (hclock : Timely env)
    (hturns : ∀ t ∈ turns env .init events, t.Concludes env (Owner.init.run env events).world.trace)
    (hdelivered : Delivered (Owner.init.run env events).world.trace)
    (hanswered : AllAnswered (Owner.init.run env events).world.trace) :
    RecoveryKept env events := by
  have hreach := run_reaches env .init events hturns
  -- an invariant of the states from which the run's trace is still reached
  have hinv : Orderly (Owner.init.run env events).desk ∧
      Accounted (Owner.init.run env events).desk.trace (Owner.init.run env events).desk.flight := by
    have hall := hreach.invariant
      (fun σ => σ.trace <+: (Owner.init.run env events).world.trace →
        Orderly σ ∧ Bound env σ.draws σ.session σ.flight ∧ Accounted σ.trace σ.flight)
      (fun _ => ⟨⟨Books.empty, nofun⟩, bound_init, nofun⟩) ?_ List.prefix_rfl
    · exact ⟨hall.1, hall.2.2⟩
    · intro t σ σ' hconcludes hσ hmove hwithin
      obtain ⟨horderly, hbound, haccounted⟩ := hσ (hmove.trace_grows.trans hwithin)
      exact ⟨horderly.move hconcludes.alone hmove, hbound.move hmove,
        haccounted.move hlog hfresh hclock hconcludes hdelivered horderly hbound hmove hwithin⟩
  have hnone := hinv.1.landed hanswered
  have hsettled : Settled (logged (Owner.init.run env events).world.trace) := by
    refine settled_of_not_open fun reqId hopen => ?_
    obtain ⟨f, hf, -⟩ := hinv.2 reqId hopen
    rw [hnone] at hf
    cases hf
  refine ⟨hsettled, fun sha256 jsonText now earlier before db hbefore hearlier happend => ?_⟩
  exact sweep_of_settled (hbefore.appendAll happend) (hearlier.append hsettled) jsonText now

/-- Enough to see that a turn of a short run concludes. -/
def Turn.concluding (env : Env) : Turn → Bool
  | .command _ none _ => true
  | .command w (some _) (.route (.authenticatedRequest service method endpoint params by_)) =>
    match env.entropy w.draws with
    | none => true
    | some reqId =>
      match ApprovalRequest.new reqId .authenticatedRequest service method endpoint params by_
          (env.unixNow 0) with
      | .error _ => true
      | .ok a => (encode env.intoWriter (.approvalRequest a)).toBool
  | .command _ (some p) (.endSession _) => p.inFlight.isNone
  | .message _ p (some (.approvalResponse rsp)) =>
    p.routeQueue.isEmpty && (rsp.verifySignature env.verify p.phoneIdPub).toBool &&
      match p.inFlight.bind (·.approval) with
      | none => true
      | some a =>
        match rebuild a with
        | .error _ => true
        | .ok e => (encode env.intoWriter (.executeRequest e)).toBool
  | .message _ p (some (.executeResponse rsp)) =>
    p.routeQueue.isEmpty && (rsp.verifySignature env.verify p.phoneIdPub).toBool
  | _ => false

variable {env : Env} {trace : List Obs} {w : World}

/-- A command overlaps with nothing and answers nothing. -/
theorem Turn.concludes_command {slot : Option ActiveParts} {cmd : Cmd}
    (hopens : ∀ behind op, Turn.Starts behind op (.command w slot cmd) → Encodes env w.draws op)
    (hends : Turn.Ends env trace (.command w slot cmd) → slot.bind (·.inFlight) = none) :
    Turn.Concludes env trace (.command w slot cmd) where
  alone := by
    rintro ⟨_, _, _, heq, -⟩
    cases heq
  opens := hopens
  answers _ _ _ _ hanswers := hanswers.elim
  ends := hends

/-- A response with nobody waiting starts nothing and ends nothing. -/
theorem Turn.concludes_response {p : ActiveParts} {m : WireMessage} (hqueue : p.routeQueue = [])
    (hends : ¬ Turn.Ends env trace (.message w p (some m)))
    (hsettles : ∀ flight, p.inFlight = some flight → Settles env p flight (some m)) :
    Turn.Concludes env trace (.message w p (some m)) where
  alone := by
    rintro ⟨_, _, _, heq, -, hne⟩
    cases heq
    exact hne hqueue
  opens := by
    rintro behind op ⟨-, cmd, rest, hcons, -⟩
    cases hqueue.symm.trans hcons
  answers := by
    rintro _ flight heq hflight -
    cases heq
    exact hsettles flight hflight
  ends h := absurd h hends

theorem Turn.concludes_of_concluding {t : Turn} (hconst : ∀ tick, env.unixNow tick = env.unixNow 0)
    (h : t.concluding env = true) : t.Concludes env trace := by
  unfold Turn.concluding at h
  split at h
  next w cmd => exact concludes_command (fun _ _ hstarts => hstarts.elim) (fun hends => hends.elim)
  next w p service method endpoint params by_ =>
    refine concludes_command ?_ (fun hends => hends.elim)
    rintro behind op ⟨-, rfl, -⟩ reqId hdraw tick a hnew
    rw [hdraw] at h
    dsimp only at h
    rw [← hconst tick, hnew] at h
    exact exists_of_toBool h
  next w p reason =>
    exact concludes_command (fun _ _ hstarts => hstarts.elim)
      (fun _ => Option.isNone_iff_eq_none.mp h)
  next w p rsp =>
    rw [Bool.and_eq_true, Bool.and_eq_true] at h
    obtain ⟨⟨hempty, hverified⟩, hencodes⟩ := h
    obtain ⟨_, hverified⟩ := exists_of_toBool hverified
    refine concludes_response (List.isEmpty_iff.mp hempty) (fun hends => hends)
      fun flight hflight => ⟨hverified, fun _ a e ha he => ?_⟩
    rw [hflight, Option.bind_some, ha] at hencodes
    dsimp only at hencodes
    rw [he] at hencodes
    exact exists_of_toBool hencodes
  next w p rsp =>
    rw [Bool.and_eq_true] at h
    obtain ⟨_, hverified⟩ := exists_of_toBool h.2
    exact concludes_response (List.isEmpty_iff.mp h.1) (fun hends => hends) fun _ _ => hverified
  next => cases h

/-- A request is approved and executed, and the session ended after it. -/
def executedAndEnded : List Event :=
  [.command .start, Bench.get "a", Bench.sends 1 Bench.approved, Bench.sends 2 Bench.executed,
    .command (.endSession .userEnded)]

theorem executed_request_is_no_orphan :
    newestOf (logged (Owner.init.run Bench.twoRequests executedAndEnded).world.trace)
        (Bench.reqId 1).bytes = some "execute_result" ∧
      RecoveryKept Bench.twoRequests executedAndEnded := by
  have hfacts : (∀ t ∈ turns Bench.twoRequests .init executedAndEnded,
        t.concluding Bench.twoRequests = true) ∧
      Delivered (Owner.init.run Bench.twoRequests executedAndEnded).world.trace ∧
      AllAnswered (Owner.init.run Bench.twoRequests executedAndEnded).world.trace ∧
      newestOf (logged (Owner.init.run Bench.twoRequests executedAndEnded).world.trace)
        (Bench.reqId 1).bytes = some "execute_result" := by
    unfold Delivered AllAnswered
    decide +kernel
  obtain ⟨hconcluding, hdelivered, hanswered, hnewest⟩ := hfacts
  refine ⟨hnewest, answered_requests_are_no_orphans _ _ (fun _ => rfl)
    (Bench.freshIds _ _ (by decide)) (fun n => ?_) (fun t ht => ?_) hdelivered hanswered⟩
  · simp only [Bench.twoRequests, Bench.env, Readings.still, defaultApprovalTtl]
    omega
  · exact Turn.concludes_of_concluding (fun _ => rfl) (hconcluding t ht)

/-- A list request, and the phone's answer. -/
def listedOnce : List Event := [.command .start, Bench.list, Bench.sends 1 Bench.listed]

/-- The request is answered, but its only row stays open. -/
theorem listed_request_taken_for_orphan :
    Reliable Bench.threeRequests ∧
      AllAnswered (Owner.init.run Bench.threeRequests listedOnce).world.trace ∧
      ¬ RecoveryKept Bench.threeRequests listedOnce := by
  refine ⟨fun _ => rfl, ?_, fun h => ?_⟩
  · unfold AllAnswered
    decide +kernel
  · have hnewest : newestOf (logged (Owner.init.run Bench.threeRequests listedOnce).world.trace)
        (Bench.reqId 1).bytes = some "list_services_request" := by decide +kernel
    have hterminal := h.terminal _ _ hnewest (by decide)
    simp [terminalEventTypes] at hterminal

end Conveyance.Daemon
