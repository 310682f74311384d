import Conveyance.Daemon.Refinement

/-!
# Nothing is executed without consent

An ExecuteRequest goes out only for a request the phone approved, in the same
session, under the session's key, with the approved fields, and once. A result
is logged or handed to a caller only after such a request was sent and a
verifying response to it came in. `Warranted` says this of one entry of the
trace; the phone may send whatever it likes, and verification is any predicate.

The invariant is `Consent`: the trace so far is warranted, and the request in
flight stands on what its stage presupposes (`Standing`). Most moves say only
things that need no warrant (`Consent.plain`). Three do not: a request takes
off, an approval turns into an execution, and a result comes back.

That a req_id is executed once rests on req_ids being drawn once: a flight
takes off under a new one, and leaves the approval stage when it is executed.
-/

namespace Conveyance.Daemon

open Lib Crypto Conveyance.Core Protocol

/-! ## Warrants -/

/-- An ExecuteRequest with this req_id was put on the wire. -/
def Sent (reqId : ReqId) (trace : List Obs) : Prop :=
  ∃ ch sid e complete, .wire ch sid (.executeRequest e) complete ∈ trace ∧ e.reqId = reqId

/-- In session `sid` the phone was asked for exactly `e` and agreed. -/
def Agreed (env : Env) (past : List Obs) (sid : Nat) (e : ExecuteRequest) : Prop :=
  ∃ key ch a rsp, .opened sid key ∈ past ∧ .wire (some ch) sid (.approvalRequest a) true ∈ past ∧
    .received sid (.approvalResponse rsp) ∈ past ∧ rsp.reqId = e.reqId ∧
    rsp.decision = .approved ∧ rsp.verifySignature env.verify key = .ok () ∧ SameFields a e

/-- The execution of `reqId` was sent on behalf of `ch`, and `rsp` is a verified
response to it. -/
def Fulfilled (env : Env) (past : List Obs) (ch : Nat) (reqId : ReqId) (rsp : ExecuteResponse) :
    Prop :=
  ∃ sid key e, .opened sid key ∈ past ∧ .wire (some ch) sid (.executeRequest e) true ∈ past ∧
    e.reqId = reqId ∧ .received sid (.executeResponse rsp) ∈ past ∧ rsp.reqId = reqId ∧
    rsp.verifySignature env.verify key = .ok ()

/-- What must have happened before an entry. -/
def Warranted (env : Env) (past : List Obs) : Obs → Prop
  | .wire _ sid (.executeRequest e) _ => Agreed env past sid e ∧ ¬ Sent e.reqId past
  | .row event => event.eventType = "execute_result" →
    ∃ ch reqId rsp, event.reqId = reqId.bytes ∧ Fulfilled env past ch reqId rsp
  | .reply ch (.ok (.body body)) =>
    ∃ reqId rsp, .assigned ch reqId ∈ past ∧ rsp.body = body ∧ Fulfilled env past ch reqId rsp
  | _ => True

def Obs.needsWarrant : Obs → Bool
  | .wire _ _ (.executeRequest _) _ => true
  | .row event => event.eventType == "execute_result"
  | .reply _ (.ok (.body _)) => true
  | _ => false

def Plain (o : Obs) : Prop := o.needsWarrant = false

section Warrants

variable {env : Env} {past obs : List Obs}

theorem Fulfilled.append {ch : Nat} {reqId : ReqId} {rsp : ExecuteResponse}
    (h : Fulfilled env past ch reqId rsp) (obs : List Obs) :
    Fulfilled env (past ++ obs) ch reqId rsp := by
  obtain ⟨sid, key, e, hopened, hwire, he, hreceived, hrest⟩ := h
  exact ⟨sid, key, e, List.mem_append_left _ hopened, List.mem_append_left _ hwire, he,
    List.mem_append_left _ hreceived, hrest⟩

theorem Plain.warranted {o : Obs} (h : Plain o) (past : List Obs) : Warranted env past o := by
  unfold Warranted
  split
  · cases h
  · exact fun hresult => absurd hresult (beq_eq_false_iff_ne.mp h)
  · cases h
  · trivial

theorem sent_append {reqId : ReqId} :
    Sent reqId (past ++ obs) ↔ Sent reqId past ∨ Sent reqId obs := by
  simp only [Sent, List.mem_append, or_and_right, exists_or]

theorem not_sent_of_plain {reqId : ReqId} (h : ∀ o ∈ obs, Plain o) : ¬ Sent reqId obs :=
  fun ⟨_, _, _, _, hmem, _⟩ => nomatch h _ hmem

theorem Clerical.plain {φ : LogEvent → Prop} (h : Clerical φ obs)
    (hφ : ∀ event, φ event → event.eventType ≠ "execute_result") : ∀ o ∈ obs, Plain o :=
  h.all (fun event hevent => beq_eq_false_iff_ne.mpr (hφ event hevent)) fun _ _ => rfl

theorem Rows.plain {reqId : Octets 16} {eventType : String} (h : Rows env reqId eventType obs)
    (hne : eventType ≠ "execute_result") : ∀ o ∈ obs, Plain o :=
  h.clerical.plain fun _ hevent => hevent ▸ hne

theorem Progress.ne_result {event : LogEvent} (h : Progress event) :
    event.eventType ≠ "execute_result" := by
  intro hevent
  rw [Progress, hevent] at h
  simp [progressEventTypes] at h

theorem plain_singleton {o : Obs} (h : Plain o) : ∀ x ∈ [o], Plain x :=
  List.forall_mem_singleton.mpr h

end Warrants

/-! ## The invariant -/

/-- What the stage of a flight presupposes. -/
structure Standing (env : Env) (trace : List Obs) (draws sid : Nat) (f : Flight) : Prop where
  assigned : .assigned f.ch f.reqId ∈ trace
  drawn : ∃ n < draws, env.entropy n = some f.reqId
  asked : f.stage = .approval → ∀ a ∈ f.approval,
    a.reqId = f.reqId ∧ .wire (some f.ch) sid (.approvalRequest a) true ∈ trace
  unsent : f.stage = .approval → ¬ Sent f.reqId trace
  sent : f.stage = .execute →
    ∃ e, e.reqId = f.reqId ∧ .wire (some f.ch) sid (.executeRequest e) true ∈ trace

structure Consent (env : Env) (trace : List Obs) (draws : Nat) (session : Option Seat)
    (flight : Option Flight) : Prop where
  warranted : Always (Warranted env) trace
  drawn : ∀ reqId, Sent reqId trace → ∃ n < draws, env.entropy n = some reqId
  keyed : ∀ s ∈ session, .opened s.sid s.key ∈ trace
  standing : ∀ f ∈ flight, ∃ s ∈ session, Standing env trace draws s.sid f

section Invariant

variable {env : Env} {trace obs : List Obs} {draws : Nat} {session : Option Seat}
  {flight : Option Flight} {s : Seat} {f : Flight}

theorem Standing.plain {sid draws' : Nat} (h : Standing env trace draws sid f)
    (hobs : ∀ o ∈ obs, Plain o) (hdraws : draws ≤ draws') :
    Standing env (trace ++ obs) draws' sid f where
  assigned := List.mem_append_left _ h.assigned
  drawn := by
    obtain ⟨n, hn, hdraw⟩ := h.drawn
    exact ⟨n, hn.trans_le hdraws, hdraw⟩
  asked hstage a ha := by
    obtain ⟨hreq, hwire⟩ := h.asked hstage a ha
    exact ⟨hreq, List.mem_append_left _ hwire⟩
  unsent hstage := by
    rw [sent_append, not_or]
    exact ⟨h.unsent hstage, not_sent_of_plain hobs⟩
  sent hstage := by
    obtain ⟨e, he, hwire⟩ := h.sent hstage
    exact ⟨e, he, List.mem_append_left _ hwire⟩

namespace Consent

/-- Entries that need no warrant. -/
theorem plain {draws' : Nat} (h : Consent env trace draws session flight)
    (hobs : ∀ o ∈ obs, Plain o) (hdraws : draws ≤ draws') :
    Consent env (trace ++ obs) draws' session flight where
  warranted := by
    refine always_append.mpr ⟨h.warranted, always_of_forall fun o ho past => ?_⟩
    exact (hobs o ho).warranted _
  drawn reqId hsent := by
    rw [sent_append, or_iff_left (not_sent_of_plain hobs)] at hsent
    obtain ⟨n, hn, hdraw⟩ := h.drawn reqId hsent
    exact ⟨n, hn.trans_le hdraws, hdraw⟩
  keyed s hs := List.mem_append_left _ (h.keyed s hs)
  standing f hf := by
    obtain ⟨s, hs, hstanding⟩ := h.standing f hf
    exact ⟨s, hs, hstanding.plain hobs hdraws⟩

/-- Nothing is in flight any more. -/
theorem land (h : Consent env trace draws session flight) : Consent env trace draws session none :=
  { h with standing := nofun }

/-- The session is over. -/
theorem close (h : Consent env trace draws session none) : Consent env trace draws none none :=
  { h with keyed := nofun, standing := nofun }

/-- Of the session only its name and key matter. -/
theorem reseat {s' : Seat} (h : Consent env trace draws (some s) flight) (hsid : s'.sid = s.sid)
    (hkey : s'.key = s.key) : Consent env trace draws (some s') flight where
  warranted := h.warranted
  drawn := h.drawn
  keyed := by
    rintro _ ⟨⟩
    rw [hsid, hkey]
    exact h.keyed s rfl
  standing f hf := by
    obtain ⟨_, ⟨⟩, hstanding⟩ := h.standing f hf
    exact ⟨s', rfl, hsid.symm ▸ hstanding⟩

/-- A session is opened; nothing was in flight without one. -/
theorem seat (h : Consent env trace draws none flight) (hopened : .opened s.sid s.key ∈ trace) :
    Consent env trace draws (some s) flight where
  warranted := h.warranted
  drawn := h.drawn
  keyed := by
    rintro _ ⟨⟩
    exact hopened
  standing f hf := by
    obtain ⟨_, ⟨⟩, -⟩ := h.standing f hf

/-- A flight takes off, standing on what it says. -/
theorem fly (h : Consent env trace draws (some s) flight)
    (hstanding : Standing env trace draws s.sid f) :
    Consent env trace draws (some s) (some f) where
  warranted := h.warranted
  drawn := h.drawn
  keyed := h.keyed
  standing := by
    rintro _ ⟨⟩
    exact ⟨s, rfl, hstanding⟩

variable (h : Consent env trace draws (some s) (some f))

include h

/-- The approved request goes out. -/
theorem execute {e : ExecuteRequest} {complete : Bool} (hagreed : Agreed env trace s.sid e)
    (hstage : f.stage = .approval) (hreq : e.reqId = f.reqId) :
    Consent env (trace ++ [.wire (some f.ch) s.sid (.executeRequest e) complete]) draws (some s)
      none := by
  obtain ⟨_, ⟨⟩, hstanding⟩ := h.standing f rfl
  refine ⟨always_append.mpr ⟨h.warranted, ?_⟩, fun reqId hsent => ?_,
    fun s hs => List.mem_append_left _ (h.keyed s hs), nofun⟩
  · rw [always_cons, List.append_nil]
    exact ⟨⟨hagreed, hreq ▸ hstanding.unsent hstage⟩, always_nil⟩
  · rcases sent_append.mp hsent with hsent | ⟨_, _, _, _, hmem, rfl⟩
    · exact h.drawn reqId hsent
    · cases List.mem_singleton.mp hmem
      exact hreq ▸ hstanding.drawn

/-- The result comes back, verified. -/
theorem result {rsp : ExecuteResponse} {rows : List Obs} (hstage : f.stage = .execute)
    (hheard : .received s.sid (.executeResponse rsp) ∈ trace) (hreq : rsp.reqId = f.reqId)
    (hverified : rsp.verifySignature env.verify s.key = .ok ())
    (hrows : Rows env rsp.reqId.bytes "execute_result" rows) :
    Consent env (trace ++ (rows ++ [.reply f.ch (.ok (.body rsp.body))])) draws (some s) none := by
  obtain ⟨_, ⟨⟩, hstanding⟩ := h.standing f rfl
  obtain ⟨e, he, hwire⟩ := hstanding.sent hstage
  have hfulfilled : Fulfilled env trace f.ch f.reqId rsp :=
    ⟨s.sid, s.key, e, h.keyed s rfl, hwire, he, hheard, hreq, hverified⟩
  refine ⟨always_append.mpr ⟨h.warranted, always_append.mpr ⟨?_, ?_⟩⟩, fun reqId hsent => ?_,
    fun s hs => List.mem_append_left _ (h.keyed s hs), nofun⟩
  · rcases hrows with ⟨payloadJson, timestamp, rfl⟩ | ⟨rfl, -⟩
    · rw [always_cons, List.append_nil]
      exact ⟨fun _ => ⟨f.ch, f.reqId, rsp, by rw [hreq], hfulfilled⟩, always_nil⟩
    · exact always_nil
  · rw [always_cons, List.append_nil]
    exact ⟨⟨f.reqId, rsp, List.mem_append_left _ hstanding.assigned, rfl, hfulfilled.append rows⟩,
      always_nil⟩
  · -- neither the row nor the reply is an ExecuteRequest
    rcases sent_append.mp hsent with hsent | ⟨_, _, _, _, hmem, -⟩
    · exact h.drawn reqId hsent
    · rcases List.mem_append.mp hmem with hmem | hmem
      · rcases hrows.clerical _ hmem with ⟨_, heq, -⟩ | ⟨_, _, heq⟩
        · cases heq
        · cases heq
      · cases List.mem_singleton.mp hmem

end Consent

end Invariant

/-! ## Moves -/

section Moves

variable {env : Env} {t : Turn} {σ σ' : Desk}

variable {o : Prepared} {rows trace : List Obs} {sid draws : Nat} {s : Seat} {f : Flight}
  {a : ApprovalRequest} {rsp : ApprovalResponse} {e : ExecuteRequest}

theorem Opening.plain {n : Nat} {ch : Option Nat} {complete : Bool} (h : Opening env n o rows) :
    Plain (.wire ch sid o.message complete) := by
  cases h <;> rfl

/-- A request that takes off stands on its opening. -/
theorem Opening.standing {ch : Nat} (h : Opening env σ.draws o rows) (hfresh : FreshIds env)
    (hdrawn : ∀ reqId, Sent reqId σ.trace → ∃ n < σ.draws, env.entropy n = some reqId) :
    Standing env (σ.trace ++ (.started ch :: .assigned ch o.reqId :: rows ++
      [.wire (some ch) sid o.message true])) (σ.draws + 1) sid
      ⟨ch, o.reqId, o.stage, o.approval⟩ := by
  have hnew : ∀ reqId, env.entropy σ.draws = some reqId → ¬ Sent reqId σ.trace := by
    intro reqId hdraw hsent
    obtain ⟨n, hn, hdraw'⟩ := hdrawn reqId hsent
    exact hn.ne (hfresh n σ.draws reqId hdraw' hdraw)
  cases h with
  | approval hdraw hnew' hrows =>
    refine ⟨by simp, ⟨_, Nat.lt_succ_self _, hdraw⟩, ?_, fun _ => ?_, nofun⟩
    · rintro - a ⟨⟩
      obtain ⟨_, -, ha⟩ := bind_eq_ok.mp hnew'
      cases ha
      exact ⟨rfl, by simp⟩
    · rw [sent_append, not_or]
      refine ⟨hnew _ hdraw, not_sent_of_plain ?_⟩
      have hplain := hrows.plain (by simp)
      simp only [List.cons_append, List.forall_mem_cons, List.forall_mem_append]
      exact ⟨rfl, rfl, hplain, rfl, nofun⟩
  | services hdraw hrows =>
    exact ⟨by simp, ⟨_, Nat.lt_succ_self _, hdraw⟩, nofun, nofun, nofun⟩

section

variable (h : Consent env trace draws (some s) (some f)) (hheard : t.Heard s.sid trace)

include h hheard

/-- A verified approval of the flight is the phone's agreement. -/
theorem Consent.agreed (hgranted : Granted env t s.key f a rsp)
    (hrebuilt : rebuild a = .ok e) : Agreed env trace s.sid e ∧ e.reqId = f.reqId := by
  obtain ⟨_, ⟨⟩, hstanding⟩ := h.standing f rfl
  obtain ⟨hreq, hwire⟩ := hstanding.asked hgranted.stage a hgranted.approval
  have hsame := sameFields_of_rebuild hrebuilt
  have heq : e.reqId = f.reqId := hsame.reqId.trans hreq
  exact ⟨⟨s.key, f.ch, a, rsp, h.keyed s rfl, hwire, hheard _ hgranted.decoded,
    hgranted.reqId.trans heq.symm, hgranted.approved, hgranted.verified, hsame⟩, heq⟩

/-- The approved request goes out after its rows. -/
theorem Consent.grant (hgranted : Granted env t s.key f a rsp) (hrebuilt : rebuild a = .ok e)
    (hrows : GrantRows env a e rows) (complete : Bool) :
    Consent env (trace ++ (rows ++ [.wire (some f.ch) s.sid (.executeRequest e) complete])) draws
      (some s) none := by
  have hplain := h.plain (hrows.clerical.plain fun _ => Progress.ne_result) le_rfl
  have hheard' : t.Heard s.sid (trace ++ rows) := fun m hm => List.mem_append_left _ (hheard m hm)
  obtain ⟨hagreed, hreq⟩ := hplain.agreed hheard' hgranted hrebuilt
  rw [← List.append_assoc]
  exact hplain.execute hagreed hgranted.stage hreq

/-- Short of a verified result, an answer needs no warrant. -/
theorem Consent.answer {obs : List Obs}
    (hanswer : Answer env t s.key f obs) : Consent env (trace ++ obs) draws (some s) none := by
  have hreply : ∀ {rows : List Obs} {eventType reqId} (e : OpError),
      Rows env reqId eventType rows → eventType ≠ "execute_result" →
      Consent env (trace ++ (rows ++ [.reply f.ch (.error e)])) draws (some s) none := by
    intro rows eventType reqId e hrows hne
    refine .land (h.plain ?_ le_rfl)
    exact List.forall_mem_append.mpr ⟨hrows.plain hne, plain_singleton rfl⟩
  cases hanswer with
  | lost | services => exact .land (h.plain (plain_singleton rfl) le_rfl)
  | badApproval _ _ _ _ hrows | badExecution _ _ _ _ hrows => exact hreply _ hrows (by simp)
  | denied result _ _ _ _ _ hrows | timedOut result _ hrows => exact hreply result hrows (by simp)
  | executed hdecoded hstage hreq hverified hrows =>
    exact h.result hstage (hheard _ hdecoded) hreq hverified hrows

end

theorem Consent.move (hfresh : FreshIds env) (h : Consent env σ.trace σ.draws σ.session σ.flight)
    (hmove : Move env t σ σ') : Consent env σ'.trace σ'.draws σ'.session σ'.flight := by
  -- entries that need no warrant
  have hplain : ∀ {obs}, (∀ o ∈ obs, Plain o) →
      Consent env (σ.trace ++ obs) σ.draws σ.session σ.flight :=
    fun hobs => h.plain hobs le_rfl
  have hone : ∀ {o}, Plain o → Consent env (σ.trace ++ [o]) σ.draws σ.session σ.flight :=
    fun ho => hplain (plain_singleton ho)
  cases hmove with
  | skip => exact h
  | heard _ _ => exact hone rfl
  | noted hrows | aborted _ _ _ _ hrows => exact hplain (hrows.plain (by simp))
  | ponged | endReplied | inspected | startAnswered | startFailed => exact hone rfl
  | refuse e => exact hplain (List.forall_mem_cons.mpr ⟨rfl, plain_singleton rfl⟩)
  | enqueue | take => exact hone rfl
  | pop | settle | unreached => exact h
  | begun key _ _ hnone _ hrows =>
    rw [hnone] at h
    refine (h.plain ?_ le_rfl).seat (by simp)
    exact List.forall_mem_append.mpr ⟨hrows.plain (by simp), plain_singleton rfl⟩
  | openFailed hhand _ _ hfail =>
    refine h.plain ?_ (Nat.le_succ _)
    simp only [List.cons_append, List.forall_mem_cons, List.forall_mem_append]
    exact ⟨rfl, hfail.clerical.plain fun _ => Progress.ne_result, rfl, List.forall_mem_nil _⟩
  | openDead hhand hs hopen hends =>
    rw [hs] at h
    refine (Consent.land (h.plain ?_ (Nat.le_succ _))).reseat rfl rfl
    simp only [List.cons_append, List.append_assoc, List.forall_mem_cons, List.forall_mem_append]
    exact ⟨rfl, rfl, hopen.clerical.plain fun _ => Progress.ne_result, hopen.plain,
      σ.all_endedReplies fun _ => rfl, hends.plain (by simp), rfl, List.forall_mem_nil _⟩
  | opened hhand hs hopen _ =>
    rw [hs] at h
    simp only [Desk.say, hs]
    refine .fly (h.plain ?_ (Nat.le_succ _)) (hopen.standing hfresh h.drawn)
    simp only [List.cons_append, List.forall_mem_cons, List.forall_mem_append]
    exact ⟨rfl, rfl, hopen.clerical.plain fun _ => Progress.ne_result, hopen.plain,
      List.forall_mem_nil _⟩
  | answer hs hflight hserves hanswer =>
    rw [hs, hflight] at h
    simp only [Desk.say, hs]
    exact h.answer hserves.heard hanswer
  | refused hs hflight _ _ hgranted hrefusal =>
    rw [hs, hflight] at h
    refine (Consent.land (h.plain ?_ le_rfl)).reseat rfl rfl
    exact List.forall_mem_append.mpr
      ⟨(hrefusal.clerical hgranted).plain fun _ => Progress.ne_result, plain_singleton rfl⟩
  | @promoteDead s f _ _ _ _ _ ends hs hflight hserves hgranted hexec hrows hends =>
    rw [hs, hflight] at h
    have hrest : ∀ o ∈ σ.queue.map endedReply ++ ends ++ [endedReply f.ch], Plain o := by
      simp only [List.forall_mem_append]
      exact ⟨⟨List.forall_mem_map.mpr fun _ _ => rfl, hends.plain (by simp)⟩, plain_singleton rfl⟩
    have hdone := ((h.grant hserves.heard hgranted hexec.rebuilt hrows false).plain hrest
      le_rfl).close
    simpa [Desk.say] using hdone
  | promote hs hflight hserves hgranted hexec hrows =>
    rw [hs, hflight] at h
    have hsent := h.grant hserves.heard hgranted hexec.rebuilt hrows true
    have hreq := (h.agreed hserves.heard hgranted hexec.rebuilt).2
    obtain ⟨_, ⟨⟩, hstanding⟩ := h.standing _ rfl
    refine .reseat (hsent.fly ?_) rfl rfl
    exact ⟨List.mem_append_left _ hstanding.assigned, hstanding.drawn, by simp, by simp,
      fun _ => ⟨_, hreq, by simp⟩⟩
  | teardown hs _ _ _ hends =>
    exact (Consent.land (h.plain (List.forall_mem_append.mpr
      ⟨σ.all_endedReplies fun _ => rfl, hends.plain (by simp)⟩) le_rfl)).close

end Moves

/-! ## Runs -/

/-- **Execution requires a verified approval.** Whatever the phone sends and
whenever deadlines fire, every entry of the trace of a run is warranted. -/
theorem execution_requires_verified_approval (env : Env) (hfresh : FreshIds env)
    (events : List Event) : Always (Warranted env) (Owner.init.run env events).world.trace := by
  have hreach := run_reaches env .init events fun t _ => (trivial : (fun _ : Turn => True) t)
  have hconsent := hreach.invariant
    (fun σ => Consent env σ.trace σ.draws σ.session σ.flight)
    ⟨always_nil, fun _ ⟨_, _, _, _, hmem, _⟩ => absurd hmem List.not_mem_nil, nofun, nofun⟩
    fun _ _ _ _ hσ hmove => hσ.move hfresh hmove
  exact hconsent.warranted

/-- A request is approved and executed. -/
def approvedOnce : List Event :=
  [.command .start, Bench.get "a", Bench.sends 1 Bench.approved, Bench.sends 2 Bench.executed]

/-- It leaves an ExecuteRequest, an `execute_result` row and a Body reply, each
of them warranted. -/
theorem approved_request_executed_once :
    FreshIds Bench.twoRequests ∧
      (Owner.init.run Bench.twoRequests approvedOnce).world.trace.countP (·.needsWarrant) = 3 ∧
      Always (Warranted Bench.twoRequests)
        (Owner.init.run Bench.twoRequests approvedOnce).world.trace := by
  have hfresh : FreshIds Bench.twoRequests := Bench.freshIds _ _ (by decide)
  exact ⟨hfresh, by decide +kernel, execution_requires_verified_approval _ hfresh _⟩

end Conveyance.Daemon
