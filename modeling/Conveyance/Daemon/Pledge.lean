import Conveyance.Daemon.Refinement

/-!
# Approvals are honoured

`finish_approval` logs `approval_granted` before it asks the binding tracker,
and its comment says that the refusals in between cannot happen. They cannot:
the request in flight was valid when it was built, its req_id is new to the
session's tracker, and the tracker is asked twice in a row. What remains is an
execution that does not encode (`Bound.refusal`).

`Bound` is the invariant, of every run (`turns_bound`); `unused` needs req_ids that are
drawn once. The tracker's two calls accept if moreover the clock does not jump by the
approval's lifetime in between (`Timely`).
-/

namespace Conveyance.Daemon

open Lib Crypto Conveyance.Core Protocol

/-- The tracker's second call comes within an approval's lifetime of its first. -/
def Timely (env : Env) : Prop :=
  ∀ n, (env.readings (n + 1)).age ≤ (env.readings n).stamp + defaultApprovalTtl

/-- What is known of the request a flight asks approval for. -/
structure Pledge (env : Env) (draws : Nat) (f : Flight) (a : ApprovalRequest) : Prop where
  reqId : a.reqId = f.reqId
  valid : a.validate = .ok ()
  opType : a.opType = .authenticatedRequest
  drawn : ∃ n < draws, env.entropy n = some f.reqId

structure Bound (env : Env) (draws : Nat) (session : Option Seat) (flight : Option Flight) :
    Prop where
  pledge : ∀ f ∈ flight, f.stage = .approval → ∃ a ∈ f.approval, Pledge env draws f a
  ttl : ∀ s ∈ session, s.binding.ttl = defaultApprovalTtl
  /-- The tracker only knows req_ids that were drawn. -/
  used : ∀ s ∈ session, ∀ id, s.binding.Unused id ∨
    ∃ n < draws, ∃ reqId, env.entropy n = some reqId ∧ reqId.hex = id
  unused : FreshIds env → ∀ f ∈ flight, f.stage = .approval →
    ∀ s ∈ session, s.binding.Unused f.reqId.hex
  /-- The request went out over the link of its session. -/
  posted : ∀ f ∈ flight, f.stage = .approval → ∀ s ∈ session, ∀ a ∈ f.approval,
    ∃ bytes, Posted env s.link (.approvalRequest a) bytes

/-! ## The tracker's answers -/

section Answers

variable {env : Env} {t : Turn} {draws : Nat} {s : Seat} {f : Flight} {a : ApprovalRequest}
  {rsp : ApprovalResponse} {before after : ApprovedRequestTracker} {execute : ExecuteRequest}

/-- Both calls of the tracker, one after the other. -/
theorem Bound.accepts (h : Bound env draws (some s) (some f))
    (hgranted : Granted env t s.key f a rsp) (hunused : s.binding.Unused f.reqId.hex) {n : Nat}
    (hclock : (env.readings (n + 1)).age ≤ (env.readings n).stamp + defaultApprovalTtl) :
    ∃ between execute, s.binding.recordApproval a rsp (env.readings n) = (between, .ok ()) ∧
      rebuild a = .ok execute ∧
      (between.validateExecute execute (env.readings (n + 1))).2 = .ok () := by
  obtain ⟨a', ha', hpledge⟩ := h.pledge f rfl hgranted.stage
  obtain rfl : a' = a := Option.some.inj (ha'.symm.trans hgranted.approval)
  rw [← hpledge.reqId] at hunused
  obtain ⟨json, hjson, hrecord⟩ := ApprovedRequestTracker.recordApproval_unused hpledge.valid
    hpledge.opType hgranted.approved (hpledge.reqId.trans hgranted.reqId.symm) hunused
    (env.readings n)
  have hrebuild : rebuild a' = .ok _ := bind_eq_ok.mpr ⟨(), hpledge.valid, rfl⟩
  refine ⟨_, _, hrecord, hrebuild, ?_⟩
  exact ApprovedRequestTracker.validateExecute_recorded hjson (sameFields_of_rebuild hrebuild)
    hunused (h.ttl s rfl ▸ hclock)

/-- **The only refusal left is an execution that does not encode.** -/
theorem Bound.refusal (hfresh : FreshIds env) (hclock : Timely env)
    (h : Bound env draws (some s) (some f)) (hgranted : Granted env t s.key f a rsp)
    {rows : List Obs} {e : OpError} (hrefusal : Refusal env s.binding a rsp after rows e) :
    ∃ execute e', Executes env s.binding after a rsp execute ∧
      encode env.intoWriter (.executeRequest execute) = .error e' := by
  have hunused := h.unused hfresh f rfl hgranted.stage s rfl
  cases hrefusal with
  | @unrecorded _ n _ hrecord =>
    obtain ⟨between, _, hok, -⟩ := h.accepts hgranted hunused (hclock n)
    cases hrecord.symm.trans hok
  | @unbuilt _ n _ hrecord hrebuild =>
    obtain ⟨_, execute, -, hok, -⟩ := h.accepts hgranted hunused (hclock n)
    cases hrebuild.symm.trans hok
  | @mismatch _ _ n _ _ hrecord hrebuild hvalid =>
    obtain ⟨between, execute, hrecorded, hbuilt, hok⟩ := h.accepts hgranted hunused (hclock n)
    cases hrecord.symm.trans hrecorded
    cases hrebuild.symm.trans hbuilt
    rw [hvalid] at hok
    cases hok
  | unencoded hexec _ henc => exact ⟨_, _, hexec, henc⟩

/-- The tracker may have spent this req_id, and no other. -/
structure Spends (before after : ApprovedRequestTracker) (id : String) : Prop where
  unused : ∀ other, other ≠ id → before.Unused other → after.Unused other
  ttl : after.ttl = before.ttl

variable {result : Except ProtocolError Unit} {r : Readings}

theorem spends_record (h : before.recordApproval a rsp r = (after, result)) :
    Spends before after a.reqId.hex where
  unused other hne hunused := by
    have hkept := hunused.recordApproval hne rsp r
    rwa [h] at hkept
  ttl := by
    have hkept := before.call_ttl (.record a rsp r)
    rwa [ApprovedRequestTracker.call, h] at hkept

theorem Spends.validate {id : String} {between : ApprovedRequestTracker}
    (hspends : Spends before between id) (hid : execute.reqId.hex = id)
    (h : between.validateExecute execute r = (after, result)) : Spends before after id where
  unused other hne hunused := by
    have hkept := (hspends.unused other hne hunused).validateExecute (hid ▸ hne) r
    rwa [h] at hkept
  ttl := by
    have hkept := between.call_ttl (.validate execute r)
    rw [ApprovedRequestTracker.call, h] at hkept
    exact hkept.trans hspends.ttl

theorem Executes.spends (h : Executes env before after a rsp execute) :
    Spends before after a.reqId.hex := by
  obtain ⟨n, between, hrecord, hvalid⟩ := h.accepted
  exact (spends_record hrecord).validate
    (congrArg ReqId.hex (sameFields_of_rebuild h.rebuilt).reqId) hvalid

theorem Refusal.spends {rows : List Obs} {e : OpError} (h : Refusal env before a rsp after rows e) :
    Spends before after a.reqId.hex := by
  cases h with
  | unrecorded hrecord => exact spends_record hrecord
  | unbuilt hrecord _ => exact spends_record hrecord
  | mismatch hrecord hrebuild hvalid =>
    exact (spends_record hrecord).validate
      (congrArg ReqId.hex (sameFields_of_rebuild hrebuild).reqId) hvalid
  | unencoded hexec _ _ => exact hexec.spends

end Answers

/-! ## Moves -/

section Moves

variable {env : Env} {t : Turn} {σ σ' : Desk} {draws : Nat} {session : Option Seat}
  {flight : Option Flight} {s : Seat} {f : Flight}

namespace Bound

theorem more {draws' : Nat} (h : Bound env draws session flight) (hdraws : draws ≤ draws') :
    Bound env draws' session flight where
  pledge f hf hstage := by
    obtain ⟨a, ha, hpledge⟩ := h.pledge f hf hstage
    obtain ⟨n, hn, hdraw⟩ := hpledge.drawn
    exact ⟨a, ha, { hpledge with drawn := ⟨n, hn.trans_le hdraws, hdraw⟩ }⟩
  unused := h.unused
  posted := h.posted
  ttl := h.ttl
  used s hs id := by
    rcases h.used s hs id with hunused | ⟨n, hn, hdrawn⟩
    · exact .inl hunused
    · exact .inr ⟨n, hn.trans_le hdraws, hdrawn⟩

/-- No flight asks for approval any more. -/
theorem land {flight' : Option Flight} (h : Bound env draws session flight)
    (hflight : ∀ f ∈ flight', f.stage ≠ .approval) :
    Bound env draws session flight' where
  pledge f hf hstage := absurd hstage (hflight f hf)
  unused _ f hf hstage := absurd hstage (hflight f hf)
  posted f hf hstage := absurd hstage (hflight f hf)
  ttl := h.ttl
  used := h.used

theorem close (h : ∀ f ∈ flight, f.stage ≠ .approval) : Bound env draws none flight :=
  ⟨fun f hf hstage => absurd hstage (h f hf), nofun, nofun, fun _ _ _ _ => nofun,
    fun _ _ _ => nofun⟩

/-- Of the session only its tracker and its link matter. -/
theorem reseat {s' : Seat} (h : Bound env draws (some s) flight) (hsame : s'.binding = s.binding)
    (hlink : s'.link = s.link) : Bound env draws (some s') flight where
  pledge := h.pledge
  unused := by
    rintro hfresh f hf hstage _ ⟨⟩
    rw [hsame]
    exact h.unused hfresh f hf hstage s rfl
  posted := by
    rintro f hf hstage _ ⟨⟩
    rw [hlink]
    exact h.posted f hf hstage s rfl
  ttl := by
    rintro _ ⟨⟩
    rw [hsame]
    exact h.ttl s rfl
  used := by
    rintro _ ⟨⟩
    rw [hsame]
    exact h.used s rfl

/-- The session's tracker was asked for the request in flight. -/
theorem spend {a : ApprovalRequest} {rsp : ApprovalResponse} {after : ApprovedRequestTracker}
    {flight' : Option Flight} (h : Bound env draws (some s) (some f))
    (hgranted : Granted env t s.key f a rsp) (hspends : Spends s.binding after a.reqId.hex)
    (hflight : ∀ f ∈ flight', f.stage ≠ .approval) :
    Bound env draws (some { s with binding := after }) flight' where
  pledge f hf hstage := absurd hstage (hflight f hf)
  unused _ f hf hstage := absurd hstage (hflight f hf)
  posted f hf hstage := absurd hstage (hflight f hf)
  ttl := by
    rintro _ ⟨⟩
    exact hspends.ttl.trans (h.ttl s rfl)
  used := by
    rintro _ ⟨⟩ id
    obtain ⟨a', ha', hpledge⟩ := h.pledge f rfl hgranted.stage
    obtain rfl : a' = a := Option.some.inj (ha'.symm.trans hgranted.approval)
    by_cases hid : id = a'.reqId.hex
    · obtain ⟨n, hn, hdraw⟩ := hpledge.drawn
      exact .inr ⟨n, hn, f.reqId, hdraw, by rw [hid, hpledge.reqId]⟩
    · exact (h.used s rfl id).imp_left (hspends.unused id hid)

end Bound

/-- A request takes off under a req_id the tracker does not know. -/
theorem Opening.bound {o : Prepared} {rows : List Obs} {ch : Nat}
    (hopen : Opening env draws o rows) (hposted : Posted env s.link o.message o.bytes)
    (h : Bound env draws (some s) flight) :
    Bound env (draws + 1) (some s) (some ⟨ch, o.reqId, o.stage, o.approval⟩) := by
  have hmore := h.more (Nat.le_succ draws)
  cases hopen with
  | services hdraw _ => exact hmore.land (by simp)
  | approval hdraw hnew _ =>
    obtain ⟨_, hvalid, ha⟩ := bind_eq_ok.mp hnew
    cases ha
    refine ⟨?_, hmore.ttl, hmore.used, ?_, ?_⟩
    · rintro _ ⟨⟩ -
      exact ⟨_, rfl, rfl, hvalid, rfl, draws, Nat.lt_succ_self _, hdraw⟩
    · rintro hfresh _ ⟨⟩ - _ ⟨⟩
      rcases h.used s rfl _ with hunused | ⟨n, hn, reqId, hdraw', hhex⟩
      · exact hunused
      · -- it would have been drawn before
        obtain rfl := ReqId.hex_inj hhex
        exact absurd (hfresh n draws _ hdraw' hdraw) hn.ne
    · rintro _ ⟨⟩ - _ ⟨⟩ _ ⟨⟩
      exact ⟨_, hposted⟩

theorem Bound.move (h : Bound env σ.draws σ.session σ.flight) (hmove : Move env t σ σ') :
    Bound env σ'.draws σ'.session σ'.flight := by
  cases hmove with
  | openFailed _ _ _ _ => exact h.more (Nat.le_succ _)
  | openDead _ hs _ _ =>
    rw [hs] at h
    have hland : Bound env (σ.draws + 1) _ none := (h.more (Nat.le_succ _)).land (by simp)
    exact hland.reseat rfl rfl
  | opened _ hs hopen hposted =>
    rw [hs] at h
    simp only [Desk.say, hs]
    exact hopen.bound hposted h
  | answer _ _ _ _ => exact h.land (by simp)
  | refused hs hflight _ hgranted _ hrefusal =>
    rw [hs, hflight] at h
    exact h.spend hgranted hrefusal.spends (by simp)
  | promoteDead | teardown => exact .close (by simp)
  | promote hs hflight _ hgranted hexec _ =>
    rw [hs, hflight] at h
    exact h.spend hgranted hexec.spends (by simp)
  | begun key link _ _ hidle _ =>
    simp only [Desk.say, hidle]
    refine ⟨by simp, ?_, ?_, by simp, by simp⟩
    · rintro _ ⟨⟩
      rfl
    · rintro _ ⟨⟩ id
      exact .inl (ApprovedRequestTracker.unused_new id)
  | _ => exact h

theorem bound_init : Bound env draws none none := .close nofun

/-- **In every run, what a turn finds in flight is bound.** -/
theorem turns_bound {events : List Event} (ht : t ∈ turns env .init events) :
    ∃ σ, t.Finds σ ∧ Bound env σ.draws σ.session σ.flight := by
  obtain ⟨σ, hreach, hfinds⟩ := (run_path env .init events).reaches_found ht
  refine ⟨σ, hfinds, hreach.invariant (fun σ => Bound env σ.draws σ.session σ.flight) bound_init ?_⟩
  exact fun _ _ _ _ hbound hmove => hbound.move hmove

end Moves

end Conveyance.Daemon
