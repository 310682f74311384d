import Conveyance.Phone.ApprovalRuntime

/-!
# What the phone signs, logs and answers

`currentRequest` is written before the state machine has taken the request, and it
is read by coroutines that carry out a decision. `Kept` says why that is safe: at every
cut the request held is the one the pending card was made from, each instance has at
most one coroutine, and a coroutine past its commit has left its row in the log.
-/

namespace Conveyance.Phone

open Lib Crypto Protocol Machine PhoneApprovalRuntime
open Conveyance.Core (EndReason)

/-! ## Statements -/

/-- The row of a decision, as opposed to that of a request. -/
def RuntimeEvent.decisionRow : RuntimeEvent → Option LogEvent
  | .committed event => if event.eventType = eventApprovalRequest then none else some event
  | _ => none

/-- An approval response is handed over after the row of the same request and decision is
committed. -/
def LogsFirst (past : List RuntimeEvent) (event : RuntimeEvent) : Prop :=
  ∀ bytes, event = .handed bytes →
    ∀ response, encode WireMessage.intoWriter (.approvalResponse response) = .ok bytes →
      ∃ row, .committed row ∈ past ∧ row.reqId = response.reqId.bytes ∧
        row.eventType = eventType response.decision

/-- The request is the one shown under this instance. -/
def ShownAs (E : RuntimeSetup) (past : List Step) (instanceId : String) (request : RequestHandle) :
    Prop :=
  (∃ p ∈ shown past, p.instanceId = instanceId) ∧
    ∀ p ∈ shown past, p.instanceId = instanceId → request.card E.pcName = .ok p.request

/-- What a run of the runtime leaves behind. -/
structure Accountable (E : RuntimeSetup) (rt : PhoneApprovalRuntime) : Prop where
  signsShown : ∀ instanceId request decision, .signing instanceId request decision ∈ rt.events →
    ShownAs E rt.approvals.past instanceId request
  logsFirst : Always LogsFirst rt.events
  oneDecision : ((rt.events.filterMap RuntimeEvent.decisionRow).map LogEvent.reqId).Nodup

/-! ## One call of the state machine -/

section Calls

variable {sessionId : String} {uuid : Nat → String} {r : Reading} {m m' : Machine} {c : Call}
  {a : ApprovalAction}

/-- A call that takes a request shows it. -/
theorem Machine.Change.takes {card : ApprovalRequestCard} {tier : ApprovalRequiredTier}
    {reasons : List String} {at_ : Int}
    (h : Change sessionId uuid r m (.receive card tier reasons at_) a m')
    (ha : ∀ reason, a ≠ .rejected reason) :
    m'.state.pending = some (m.present sessionId uuid card tier reasons at_) := by
  cases h with
  | present | presentLate => rfl
  | ignore hcall | lapse _ hcall | lose _ hcall => cases hcall
  | reject => exact (ha _ rfl).elim

/-- The user can decide on what was just shown, or on what they could decide on before. -/
theorem Machine.Change.undecided (h : Change sessionId uuid r m c a m') {p' : Pending}
    (hp' : m'.state.undecided = some p') :
    Step.presented ⟨c, r, m, a, m'⟩ = some p' ∨ ∃ p, m.state.undecided = some p ∧ p.Same p' := by
  cases h with
  | present =>
    cases hp'
    exact .inl rfl
  | ignore | reject | sign => exact .inr ⟨p', hp', .refl p'⟩
  | @ask p hstate | @retry p _ _ _ hstate =>
    cases hp'
    exact .inr ⟨p, by rw [hstate]; rfl, .of_status p _⟩
  | @finish p d _ => cases d <;> cases hp'
  | _ => cases hp'

variable {i s i' s' : String} {d d' : ApprovalDecision}

/-- A decision is made on what the user could decide on, or on what came too late; nothing is
left to decide then. -/
theorem Machine.Change.decides (h : Change sessionId uuid r m c (.finalize i s d) m')
    (hclaim : ∀ i s d, c ≠ .beforeFinalize i s d) (hsign : ∀ i s d, c ≠ .beforeSign i s d) :
    m'.state.undecided = none ∧
      ((∃ p, m.state.undecided = some p ∧ p.instanceId = i) ∨
        ∃ p, Step.presented ⟨c, r, m, .finalize i s d, m'⟩ = some p ∧ p.instanceId = i) := by
  cases h with
  | presentLate => exact ⟨rfl, .inr ⟨_, rfl, rfl⟩⟩
  | @approve p hstate | @authenticated p _ hstate => exact ⟨rfl, .inl ⟨p, by rw [hstate]; rfl, rfl⟩⟩
  | @deny p hopen | @lapse _ p hopen => exact ⟨rfl, .inl ⟨p, hopen, rfl⟩⟩
  | lapseClaim | claim => exact (hclaim _ _ _ rfl).elim
  | lapseSign | sign => exact (hsign _ _ _ rfl).elim

theorem Machine.recheck_instance {p : Pending} {next : Machine}
    (h : (m.recheck sessionId r p d next).2 = .finalize i s d') : i = p.instanceId := by
  unfold Machine.recheck Machine.expireNow at h
  split_ifs at h <;> cases h <;> rfl

/-- The rechecks answer for the instance they were asked about. -/
theorem Machine.beforeFinalize_instance
    (h : (m.call sessionId uuid r (.beforeFinalize i s d)).2 = .finalize i' s' d') : i' = i := by
  simp only [Machine.call, Machine.beforeFinalize] at h
  split at h
  · split_ifs at h with hids
    exact (Machine.recheck_instance h).trans ((addressed_iff ..).mp hids.1).1
  · cases h

theorem Machine.beforeSign_instance
    (h : (m.call sessionId uuid r (.beforeSign i s d)).2 = .finalize i' s' d') : i' = i := by
  simp only [Machine.call, Machine.beforeSign] at h
  split at h
  · split_ifs at h with hids
    exact (Machine.recheck_instance h).trans ((addressed_iff ..).mp hids.1).1
  · cases h

end Calls

/-! ## The invariant -/

/-- The bytes are an answer to the request with this id. -/
def Answers (reqId : ReqId) (decision : Decision) (bytes : Bytes) : Prop :=
  ∃ response : ApprovalResponse, response.reqId = reqId ∧ response.decision = decision ∧
    encode WireMessage.intoWriter (.approvalResponse response) = .ok bytes

/-- The collector keeps a request's own summary, and logs no decision. -/
def DispatchPc.Fits : DispatchPc → Prop
  | .readingHistory request summary _ | .appended request summary _ _ =>
    request.object.summary = .ok summary
  | .appending request summary _ _ event =>
    request.object.summary = .ok summary ∧ event.eventType = eventApprovalRequest
  | _ => True

section Fits

variable (E : RuntimeSetup)

/-- The job is about the request shown as `p`, and its row about the decision. -/
structure FinalizeJob.Fits (p : Pending) (decision : ApprovalDecision) (job : FinalizeJob) :
    Prop where
  card : job.request.card E.pcName = .ok p.request
  reqId : job.event.reqId = job.request.object.request.reqId.bytes
  eventType : job.event.eventType = Phone.eventType decision.toRustDecision.toDecision

/-- What a coroutine for `p` has got hold of where it is. -/
def FinalizePc.Fits (events : List RuntimeEvent) (p : Pending) (decision : ApprovalDecision) :
    FinalizePc → Prop
  | .launched | .failing _ | .sending _ | .finished => True
  | .rechecked before => ∀ i s d, before = .finalize i s d → i = p.instanceId
  | .appending job | .staged job _ | .authorized job _ => job.Fits E p decision
  | .signed job _ bytes =>
    job.Fits E p decision ∧
      Answers job.request.object.request.reqId decision.toRustDecision.toDecision bytes
  | .rolledBack _ cause => ∀ action, cause = .expired action → action.instanceId = p.instanceId
  | .committed job bytes =>
    (job.Fits E p decision ∧
      Answers job.request.object.request.reqId decision.toRustDecision.toDecision bytes) ∧
    .committed job.event ∈ events

/-- The row of the coroutine is committed, if it ever is. -/
def FinalizePc.settled : FinalizePc → Bool
  | .committed .. | .sending _ | .finished => true
  | _ => false

/-- The coroutine works for an instance that was shown. -/
def FinalizeCoroutine.Fits (past : List Step) (events : List RuntimeEvent)
    (f : FinalizeCoroutine) : Prop :=
  ∃ p ∈ shown past, p.instanceId = f.action.instanceId ∧ f.pc.Fits E events p f.action.decision

/-- A committed decision is that of a coroutine, and of the request its instance was shown for. -/
def Owned (past : List Step) (finalizers : List FinalizeCoroutine) (row : LogEvent) : Prop :=
  ∃ f ∈ finalizers, f.pc.settled = true ∧
    ∃ p ∈ shown past, p.instanceId = f.action.instanceId ∧
      p.request.requestId = hexEncode row.reqId.1

structure Held (approvals : Log) (current : Option RequestHandle) (collector : DispatchPc)
    (finalizers : List FinalizeCoroutine) (events : List RuntimeEvent) : Prop where
  uuids : E.uuid.Injective
  sound : Sound E.sessionId E.uuid approvals
  aligned : ∀ p request, approvals.machine.state.pending = some p → current = some request →
    request.card E.pcName = .ok p.request
  collects : collector.Fits
  works : ∀ f ∈ finalizers, f.Fits E approvals.past events
  distinct : (finalizers.map fun f => f.action.instanceId).Nodup
  undecided : ∀ p, approvals.machine.state.undecided = some p →
    ∀ f ∈ finalizers, f.action.instanceId ≠ p.instanceId
  signsShown : ∀ i request d, .signing i request d ∈ events →
    ∃ p ∈ shown approvals.past, p.instanceId = i ∧ request.card E.pcName = .ok p.request
  logsFirst : Always LogsFirst events
  owned : ∀ row ∈ events.filterMap RuntimeEvent.decisionRow, Owned approvals.past finalizers row
  oneDecision : ((events.filterMap RuntimeEvent.decisionRow).map LogEvent.reqId).Nodup

/-- The other fields of the runtime may change freely. -/
abbrev Kept (rt : PhoneApprovalRuntime) : Prop :=
  Held E rt.approvals rt.currentRequest rt.collector rt.finalizers rt.events

end Fits

section Kept

variable {E : RuntimeSetup} {rt rt' : PhoneApprovalRuntime} {r : Reading}

variable {p : Pending} {events events' : List RuntimeEvent} {d : ApprovalDecision}
  {past past' : List Step} {f : FinalizeCoroutine} {request : RequestHandle} {c : Call}
  {bytes : Bytes} {job : FinalizeJob} {event : LogEvent}

/-- No two requests are shown under one instance. -/
theorem Kept.shown_inj (h : Kept E rt) {q : Pending} (hp : p ∈ shown rt.approvals.past)
    (hq : q ∈ shown rt.approvals.past) (heq : p.instanceId = q.instanceId) : p = q :=
  List.inj_on_of_nodup_map h.sound.displayed.drawn.1 hp hq heq

/-- The state is the pending request's, as it was shown. -/
theorem Kept.pending_shown (h : Kept E rt) (hp : rt.approvals.machine.state.pending = some p) :
    ∃ q ∈ shown rt.approvals.past, q.instanceId = p.instanceId ∧ q.request = p.request := by
  obtain ⟨q, hq, status, rfl⟩ := h.sound.standing.shown hp
  exact ⟨q, hq, rfl, rfl⟩

theorem FinalizePc.Fits.mono {pc : FinalizePc} (hsub : events ⊆ events')
    (h : pc.Fits E events p d) : pc.Fits E events' p d := by
  cases pc with
  | committed job bytes => exact ⟨h.1, hsub h.2⟩
  | _ => exact h

theorem FinalizeCoroutine.Fits.mono (hpast : shown past ⊆ shown past') (hevents : events ⊆ events')
    (h : f.Fits E past events) : f.Fits E past' events' := by
  obtain ⟨p, hp, hid, hfits⟩ := h
  exact ⟨p, hpast hp, hid, hfits.mono hevents⟩

theorem Owned.mono {finalizers finalizers' : List FinalizeCoroutine} {row : LogEvent}
    (hpast : shown past ⊆ shown past') (hfinalizers : ∀ f ∈ finalizers, f.pc.settled = true →
      ∃ f' ∈ finalizers', f'.pc.settled = true ∧ f'.action.instanceId = f.action.instanceId)
    (h : Owned past finalizers row) : Owned past' finalizers' row := by
  obtain ⟨f, hf, hsettled, p, hp, hid, hreq⟩ := h
  obtain ⟨f', hf', hsettled', hid'⟩ := hfinalizers f hf hsettled
  exact ⟨f', hf', hsettled', p, hpast hp, hid.trans hid'.symm, hreq⟩

theorem Kept.goto (h : Kept E rt) {collector : DispatchPc} (hfits : collector.Fits) :
    Kept E (rt.goto collector) :=
  { h with collects := hfits }

theorem Kept.unlock (h : Kept E rt) : Kept E rt.unlock := h

theorem Kept.drop (h : Kept E rt) : Kept E { rt with currentRequest := none } :=
  { h with aligned := by simp }

theorem PhoneApprovalRuntime.forget_current (h : rt.currentRequest = some request) :
    rt.forget request = { rt with currentRequest := none } := by
  simp [forget, h]

theorem Kept.forget (h : Kept E rt) (request : RequestHandle) : Kept E (rt.forget request) := by
  unfold PhoneApprovalRuntime.forget
  split
  · exact h.drop
  · exact h

theorem Kept.release (h : Kept E rt) : Kept E rt.releaseAfterSessionEnd := by
  unfold releaseAfterSessionEnd
  split
  · exact h
  · exact h.drop

/-! ### Calls -/

theorem shown_add (log : Log) (c : Call × Reading) :
    shown log.past ⊆ shown (log.add E.sessionId E.uuid c).past := by
  intro p hp
  rw [Log.add, shown_snoc]
  exact List.mem_append_left _ hp

section

variable (h : Kept E rt)

include h

/-- A call shows a request of an instance no coroutine works for. -/
theorem Kept.fresh {a : ApprovalAction}
    {m' : Machine} (hc : Change E.sessionId E.uuid r rt.approvals.machine c a m')
    (hp : Step.presented ⟨c, r, rt.approvals.machine, a, m'⟩ = some p) :
    ∀ f ∈ rt.finalizers, f.action.instanceId ≠ p.instanceId := by
  intro f hf heq
  obtain ⟨q, hq, hid, -⟩ := h.works f hf
  obtain ⟨k, hk, hdrawn⟩ := h.sound.displayed.drawn.2 _ (List.mem_map_of_mem hq)
  rcases hc.shows with ⟨card, tier, reasons, at_, -, -, -, -, hpres, -⟩ | ⟨hpres, -⟩
  · obtain rfl := Option.some.inj (hp.symm.trans hpres)
    have huuids : E.uuid k = E.uuid rt.approvals.machine.draws := hdrawn.symm.trans (hid.trans heq)
    exact absurd (h.uuids huuids) (Nat.ne_of_lt hk)
  · rw [hpres] at hp
    cases hp

/-- A call keeps everything, if the request held afterwards is that of the pending card. -/
theorem Kept.called (c : Call) (r : Reading) (current : Option RequestHandle)
    (haligned : ∀ p request,
      (rt.approvals.machine.call E.sessionId E.uuid r c).1.state.pending = some p →
      current = some request → request.card E.pcName = .ok p.request) :
    Kept E ({ rt with currentRequest := current }.call E c r) := by
  have hc := @call_change E.sessionId E.uuid r rt.approvals.machine c
  have hshown := shown_add (E := E) rt.approvals (c, r)
  refine
    { h with
      sound := h.sound.add h.uuids (c, r)
      aligned := haligned
      works := fun f hf => (h.works f hf).mono hshown (List.Subset.refl _)
      undecided := fun p' hp' f hf => ?_
      signsShown := fun i request d hsigning => ?_
      owned := fun row hrow => (h.owned row hrow).mono hshown fun f hf hs => ⟨f, hf, hs, rfl⟩ }
  · rcases hc.undecided hp' with hpresented | ⟨p, hp, status, rfl⟩
    · exact h.fresh hc hpresented f hf
    · exact h.undecided p hp f hf
  · obtain ⟨p, hp, hid, hcard⟩ := h.signsShown i request d hsigning
    exact ⟨p, hshown hp, hid, hcard⟩

theorem Kept.call (hc : c.isReceive = false) (r : Reading) : Kept E (rt.call E c r) := by
  refine h.called c r rt.currentRequest fun p' request hp' hrequest => ?_
  rcases (@call_change E.sessionId E.uuid r rt.approvals.machine c).shows with
    ⟨_, _, _, _, -, -, -, -, hpres, -⟩ | ⟨-, -, -, hpend⟩
  · rw [Step.presented_other hc] at hpres
    cases hpres
  · obtain ⟨p, hp, status, rfl⟩ := hpend p' hp'
    exact h.aligned p request hp hrequest

/-! ### Events -/

/-- An event that is neither a row nor a signature, and hands nothing over unlogged. -/
theorem Kept.emit {event : RuntimeEvent} (hrow : event.decisionRow = none)
    (hsigning : ∀ i request d, event = .signing i request d →
      ∃ p ∈ shown rt.approvals.past, p.instanceId = i ∧ request.card E.pcName = .ok p.request)
    (hlogged : LogsFirst rt.events event) : Kept E (rt.emit event) := by
  have hsub : rt.events ⊆ rt.events ++ [event] := List.subset_append_left _ _
  have hrows : (rt.events ++ [event]).filterMap RuntimeEvent.decisionRow =
      rt.events.filterMap RuntimeEvent.decisionRow := by
    rw [List.filterMap_append]
    simp [hrow]
  exact
    { h with
      works := fun f hf => (h.works f hf).mono (List.Subset.refl _) hsub
      signsShown := fun i request d hmem => by
        rcases List.mem_append.mp hmem with hold | hnew
        · exact h.signsShown i request d hold
        · exact hsigning i request d (List.mem_singleton.mp hnew).symm
      logsFirst := always_snoc.mpr ⟨h.logsFirst, hlogged⟩
      owned := by
        simp only [PhoneApprovalRuntime.emit, hrows]
        exact h.owned
      oneDecision := by
        simp only [PhoneApprovalRuntime.emit, hrows]
        exact h.oneDecision }

theorem Kept.endNow (reason : EndReason) : Kept E (rt.emit (.endNow reason)) := by
  refine h.emit rfl (fun _ _ _ heq => ?_) fun _ heq => ?_
  · cases heq
  · cases heq

theorem Kept.failProtocol (r : Reading) : Kept E (rt.failProtocol E r) :=
  (h.call rfl r).endNow _

theorem Kept.idleFail (r : Reading) : Kept E ((rt.goto .idle).failProtocol E r) := by
  have hidle : Kept E (rt.goto .idle) := h.goto trivial
  exact hidle.failProtocol r

/-- Another message than an approval response is handed over. -/
theorem Kept.handOther {m : WireMessage} (henc : encode WireMessage.intoWriter m = .ok bytes)
    (htag : m.entries.1 ≠ "approval_response") : Kept E (rt.emit (.handed bytes)) := by
  refine h.emit rfl (fun _ _ _ heq => ?_) ?_
  · cases heq
  · rintro _ ⟨⟩ response hresponse
    obtain ⟨-, hbytes, -⟩ := encode_eq_ok.mp henc
    obtain ⟨-, hbytes', -⟩ := encode_eq_ok.mp hresponse
    exact absurd (WireMessage.tag_inj (hbytes.symm.trans hbytes')).1 htag

/-! ### Coroutines -/

/-- A coroutine goes on for the same instance. -/
theorem Kept.set {k : Nat} {e : FinalizeCoroutine}
    (hf : rt.finalizers[k]? = some f) (hid : e.action.instanceId = f.action.instanceId)
    (hfits : ∀ p ∈ shown rt.approvals.past, p.instanceId = f.action.instanceId →
      f.pc.Fits E rt.events p f.action.decision → e.pc.Fits E rt.events p e.action.decision)
    (hsettled : f.pc.settled = true → e.pc.settled = true) :
    Kept E { rt with finalizers := rt.finalizers.set k e } := by
  have hmem : f ∈ rt.finalizers := List.mem_of_getElem? hf
  obtain ⟨hk, hfk⟩ := List.getElem?_eq_some_iff.mp hf
  refine
    { h with
      works := fun g hg => ?_
      distinct := ?_
      undecided := fun p hp g hg => ?_
      owned := fun row hrow =>
        (h.owned row hrow).mono (List.Subset.refl _) fun g hg hsettledg => ?_ }
  · rcases List.mem_or_eq_of_mem_set hg with hold | rfl
    · exact h.works g hold
    · obtain ⟨p, hp, hpid, hpfits⟩ := h.works f hmem
      exact ⟨p, hp, hpid.trans hid.symm, hfits p hp hpid hpfits⟩
  · have hmap : (rt.finalizers.set k e).map (fun g => g.action.instanceId) =
        rt.finalizers.map fun g => g.action.instanceId := by
      refine List.ext_getElem? fun j => ?_
      rw [List.getElem?_map, List.getElem?_map, List.getElem?_set]
      split_ifs with hj
      · subst hj
        rw [hf]
        exact congrArg some hid
      · rfl
    rw [hmap]
    exact h.distinct
  · rcases List.mem_or_eq_of_mem_set hg with hold | rfl
    · exact h.undecided p hp g hold
    · rw [hid]
      exact h.undecided p hp f hmem
  · obtain ⟨j, hj⟩ := List.mem_iff_getElem?.mp hg
    by_cases hjk : k = j
    · subst hjk
      obtain rfl := Option.some.inj (hf.symm.trans hj)
      exact ⟨e, List.mem_set hk e, hsettled hsettledg, hid⟩
    · refine ⟨g, List.mem_iff_getElem?.mpr ⟨j, ?_⟩, hsettledg, rfl⟩
      rw [List.getElem?_set_ne hjk]
      exact hj

/-- A coroutine is launched for an instance that has none, and that the user can no longer
decide on. -/
theorem Kept.launch (action : FinalizeAction)
    (hshown : ∃ p ∈ shown rt.approvals.past, p.instanceId = action.instanceId)
    (hnew : ∀ f ∈ rt.finalizers, f.action.instanceId ≠ action.instanceId)
    (hundecided : rt.approvals.machine.state.undecided = none) :
    Kept E { rt with finalizers := rt.finalizers ++ [⟨action, .launched⟩] } := by
  refine
    { h with
      works := fun f hf => ?_
      distinct := ?_
      undecided := fun p hp => ?_
      owned := fun row hrow => (h.owned row hrow).mono (List.Subset.refl _) fun f hf hsettled =>
        ⟨f, List.mem_append_left _ hf, hsettled, rfl⟩ }
  · rcases List.mem_append.mp hf with hold | hlast
    · exact h.works f hold
    · obtain rfl := List.mem_singleton.mp hlast
      obtain ⟨p, hp, hid⟩ := hshown
      exact ⟨p, hp, hid, trivial⟩
  · show (List.map (fun f : FinalizeCoroutine => f.action.instanceId)
      (rt.finalizers ++ [⟨action, .launched⟩])).Nodup
    rw [List.map_append, List.nodup_append']
    refine ⟨h.distinct, List.nodup_singleton _, ?_⟩
    rw [List.map_singleton, List.disjoint_singleton]
    intro hmem
    obtain ⟨f, hf, heq⟩ := List.mem_map.mp hmem
    exact hnew f hf heq
  · have hnone : rt.approvals.machine.state.undecided = some p := hp
    rw [hundecided] at hnone
    cases hnone

/-- What the state machine answers to a callback or to a request is launched. -/
theorem Kept.handled
    (hclaim : ∀ i s d, c ≠ .beforeFinalize i s d) (hsign : ∀ i s d, c ≠ .beforeSign i s d)
    (hafter : Kept E rt') (happrovals : rt'.approvals = rt.approvals.add E.sessionId E.uuid (c, r))
    (hfinalizers : rt'.finalizers = rt.finalizers) :
    Kept E (rt'.handleAction E r (rt.answer E c r)) := by
  have hc := @call_change E.sessionId E.uuid r rt.approvals.machine c
  cases haction : rt.answer E c r with
  | ignored | authenticate => exact hafter
  | rejected _ => exact hafter.failProtocol r
  | finalize i s d =>
    unfold handleAction
    split_ifs
    · exact hafter
    · rw [show (rt.approvals.machine.call E.sessionId E.uuid r c).2 = _ from haction] at hc
      obtain ⟨hundecided, hfrom⟩ := hc.decides hclaim hsign
      refine hafter.launch ⟨i, s, d⟩ ?_ ?_ (by rw [happrovals]; exact hundecided)
      · rw [happrovals]
        rcases hfrom with ⟨p, hp, rfl⟩ | ⟨p, hp, rfl⟩
        · obtain ⟨q, hq, hid, -⟩ := h.pending_shown (ApprovalState.pending_of_undecided hp)
          exact ⟨q, shown_add _ _ hq, hid⟩
        · refine ⟨p, ?_, rfl⟩
          have haction' : (rt.approvals.machine.call E.sessionId E.uuid r c).2 = _ := haction
          rw [Log.add, shown_snoc, haction', hp]
          exact List.mem_append_right _ List.mem_cons_self
      · rw [hfinalizers]
        rcases hfrom with ⟨p, hp, rfl⟩ | ⟨p, hp, rfl⟩
        · exact h.undecided p hp
        · exact h.fresh hc hp

/-! ### The moves of the collector -/

theorem Kept.dispatch (plaintext : Bytes) (receivedAtElapsedMs : Int) (sinceEpoch : Option UInt64) :
    Kept E (rt.dispatch E plaintext receivedAtElapsedMs sinceEpoch r) := by
  unfold PhoneApprovalRuntime.dispatch
  split
  · next protocol _ _ =>
    have hnow : Kept E { rt with protocol } := h
    exact hnow.failProtocol r
  · next protocol inbound _ =>
    have hnow : Kept E { rt with protocol } := h
    split
    · next object _ =>
      split
      · exact hnow.failProtocol r
      · next summary hsummary => exact { h with collects := hsummary }
    · exact (hnow.call rfl r).endNow _
    · split
      · exact hnow.failProtocol r
      · next pong hpong =>
        obtain ⟨reqId, timestamp, henc⟩ := Ffi.encodePong_ok hpong
        have hanswering : Kept E (.goto _ .answering) := hnow.goto trivial
        exact hanswering.handOther henc (by simp [WireMessage.entries])
    · exact hnow.goto trivial
    · exact hnow.failProtocol r

theorem Kept.evaluate
    {summary : Ffi.ApprovalRequestSummary} (hsummary : request.object.summary = .ok summary)
    (receivedAtElapsedMs : Int) (destinations : Option (List ApprovedDestination))
    (timestamp : Int64) :
    Kept E (rt.evaluate E request summary receivedAtElapsedMs destinations timestamp r) := by
  unfold PhoneApprovalRuntime.evaluate
  split
  · exact h.goto ⟨hsummary, rfl⟩
  · exact h.idleFail r

/-- The one place where a request is held before the state machine has taken it. -/
theorem Kept.present
    {summary : Ffi.ApprovalRequestSummary} (hsummary : request.object.summary = .ok summary)
    (tier : Ffi.TierDecision) (receivedAtElapsedMs : Int) :
    Kept E (rt.present E request summary tier receivedAtElapsedMs r) := by
  have hcard : request.card E.pcName = .ok (.ofSummary E.pcName summary) := by
    rw [RequestHandle.card, hsummary]
    rfl
  unfold PhoneApprovalRuntime.present
  split
  · exact h.idleFail r
  · next required _ =>
    generalize hcall : Call.receive (.ofSummary E.pcName summary) required tier.reasons
      receivedAtElapsedMs = c
    have hc := @call_change E.sessionId E.uuid r rt.approvals.machine c
    -- taken, the card is made from the request; refused, the request is dropped again
    have htaken : (∀ reason, rt.answer E c r ≠ .rejected reason) →
        Kept E ({ rt with currentRequest := some request }.call E c r) := by
      intro haccepted
      refine h.called c r _ fun p q hp hq => ?_
      subst hcall
      obtain rfl := Option.some.inj hq
      rw [hc.takes haccepted] at hp
      obtain rfl := Option.some.inj hp
      exact hcard
    dsimp only
    split
    · have hdropped := h.called c r none fun _ _ _ hnone => by cases hnone
      rw [forget_current (by rfl)]
      exact hdropped.goto trivial
    · next hanswer => exact (htaken (by simp [hanswer])).goto trivial
    · next hrejected _ =>
      refine h.handled ?_ ?_ ((htaken fun reason heq => hrejected reason heq).goto trivial)
        rfl rfl
      · subst hcall
        simp
      · subst hcall
        simp

theorem Kept.proceed : Kept E (rt.proceed E r) := by
  unfold PhoneApprovalRuntime.proceed
  split
  · split
    · exact { h with collects := trivial }
    · exact (h.forget _).goto trivial
  · exact h.idleFail r
  · exact h

theorem Kept.sendServices (inbound : Ffi.DecodedApprovalInbound) (names : Option (List String)) :
    Kept E (rt.sendServices E inbound names r) := by
  unfold PhoneApprovalRuntime.sendServices
  split
  · next response hresponse =>
    obtain ⟨services, -, hencode⟩ := Option.map_eq_some_iff.mp hresponse
    obtain ⟨reqId, henc⟩ := Ffi.encodeListServicesResponse_ok hencode
    have hanswering : Kept E (rt.goto .answering) := h.goto trivial
    exact hanswering.handOther henc (by simp [WireMessage.entries])
  · exact h.idleFail r

theorem Kept.callback (hreceive : c.isReceive = false)
    (hclaim : ∀ i s d, c ≠ .beforeFinalize i s d) (hsign : ∀ i s d, c ≠ .beforeSign i s d) :
    Kept E (rt.callback E c r) :=
  h.handled hclaim hsign (h.call hreceive r) rfl rfl

end

/-! ### The moves of a coroutine -/

variable {k : Nat} {f : FinalizeCoroutine}

/-- The card's own id names the request it was made from. -/
theorem RequestHandle.card_requestId {pcName : String} {card : ApprovalRequestCard}
    (h : request.card pcName = .ok card) : card.requestId = request.object.request.reqId.hex := by
  unfold RequestHandle.card at h
  cases hsummary : request.object.summary with
  | error e =>
    rw [hsummary] at h
    cases h
  | ok summary =>
  rw [hsummary] at h
  cases h
  unfold Ffi.ValidatedApprovalRequest.summary at hsummary
  obtain ⟨_, -, hsummary⟩ := bind_eq_ok.mp hsummary
  obtain ⟨_, -, hsummary⟩ := bind_eq_ok.mp hsummary
  cases hsummary
  rfl

theorem PhoneApprovalRuntime.prepare_fits {timestamp : Int64}
    (hcard : request.card E.pcName = .ok p.request)
    (h : prepare E request p d timestamp = some job) : job.Fits E p d := by
  unfold prepare at h
  obtain ⟨payload, -, h⟩ := Option.bind_eq_some_iff.mp h
  obtain ⟨reqId, hreqId, h⟩ := Option.bind_eq_some_iff.mp h
  cases h
  refine ⟨hcard, ?_, rfl⟩
  rw [hexToBytes, RequestHandle.card_requestId hcard, ReqId.hex, hexDecodeArray_hexEncode] at hreqId
  exact (Option.some.inj hreqId).symm

/-- The row of a decision, of a coroutine past its commit and of an id not yet decided. -/
theorem Kept.record (h : Kept E rt)
    (hdecision : RuntimeEvent.decisionRow (.committed event) = some event)
    (howned : Owned rt.approvals.past rt.finalizers event)
    (hnew : ∀ row ∈ rt.events.filterMap RuntimeEvent.decisionRow, row.reqId ≠ event.reqId) :
    Kept E (rt.emit (.committed event)) := by
  have hrows : (rt.events ++ [RuntimeEvent.committed event]).filterMap RuntimeEvent.decisionRow =
      rt.events.filterMap RuntimeEvent.decisionRow ++ [event] := by
    rw [List.filterMap_append]
    simp [hdecision]
  refine
    { h with
      works := fun f hf => (h.works f hf).mono (List.Subset.refl _) (List.subset_append_left _ _)
      signsShown := fun i request d hmem => ?_
      logsFirst := always_snoc.mpr ⟨h.logsFirst, fun _ heq => by cases heq⟩
      owned := fun row hrow => ?_
      oneDecision := ?_ }
  · rcases List.mem_append.mp hmem with hold | hlast
    · exact h.signsShown i request d hold
    · cases List.mem_singleton.mp hlast
  · have hmem : row ∈ rt.events.filterMap RuntimeEvent.decisionRow ++ [event] := hrows ▸ hrow
    rcases List.mem_append.mp hmem with hold | hlast
    · exact h.owned row hold
    · rw [List.mem_singleton.mp hlast]
      exact howned
  · show (((rt.events ++ [RuntimeEvent.committed event]).filterMap
      RuntimeEvent.decisionRow).map LogEvent.reqId).Nodup
    rw [hrows, List.map_append, List.nodup_append']
    refine ⟨h.oneDecision, List.nodup_singleton _, ?_⟩
    rw [List.map_singleton, List.disjoint_singleton]
    intro hmem
    obtain ⟨row, hrow, heq⟩ := List.mem_map.mp hmem
    exact hnew row hrow heq

/-- A coroutine that has not committed has the only instance of its request id. -/
theorem Kept.undecidedId (h : Kept E rt) (hf : f ∈ rt.finalizers) (hopen : f.pc.settled = false)
    (hp : p ∈ shown rt.approvals.past) (hpid : p.instanceId = f.action.instanceId)
    (hreq : p.request.requestId = hexEncode event.reqId.1) :
    ∀ row ∈ rt.events.filterMap RuntimeEvent.decisionRow, row.reqId ≠ event.reqId := by
  intro row hrow heq
  obtain ⟨g, hg, hsettled, q, hq, hqid, hqreq⟩ := h.owned row hrow
  have hqp : q = p :=
    List.inj_on_of_nodup_map h.sound.displayed.once hq hp (by rw [hqreq, heq, hreq])
  have hgf : g = f :=
    List.inj_on_of_nodup_map h.distinct hg hf (by rw [← hqid, hqp, hpid])
  rw [hgf, hopen] at hsettled
  cases hsettled

theorem decisionRow_eventType {d : Decision} (h : event.eventType = eventType d) :
    RuntimeEvent.decisionRow (.committed event) = some event := by
  rw [RuntimeEvent.decisionRow, if_neg]
  rw [h]
  cases d <;> decide

@[simp] theorem PhoneApprovalRuntime.finalizers_forget (request : RequestHandle) :
    (rt.forget request).finalizers = rt.finalizers := by
  unfold forget
  split <;> rfl

variable (h : Kept E rt) (hf : rt.finalizers[k]? = some f)

include h hf

theorem Kept.finish : Kept E (rt.move k f .finished) :=
  h.set hf rfl (fun _ _ _ _ => trivial) fun _ => rfl

/-- Short of its commit, the coroutine goes where what it has got hold of fits. -/
theorem Kept.advance {pc pc' : FinalizePc} (hpc : f.pc = pc) (hopen : pc.settled = false)
    (hfits : ∀ p ∈ shown rt.approvals.past, p.instanceId = f.action.instanceId →
      pc.Fits E rt.events p f.action.decision → pc'.Fits E rt.events p f.action.decision) :
    Kept E (rt.move k f pc') := by
  subst hpc
  exact h.set hf rfl hfits (by simp [hopen])

/-- A transaction that is not rolled back for an expiry names no instance. -/
theorem Kept.rollBack {pc : FinalizePc} (hpc : f.pc = pc)
    (hopen : pc.settled = false) (job : FinalizeJob) {cause : Rollback}
    (hcause : ∀ action, cause ≠ .expired action) : Kept E (rt.move k f (.rolledBack job cause)) :=
  h.advance hf hpc hopen fun _ _ _ _ action heq => absurd heq (hcause action)

/-- `finalize` is entered, or entered again for what has expired. -/
theorem Kept.finalize {action : FinalizeAction}
    (hid : action.instanceId = f.action.instanceId) (hopen : f.pc.settled = false) :
    Kept E (rt.finalize E k action r) := by
  refine (h.call rfl r).set hf hid (fun p _ hp _ => ?_) (by simp [hopen])
  intro i s d hanswer
  exact (Machine.beforeFinalize_instance hanswer).trans (hid.trans hp.symm)

theorem Kept.claim {before : ApprovalAction} (hpc : f.pc = .rechecked before)
    (active : Bool) (timestamp : Int64) : Kept E (rt.claim E k f before active timestamp r) := by
  unfold PhoneApprovalRuntime.claim
  split
  · next i s d =>
    split_ifs with hdecision
    · -- expired meanwhile: the answer is for the same instance
      obtain ⟨p, hp, hpid, hfits⟩ := h.works f (List.mem_of_getElem? hf)
      rw [hpc] at hfits
      exact h.finalize hf ((hfits i s d rfl).trans hpid) (by rw [hpc]; rfl)
    · split
      · next request hcurrent =>
        split
        · next p _ hstate =>
          have hpending : rt.approvals.machine.state.pending = some p := by rw [hstate]; rfl
          have hcard := h.aligned p request hpending hcurrent
          split_ifs with hother
          · exact h.finish hf
          · split
            · exact h.advance hf hpc rfl fun _ _ _ _ => trivial
            · next job hjob =>
              refine h.advance hf hpc rfl fun q hq hqid _ => ?_
              obtain ⟨w, hw, hwid, hwreq⟩ := h.pending_shown hpending
              have hsame : w = q :=
                h.shown_inj hw hq (hwid.trans ((not_not.mp hother).trans hqid.symm))
              have hfits := prepare_fits hcard hjob
              refine ⟨?_, hfits.reqId, hfits.eventType⟩
              rw [← hsame, hwreq]
              exact hfits.card
        · exact h.finish hf
      · have hlost : Kept E (rt.call E .sessionLost r) := h.call rfl r
        exact hlost.finish hf
  · exact h.finish hf

theorem Kept.failFinalization (request : RequestHandle) :
    Kept E (rt.failFinalization E k f request r) := by
  have hfailed := ((h.call (c := .failFinalization f.action.instanceId f.action.sessionId
    safeApprovalFailure) rfl r).forget request).endNow .protocolViolation
  refine hfailed.finish ?_
  show (PhoneApprovalRuntime.forget _ request).finalizers[k]? = some f
  rw [finalizers_forget]
  exact hf

theorem Kept.authorize {row : ChainRow} (hpc : f.pc = .staged job row) :
    Kept E (rt.authorize E k f job row r) := by
  unfold PhoneApprovalRuntime.authorize
  dsimp only
  have hnow := h.call (c := .beforeSign f.action.instanceId f.action.sessionId
    f.action.decision) rfl r
  split
  · next i s d hanswer =>
    split_ifs with hdecision
    · refine hnow.advance hf hpc rfl fun p _ hpid _ => ?_
      rintro _ ⟨⟩
      exact (Machine.beforeSign_instance hanswer).trans hpid.symm
    · exact hnow.advance hf hpc rfl fun _ _ _ hfits => hfits
  · exact hnow.rollBack hf hpc rfl job (by simp)

theorem Kept.sign {row : ChainRow} (hpc : f.pc = .authorized job row)
    (identity : Ffi.UnlockedIdentity) (readings : Readings) :
    Kept E (rt.sign k f job row identity readings) := by
  obtain ⟨p, hp, hpid, hfits⟩ := h.works f (List.mem_of_getElem? hf)
  rw [hpc] at hfits
  have hsigned : ∀ protocol, Kept E ({ rt with protocol }.emit
      (.signing f.action.instanceId job.request f.action.decision)) := by
    intro protocol
    have hnow : Kept E { rt with protocol } := h
    refine hnow.emit rfl ?_ (fun _ heq => ?_)
    · rintro _ _ _ ⟨⟩
      exact ⟨p, hp, hpid, hfits.card⟩
    · cases heq
  unfold PhoneApprovalRuntime.sign
  dsimp only
  split
  · exact (hsigned _).rollBack hf hpc rfl job (by simp)
  · next bytes hbytes =>
    exact (hsigned _).advance hf hpc rfl fun _ _ _ hq => ⟨hq, Ffi.signedResponse_ok hbytes⟩

theorem Kept.commit {row : ChainRow} (hpc : f.pc = .signed job row bytes) :
    Kept E ((rt.emit (.committed job.event)).move k f (.committed job bytes)) := by
  have hopen : f.pc.settled = false := by rw [hpc]; rfl
  have hmem : f ∈ rt.finalizers := List.mem_of_getElem? hf
  obtain ⟨hk, -⟩ := List.getElem?_eq_some_iff.mp hf
  obtain ⟨p, hp, hpid, hfits⟩ := h.works f hmem
  rw [hpc] at hfits
  have hreq : p.request.requestId = hexEncode job.event.reqId.1 := by
    rw [RequestHandle.card_requestId hfits.1.card, hfits.1.reqId]
    rfl
  -- the coroutine is counted as settled first, then the row is its own
  have hrecorded : Kept E ((rt.move k f .finished).emit (.committed job.event)) := by
    refine (h.finish hf).record (decisionRow_eventType hfits.1.eventType) ?_
      (h.undecidedId hmem hopen hp hpid hreq)
    exact ⟨{ f with pc := .finished }, List.mem_set hk _, rfl, p, hp, hpid, hreq⟩
  have hset := hrecorded.set (e := { f with pc := .committed job bytes })
    (List.getElem?_set_self hk) rfl (fun q hq hqid _ => ?_) fun _ => rfl
  · simpa only [PhoneApprovalRuntime.move, PhoneApprovalRuntime.emit, List.set_set] using hset
  · obtain rfl := h.shown_inj hq hp (hqid.trans hpid.symm)
    exact ⟨hfits, List.mem_append_right _ List.mem_cons_self⟩

theorem Kept.hand (hpc : f.pc = .committed job bytes) :
    Kept E ((rt.emit (.handed bytes)).move k f (.sending job)) := by
  obtain ⟨p, hp, hpid, hfits⟩ := h.works f (List.mem_of_getElem? hf)
  rw [hpc] at hfits
  obtain ⟨⟨hjob, response, hid, hdecision, henc⟩, hlogged⟩ := hfits
  have hhanded : Kept E (rt.emit (.handed bytes)) := by
    refine h.emit rfl (fun _ _ _ heq => ?_) ?_
    · cases heq
    · rintro _ ⟨⟩ response' henc'
      obtain ⟨-, hbytes, -⟩ := encode_eq_ok.mp henc
      obtain ⟨-, hbytes', -⟩ := encode_eq_ok.mp henc'
      obtain ⟨hid', hdecision'⟩ := ApprovalResponse.write_inj (hbytes.symm.trans hbytes')
      refine ⟨job.event, hlogged, ?_, ?_⟩
      · rw [hjob.reqId, ← hid', hid]
      · rw [hjob.eventType, ← hdecision', hdecision]
  exact hhanded.set hf rfl (fun _ _ _ _ => trivial) fun _ => rfl

theorem Kept.resume : Kept E (rt.resume E k f r) := by
  unfold PhoneApprovalRuntime.resume
  split
  · next job action hpc =>
    obtain ⟨p, hp, hpid, hfits⟩ := h.works f (List.mem_of_getElem? hf)
    rw [hpc] at hfits
    exact h.unlock.finalize hf ((hfits action rfl).trans hpid) (by rw [hpc]; rfl)
  · next job hpc =>
    refine (h.unlock.forget job.request).finish ?_
    rw [finalizers_forget]
    exact hf
  · exact h.unlock.failFinalization hf _
  · next job bytes hpc => exact h.unlock.hand hf hpc
  · exact h

theorem Kept.completeFinalization (job : FinalizeJob) :
    Kept E (rt.completeFinalization E k f job r) := by
  have hcompleted := (h.call (c := .completeFinalization f.action.instanceId
    f.action.sessionId f.action.decision true) rfl r).forget job.request
  refine hcompleted.finish ?_
  rw [finalizers_forget]
  exact hf

theorem Kept.cancel : Kept E (rt.cancel E k f r) := by
  have hlost : Kept E (rt.call E .sessionLost r) := h.call rfl r
  have hunlocked : Kept E (rt.unlock.call E .sessionLost r) := h.unlock.call rfl r
  unfold PhoneApprovalRuntime.cancel
  split
  · exact hlost.finish hf
  · exact hlost.finish hf
  · exact hunlocked.finish hf
  · exact hunlocked.finish hf
  · exact hunlocked.finish hf
  · exact h

/-- One move of a `finalize` coroutine. -/
theorem Kept.turn (m : RuntimeMove) : Kept E (rt.turn E k f r m) := by
  unfold PhoneApprovalRuntime.turn
  cases m with
  | begin _ =>
    dsimp only
    split
    · next hpc =>
      split_ifs
      · exact h.finish hf
      · exact h.finalize hf rfl (by rw [hpc]; rfl)
    · exact h
  | claim _ active timestamp =>
    dsimp only
    split
    · next before hpc => exact h.claim hf hpc active timestamp
    · exact h
  | abandon _ =>
    dsimp only
    split
    · exact h.failFinalization hf _
    · next job row hpc => exact h.rollBack hf hpc rfl job (by simp)
    · exact h
  | stage _ =>
    dsimp only
    split
    · next job hpc =>
      split_ifs
      · exact h
      · have hlocked : Kept E { rt with
            approvalLog := { rt.approvalLog with locked := true } } := h
        exact hlocked.advance hf hpc rfl fun _ _ _ hfits => hfits
    · exact h
  | authorize _ =>
    dsimp only
    split
    · next job row hpc => exact h.authorize hf hpc
    · exact h
  | sign _ identity readings =>
    dsimp only
    split
    · next job row identity hpc => exact h.sign hf hpc identity readings
    · next job row hpc => exact h.rollBack hf hpc rfl job (by simp)
    · exact h
  | commit _ stored =>
    dsimp only
    split
    · next job row bytes hpc =>
      split_ifs
      · exact h.commit hf hpc
      · exact h.rollBack hf hpc rfl job (by simp)
    · exact h
  | resume _ => exact h.resume hf
  | sent _ delivered =>
    dsimp only
    split
    · next job _ =>
      split_ifs
      · exact h.completeFinalization hf job
      · exact h.failFinalization hf _
    · exact h
  | cancel _ => exact h.cancel hf
  | _ => exact h

omit h hf

theorem Kept.turnOf (h : Kept E rt) (k : Nat) (m : RuntimeMove) : Kept E (rt.turnOf E k r m) := by
  unfold PhoneApprovalRuntime.turnOf
  split
  · exact h
  · next f hf => exact h.turn hf m

/-! ### Every move -/

theorem Kept.step (h : Kept E rt) (m : RuntimeMove) (r : Reading) : Kept E (rt.step E m r) := by
  have hcollects := h.collects
  unfold PhoneApprovalRuntime.step
  cases m with
  | inbound plaintext receivedAtElapsedMs sinceEpoch =>
    dsimp only
    split
    · exact h.dispatch _ _ _
    · exact h
  | historyRead destinations timestamp =>
    dsimp only
    split
    · next request summary receivedAtElapsedMs hpc =>
      rw [hpc] at hcollects
      exact h.evaluate hcollects _ _ _
    · exact h
  | commitRequest =>
    dsimp only
    split
    · next request summary tier receivedAtElapsedMs event hpc =>
      rw [hpc] at hcollects
      split_ifs
      · exact h
      · have hcommitted : Kept E (rt.emit (.committed event)) := by
          refine h.emit (if_pos hcollects.2) (fun _ _ _ heq => ?_) fun _ heq => ?_
          · cases heq
          · cases heq
        exact { hcommitted with collects := hcollects.1 }
    · exact h
  | resumeRequest =>
    dsimp only
    split
    · next request summary tier receivedAtElapsedMs hpc =>
      rw [hpc] at hcollects
      exact h.unlock.present hcollects _ _
    · exact h
  | failRequest =>
    dsimp only
    split
    · exact h.idleFail r
    · exact h
  | proceed => exact h.proceed
  | services names =>
    dsimp only
    split
    · exact h.sendServices _ _
    · exact h
  | answered sent =>
    dsimp only
    split
    · split_ifs
      · exact h.goto trivial
      · exact h.idleFail r
    · exact h
  | stopCollecting =>
    dsimp only
    split
    · exact (h.unlock.call rfl r).release.goto trivial
    · exact (h.call rfl r).release.goto trivial
  | approve | deny | completeAuthentication => exact h.callback rfl (by simp) (by simp)
  | timer instanceId =>
    dsimp only
    split_ifs
    · have hfired : Kept E { rt with timers := rt.timers.erase instanceId } := h
      exact hfired.callback rfl (by simp) (by simp)
    · exact h
  | sessionEnded => exact (h.call rfl r).release
  | close active =>
    dsimp only
    split_ifs
    · exact ((h.endNow _).call rfl r).release
    · exact (h.call rfl r).release
  | begin k | claim k | abandon k | stage k | authorize k | sign k | commit k | resume k
  | sent k | cancel k => exact h.turnOf k _

theorem Kept.run (h : Kept E rt)
    (moves : List (RuntimeMove × Reading)) : Kept E (rt.run E moves) := by
  induction moves generalizing rt with
  | nil => exact h
  | cons m moves ih => exact ih (h.step m.1 m.2)

theorem Kept.new (huuid : E.uuid.Injective) (protocol : Ffi.ApprovalProtocol)
    (rows : List ChainRow) : Kept E (.new protocol rows) where
  uuids := huuid
  sound := .new
  aligned := by simp [PhoneApprovalRuntime.new]
  collects := trivial
  works := by simp [PhoneApprovalRuntime.new]
  distinct := List.nodup_nil
  undecided := by simp [PhoneApprovalRuntime.new]
  signsShown := by simp [PhoneApprovalRuntime.new]
  logsFirst := always_nil
  owned := by simp [PhoneApprovalRuntime.new]
  oneDecision := List.nodup_nil

end Kept

def RuntimeEvent.name : RuntimeEvent → String
  | .signing .. => "signing"
  | .committed event => event.eventType
  | .handed _ => "handed"
  | .endNow reason => reason.asStr

def shortApproval : ApprovalRequest :=
  ⟨⟨.replicate 16 7⟩, .authenticatedRequest, "m", "GET", "/", .null, none, 9⟩

/-- A runtime whose reader knows one request. -/
def sampleSetup : RuntimeSetup where
  sessionId := "s"
  pcName := "desk"
  uuid n := String.ofList (List.replicate (n + 1) 'u')
  fromReader
    | [0] => .ok (.approvalRequest shortApproval)
    | _ => .error "no message"
  toF64 _ := none
  sha256 _ := .replicate 32 0

def sampleRuntime : PhoneApprovalRuntime :=
  .new ⟨⟨0⟩, ⟨.new, ∅, ∅, ⟨[]⟩⟩⟩ []

/-- The user approves, and the deadline passes while the row of the approval is staged. -/
def sampleMoves : List (RuntimeMove × Reading) :=
  [(.inbound [0] 1000 none, ⟨true, 1000⟩),
    (.historyRead (some [⟨"m", "/"⟩]) 1700000001, ⟨true, 1000⟩),
    (.commitRequest, ⟨true, 1000⟩),
    (.resumeRequest, ⟨true, 1100⟩),
    (.proceed, ⟨true, 1100⟩),
    (.approve "u", ⟨true, 60990⟩),
    (.begin 0, ⟨true, 60995⟩),
    (.claim 0 true 1700000061, ⟨true, 60995⟩),
    (.stage 0, ⟨true, 60995⟩),
    (.authorize 0, ⟨true, 61000⟩),
    (.resume 0, ⟨true, 61001⟩),
    (.claim 0 true 1700000061, ⟨true, 61001⟩),
    (.stage 0, ⟨true, 61001⟩),
    (.authorize 0, ⟨true, 61002⟩),
    (.sign 0 (some ⟨fun _ => (Octets.replicate 64 0).1⟩) (.still 5), ⟨true, 61002⟩),
    (.commit 0 true, ⟨true, 61003⟩),
    (.resume 0, ⟨true, 61003⟩),
    (.sent 0 true, ⟨true, 61004⟩)]

end Conveyance.Phone
