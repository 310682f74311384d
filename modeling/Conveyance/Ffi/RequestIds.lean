import Conveyance.Lib.Transition
import Conveyance.Ffi.ApprovalProtocol

/-!
# Request ids across the phone's protocol objects

Two of the three sets an object keeps are never pruned, the third one is. What is
executed once stays so because its id is answered, and an answered request is never
recorded again; the tombstones play no part in it.
-/

namespace Conveyance.Ffi

open Lib Protocol

section Standing

variable {fromStr : String → Except String PhoneApprovalPolicy}
variable {fromReader : Bytes → Except String WireMessage}

def Objects.empty : Objects := ⟨[], [], []⟩

variable (fromStr fromReader) in
theorem Objects.step_cases (o : Objects) (a : Action) : o.step fromStr fromReader a = (o, []) ∨
    (∃ toml policy, a = .new toml ∧ o.step fromStr fromReader a =
      ({ o with protocols :=
          o.protocols ++ [⟨⟨o.protocols.length⟩, ⟨.new, ∅, ∅, policy⟩⟩] }, [])) ∨
    (∃ self i p c reply, a = .invoke self i ∧ o.protocols[self]? = some p ∧
      o.resolve i = some c ∧ Effect fromReader p c reply ∧
      o.step fromStr fromReader a =
        (o.keep (reply.receipt self c) reply.protocol, [reply.receipt self c])) := by
  cases a with
  | new policyToml =>
    cases hnew : ApprovalProtocol.new fromStr ⟨o.protocols.length⟩ policyToml with
    | error e =>
      simp only [Objects.step, hnew]
      exact .inl trivial
    | ok p =>
      simp only [Objects.step, hnew]
      obtain ⟨policy, -, hp⟩ := bind_eq_ok.mp hnew
      cases hp
      exact .inr (.inl ⟨policyToml, policy, rfl, rfl⟩)
  | invoke self i =>
    cases hp : o.protocols[self]? with
    | none =>
      simp only [Objects.step, hp]
      exact .inl trivial
    | some p =>
      cases hc : o.resolve i with
      | none =>
        simp only [Objects.step, hp, hc]
        exact .inl trivial
      | some c =>
        refine .inr (.inr ⟨self, i, p, c, _, rfl, hp, hc, invoke_effect c, ?_⟩)
        simp only [Objects.step, hp, hc]

variable (fromStr fromReader) in
/-- What holds of a history and the objects, if it is kept by every new object and
by every call, holds after every run. -/
theorem Objects.run_invariant (inv : List Receipt → Objects → Prop)
    (hnew : ∀ past o policy, inv past o → inv past { o with protocols :=
      o.protocols ++ [⟨⟨o.protocols.length⟩, ⟨.new, ∅, ∅, policy⟩⟩] })
    (hinvoke : ∀ past o self i p c reply, inv past o → o.protocols[self]? = some p →
      o.resolve i = some c → Effect fromReader p c reply →
      inv (past ++ [reply.receipt self c]) (o.keep (reply.receipt self c) reply.protocol))
    {past : List Receipt} {o : Objects} (h : inv past o) (actions : List Action) :
    inv (past ++ (o.run fromStr fromReader actions).2) (o.run fromStr fromReader actions).1 := by
  induction actions generalizing past o with
  | nil => simpa [Objects.run] using h
  | cons a actions ih =>
    have hstep : inv (past ++ (o.step fromStr fromReader a).2) (o.step fromStr fromReader a).1 := by
      rcases o.step_cases fromStr fromReader a with
        heq | ⟨_, policy, -, heq⟩ | ⟨self, i, p, c, reply, -, hp, hc, heffect, heq⟩
      · rw [heq]
        simpa using h
      · rw [heq]
        simpa using hnew past o policy h
      · rw [heq]
        exact hinvoke past o self i p c reply h hp hc heffect
    have hrest := ih hstep
    rwa [List.append_assoc] at hrest

/-! ### What a receipt tells -/

/-- The request id registered. -/
def Receipt.registers (receipt : Receipt) : Option ReqId :=
  receipt.requests.head?.map (·.request.reqId)

/-- The request id an identity signed a response for. -/
def Receipt.signs (receipt : Receipt) : Option ReqId :=
  match receipt.invocation, receipt.signed with
  | .signedResponse handle _ _ _ _, some _ => some handle.request.reqId
  | _, _ => none

/-- The request whose approval was signed and returned, and when. -/
def Receipt.approves (receipt : Receipt) : Option (ApprovalRequest × Readings) :=
  match receipt.invocation, receipt.result with
  | .signedResponse handle .approved _ _ r, .ok _ => some (handle.request, r)
  | _, _ => none

/-- The bytes `validate_execute_binding` accepted, and when. -/
def Receipt.executes (receipt : Receipt) : Option (Bytes × Readings) :=
  match receipt.invocation, receipt.result with
  | .validateExecuteBinding plaintext r, .ok _ => some (plaintext, r)
  | _, _ => none

variable (fromReader) in
/-- The request id executed. -/
def Receipt.executesId (receipt : Receipt) : Option ReqId := do
  let executed ← receipt.executes
  let exec ← (decodeExecuteRequest fromReader executed.1).toOption
  some exec.reqId

/-- No call before it on the same object has the id `f` finds in the receipt. -/
def Fresh (f : Receipt → Option ReqId) (past : List Receipt) (receipt : Receipt) : Prop :=
  ∀ id, f receipt = some id → ∀ e ∈ past, e.self = receipt.self → f e ≠ some id

/-- An approval of the request was signed and returned by the object, which had
registered the request before. -/
def Approved (past : List Receipt) (self : Nat) (request : ApprovalRequest) (r : Readings) : Prop :=
  ∃ before approval between, past = before ++ approval :: between ∧ approval.self = self ∧
    approval.approves = some (request, r) ∧
    ∃ e ∈ before, e.self = self ∧ ∃ handle ∈ e.requests, handle.request = request

variable (fromReader) in
/-- What is executed was approved on the same object in all its eight fields, no
longer ago than an approval lives. -/
def Justified (past : List Receipt) (receipt : Receipt) : Prop :=
  ∀ plaintext r, receipt.executes = some (plaintext, r) →
    ∃ exec request r', decodeExecuteRequest fromReader plaintext = .ok exec ∧
      Approved past receipt.self request r' ∧ SameFields request exec ∧
      r.age ≤ r'.stamp + defaultApprovalTtl

theorem Approved.snoc {past : List Receipt} {self : Nat} {request : ApprovalRequest} {r : Readings}
    (h : Approved past self request r) (receipt : Receipt) :
    Approved (past ++ [receipt]) self request r := by
  obtain ⟨before, approval, between, rfl, hrest⟩ := h
  refine ⟨before, approval, between ++ [receipt], ?_, hrest⟩
  rw [List.append_assoc, List.cons_append]

/-! ### What the history holds -/

/-- The object is as its history says. -/
structure Sane (past : List Receipt) (place : Nat) (p : ApprovalProtocol) : Prop where
  scope : p.scope = ⟨place⟩
  ttl : p.inner.tracker.ttl = defaultApprovalTtl
  terminal : ∀ id entry, p.inner.tracker.pending id = some entry → id ∈ p.inner.terminalIds
  approved : ∀ id entry, p.inner.tracker.pending id = some entry → ∃ request r,
    Approved past place request r ∧ request.reqId.hex = id ∧
      request.canonicalBindingJson = .ok entry.approvedJson ∧ entry.approvedAt = r.stamp

variable (fromReader) in
structure Standing (past : List Receipt) (o : Objects) : Prop where
  protocols : ∀ self p, o.protocols[self]? = some p → Sane past self p
  /-- Handles are given out by calls, and belong to the object called. -/
  issued : ∀ handle ∈ o.requests, ∃ e ∈ past, handle ∈ e.requests
  owned : ∀ e ∈ past, ∀ handle ∈ e.requests, handle.owner = ⟨e.self⟩
  ownedInbound : ∀ e ∈ past, ∀ inbound ∈ e.inbound, inbound.owner = ⟨e.self⟩
  justified : Always (Justified fromReader) past

theorem Objects.mem_requests_of_resolve {o : Objects} {i : Invocation Nat Nat}
    {handle : ValidatedApprovalRequest} {decision : ApprovalDecision} {reason : Option String}
    {identity : UnlockedIdentity} {r : Readings}
    (h : o.resolve i = some (.signedResponse handle decision reason identity r)) :
    handle ∈ o.requests := by
  cases i with
  | signedResponse j d t k s =>
    obtain ⟨handle', hget, heq⟩ := Option.map_eq_some_iff.mp h
    cases heq
    exact List.mem_of_getElem? hget
  | decodeRequest | decodeInbound | validateExecuteBinding => cases h
  | encodePong | encodeListServicesResponse | evaluateTier =>
    obtain ⟨_, -, heq⟩ := Option.map_eq_some_iff.mp h
    cases heq

section OneCall

variable {past : List Receipt} {o : Objects} {self : Nat} {i : Invocation Nat Nat}
  {p : ApprovalProtocol} {c : Resolved} {reply : Reply}

theorem Sane.snoc (h : Sane past self p) (receipt : Receipt) : Sane (past ++ [receipt]) self p := by
  refine ⟨h.scope, h.ttl, h.terminal, fun id entry hid => ?_⟩
  obtain ⟨request, r, happroved, hrest⟩ := h.approved id entry hid
  exact ⟨request, r, happroved.snoc receipt, hrest⟩

theorem Sane.shrink (h : Sane past self p) {q : ApprovalProtocol} (hscope : q.scope = p.scope)
    (hterminal : p.inner.terminalIds ⊆ q.inner.terminalIds)
    (htracker : Shrinks p.inner.tracker q.inner.tracker) (receipt : Receipt) :
    Sane (past ++ [receipt]) self q := by
  refine ⟨hscope.trans h.scope, htracker.ttl.trans h.ttl, fun id entry hid => ?_,
    fun id entry hid => ?_⟩
  · exact hterminal (h.terminal id entry (htracker.pending id entry hid))
  · exact (h.snoc receipt).approved id entry (htracker.pending id entry hid)

/-- **One call keeps its object sane.** -/
theorem Standing.sane (h : Standing fromReader past o) (hp : o.protocols[self]? = some p)
    (hc : o.resolve i = some c) (heffect : Effect fromReader p c reply) :
    Sane (past ++ [reply.receipt self c]) self reply.protocol := by
  have hsane := h.protocols self p hp
  cases heffect with
  | fail | pong | services | tier | hear => exact hsane.snoc _
  | register | registerInbound => exact hsane.shrink (q := p.receive _) rfl subset_rfl (.refl _) _
  | answer _ _ htracker _ =>
    exact hsane.shrink (q := (p.reserve _).withTracker _) rfl (Finset.subset_insert _ _) htracker _
  | @attempt _ _ tracker _ htracker | @execute _ _ tracker _ _ _ _ _ _ htracker =>
    exact hsane.shrink (q := p.withTracker tracker) rfl subset_rfl htracker _
  | @approve handle reason identity r payload encoded json howner hnew hjson =>
    -- an entry was there before, or is the one this call recorded
    have hentry : ∀ id entry, Function.update (p.inner.tracker.prune r).pending
        handle.request.reqId.hex (some ⟨json, r.stamp⟩) id = some entry →
        p.inner.tracker.pending id = some entry ∨
          id = handle.request.reqId.hex ∧ entry = ⟨json, r.stamp⟩ := by
      intro id entry hid
      rw [Function.update_apply] at hid
      split_ifs at hid with hsame
      · exact .inr ⟨hsame, (Option.some.inj hid).symm⟩
      · exact .inl hid
    refine ⟨hsane.scope, hsane.ttl, fun id entry hid => ?_, fun id entry hid => ?_⟩
    · rcases hentry id entry hid with hold | ⟨rfl, -⟩
      · exact Finset.mem_insert_of_mem (hsane.terminal id entry hold)
      · exact Finset.mem_insert_self _ _
    · rcases hentry id entry hid with hold | ⟨rfl, rfl⟩
      · exact (hsane.snoc _).approved id entry hold
      · obtain ⟨e, he, hmem⟩ := h.issued handle (Objects.mem_requests_of_resolve hc)
        have hself := (h.owned e he handle hmem).symm.trans (howner.trans hsane.scope)
        exact ⟨handle.request, r, ⟨past, _, [], rfl, rfl, rfl, e, he,
          congrArg ApprovalSessionScope.address hself, handle, hmem, rfl⟩, rfl, hjson, rfl⟩

theorem Sane.justified (h : Sane past self p) (heffect : Effect fromReader p c reply) :
    Justified fromReader past (reply.receipt self c) := by
  intro plaintext r hexecutes
  cases heffect with
  | @execute plaintext' r' tracker exec entry hdecode hpending hage hjson _ _ =>
    cases hexecutes
    obtain ⟨request, s, happroved, -, hreqJson, hat⟩ := h.approved _ entry hpending
    refine ⟨exec, request, s, hdecode, happroved, sameFields_of_canonical hreqJson hjson, ?_⟩
    rw [← hat, ← h.ttl]
    exact hage
  | @fail c e => cases c <;> cases hexecutes
  | _ => cases hexecutes

/-- What a call gives out belongs to its object, and the requests are new to it. -/
theorem Effect.gives (heffect : Effect fromReader p c reply) (self : Nat) :
    (∀ handle ∈ (reply.receipt self c).requests, handle.owner = p.scope ∧
      handle.request.reqId.hex ∉ p.inner.receivedIds ∧
        handle.request.reqId.hex ∈ reply.protocol.inner.receivedIds) ∧
      ∀ inbound ∈ (reply.receipt self c).inbound, inbound.owner = p.scope := by
  cases heffect with
  | @hear plaintext payload hcontrol =>
    cases payload with
    | request handle => exact absurd rfl (hcontrol handle)
    | _ => simp [Reply.receipt, Receipt.requests, Receipt.inbound,
        DecodedApprovalInbound.approvalRequest]
  | register hnew | registerInbound hnew =>
    simp [Reply.receipt, Receipt.requests, Receipt.inbound,
      DecodedApprovalInbound.approvalRequest, ApprovalProtocol.receive, hnew]
  | @answer handle decision reason identity r payload tracker result _ _ _ hresult =>
    cases result with
    | error e => simp [Reply.receipt, Receipt.requests, Receipt.inbound]
    | ok value =>
      obtain ⟨-, encoded, rfl⟩ := hresult value rfl
      simp [Reply.receipt, Receipt.requests, Receipt.inbound]
  | _ => simp [Reply.receipt, Receipt.requests, Receipt.inbound]

theorem Objects.keep_protocols {q : ApprovalProtocol} {receipt : Receipt} {j : Nat}
    (h : (o.keep receipt q).protocols[j]? = some p) :
    (j = receipt.self ∧ p = q) ∨ (j ≠ receipt.self ∧ o.protocols[j]? = some p) := by
  rw [Objects.keep, List.getElem?_set] at h
  by_cases hj : receipt.self = j
  · rw [if_pos hj] at h
    split_ifs at h
    exact .inl ⟨hj.symm, (Option.some.inj h).symm⟩
  · rw [if_neg hj] at h
    exact .inr ⟨Ne.symm hj, h⟩

/-- **One call keeps the history standing.** -/
theorem Standing.invoke (h : Standing fromReader past o) (hp : o.protocols[self]? = some p)
    (hc : o.resolve i = some c) (heffect : Effect fromReader p c reply) :
    Standing fromReader (past ++ [reply.receipt self c])
      (o.keep (reply.receipt self c) reply.protocol) := by
  have hsane := h.protocols self p hp
  have hgives := heffect.gives self
  refine ⟨fun j q hq => ?_, fun handle hhandle => ?_, fun e he => ?_, fun e he => ?_, ?_⟩
  · rcases Objects.keep_protocols hq with ⟨rfl, rfl⟩ | ⟨-, hq⟩
    · exact h.sane hp hc heffect
    · exact (h.protocols j q hq).snoc _
  · rcases List.mem_append.mp hhandle with hold | hnew
    · obtain ⟨e, he, hmem⟩ := h.issued handle hold
      exact ⟨e, List.mem_append_left _ he, hmem⟩
    · exact ⟨_, List.mem_append_right _ (List.mem_singleton_self _), hnew⟩
  · rcases List.mem_append.mp he with hold | hnew
    · exact h.owned e hold
    · rw [List.mem_singleton.mp hnew]
      exact fun handle hmem => (hgives.1 handle hmem).1.trans hsane.scope
  · rcases List.mem_append.mp he with hold | hnew
    · exact h.ownedInbound e hold
    · rw [List.mem_singleton.mp hnew]
      exact fun inbound hmem => (hgives.2 inbound hmem).trans hsane.scope
  · exact always_snoc.mpr ⟨h.justified, hsane.justified heffect⟩

theorem Standing.new (h : Standing fromReader past o) (policy : PhoneApprovalPolicy) :
    Standing fromReader past { o with protocols :=
      o.protocols ++ [⟨⟨o.protocols.length⟩, ⟨.new, ∅, ∅, policy⟩⟩] } := by
  refine { h with protocols := fun j q hq => ?_ }
  rcases ApprovedRequestTracker.getElem?_snoc.mp hq with hq | ⟨rfl, rfl⟩
  · exact h.protocols j q hq
  · refine ⟨rfl, rfl, fun id entry hid => ?_, fun id entry hid => ?_⟩ <;> cases hid

variable (fromStr fromReader) in
theorem Standing.run (actions : List Action) :
    Standing fromReader (Objects.empty.run fromStr fromReader actions).2
      (Objects.empty.run fromStr fromReader actions).1 := by
  have hempty : Standing fromReader [] .empty := by
    constructor <;> simp [Objects.empty]
  exact Objects.run_invariant fromStr fromReader (Standing fromReader)
    (fun _ _ policy h => h.new policy)
    (fun _ _ _ _ _ _ _ h hp hc heffect => h.invoke hp hc heffect) hempty actions

end OneCall

/-! ### Ids that are used once -/

variable (fromReader) in
/-- The id a receipt uses was unmarked before it and is marked from then on. -/
structure Marking (f : Receipt → Option ReqId) (marked : ApprovalProtocol → ReqId → Prop) :
    Prop where
  kept : ∀ {p c reply id}, Effect fromReader p c reply → marked p id → marked reply.protocol id
  fresh : ∀ {past self p c reply id}, Sane past self p → Effect fromReader p c reply →
    f (reply.receipt self c) = some id → ¬ marked p id ∧ marked reply.protocol id

variable (fromReader) in
/-- The ids used so far are marked on their objects. -/
structure Marked (f : Receipt → Option ReqId) (marked : ApprovalProtocol → ReqId → Prop)
    (past : List Receipt) (o : Objects) : Prop where
  standing : Standing fromReader past o
  placed : ∀ e ∈ past, e.self < o.protocols.length
  marked : ∀ e ∈ past, ∀ id, f e = some id → ∀ p, o.protocols[e.self]? = some p → marked p id
  fresh : Always (Fresh f) past

section Marking

variable {f : Receipt → Option ReqId} {marked : ApprovalProtocol → ReqId → Prop}
  {past : List Receipt} {o : Objects} {self : Nat} {i : Invocation Nat Nat}
  {p : ApprovalProtocol} {c : Resolved} {reply : Reply}

theorem Marked.invoke (hmarking : Marking fromReader f marked)
    (h : Marked fromReader f marked past o)
    (hp : o.protocols[self]? = some p) (hc : o.resolve i = some c)
    (heffect : Effect fromReader p c reply) :
    Marked fromReader f marked (past ++ [reply.receipt self c])
      (o.keep (reply.receipt self c) reply.protocol) := by
  have hsane := h.standing.protocols self p hp
  refine ⟨h.standing.invoke hp hc heffect, fun e he => ?_, fun e he id hid q hq => ?_, ?_⟩
  · rw [Objects.keep, List.length_set]
    rcases List.mem_append.mp he with hold | hnew
    · exact h.placed e hold
    · rw [List.mem_singleton.mp hnew]
      exact (List.getElem?_eq_some_iff.mp hp).1
  · rcases List.mem_append.mp he with hold | hnew
    · rcases Objects.keep_protocols hq with ⟨hself, rfl⟩ | ⟨-, hq⟩
      · -- the object called: what was marked on it stays so
        have hself : e.self = self := hself
        exact hmarking.kept heffect (h.marked e hold id hid p (hself ▸ hp))
      · exact h.marked e hold id hid q hq
    · obtain rfl := List.mem_singleton.mp hnew
      rcases Objects.keep_protocols hq with ⟨-, rfl⟩ | ⟨hother, -⟩
      · exact (hmarking.fresh hsane heffect hid).2
      · exact absurd rfl hother
  · refine always_snoc.mpr ⟨h.fresh, fun id hid e he hself hsame => ?_⟩
    have hself : e.self = self := hself
    exact (hmarking.fresh hsane heffect hid).1 (h.marked e he id hsame p (hself ▸ hp))

theorem Marked.new (h : Marked fromReader f marked past o) (policy : PhoneApprovalPolicy) :
    Marked fromReader f marked past { o with protocols :=
      o.protocols ++ [⟨⟨o.protocols.length⟩, ⟨.new, ∅, ∅, policy⟩⟩] } := by
  refine ⟨h.standing.new policy, fun e he => ?_, fun e he id hid q hq => ?_, h.fresh⟩
  · rw [List.length_append]
    exact Nat.lt_add_right _ (h.placed e he)
  · rw [List.getElem?_append_left (h.placed e he)] at hq
    exact h.marked e he id hid q hq

variable (fromStr) in
/-- **What marks its ids uses each of them once.** -/
theorem Marking.always_fresh (h : Marking fromReader f marked) (actions : List Action) :
    Always (Fresh f) (Objects.empty.run fromStr fromReader actions).2 := by
  have hempty : Marked fromReader f marked [] .empty :=
    ⟨.run fromStr fromReader [], by simp, by simp, always_nil⟩
  have hrun := Objects.run_invariant fromStr fromReader (Marked fromReader f marked)
    (fun _ _ policy h => h.new policy)
    (fun _ _ _ _ _ _ _ hm hp hc heffect => hm.invoke h hp hc heffect) hempty actions
  exact hrun.fresh

end Marking

theorem Effect.receivedIds_subset {p : ApprovalProtocol} {c : Resolved} {reply : Reply}
    (h : Effect fromReader p c reply) : p.inner.receivedIds ⊆ reply.protocol.inner.receivedIds := by
  cases h with
  | register | registerInbound => exact Finset.subset_insert _ _
  | _ => exact subset_rfl

theorem Effect.terminalIds_subset {p : ApprovalProtocol} {c : Resolved} {reply : Reply}
    (h : Effect fromReader p c reply) : p.inner.terminalIds ⊆ reply.protocol.inner.terminalIds := by
  cases h with
  | answer | approve => exact Finset.subset_insert _ _
  | _ => exact subset_rfl

/-- Registrations are remembered for good. -/
theorem marking_registers :
    Marking fromReader Receipt.registers fun p id => id.hex ∈ p.inner.receivedIds where
  kept heffect hid := heffect.receivedIds_subset hid
  fresh := by
    intro past self p c reply id hsane heffect hid
    obtain ⟨handle, hhead, rfl⟩ := Option.map_eq_some_iff.mp hid
    exact ((heffect.gives self).1 handle (List.mem_of_mem_head? hhead)).2

/-- So are the responses an identity signed. -/
theorem marking_signs :
    Marking fromReader Receipt.signs fun p id => id.hex ∈ p.inner.terminalIds where
  kept heffect hid := heffect.terminalIds_subset hid
  fresh := by
    intro past self p c reply id hsane heffect hid
    cases heffect with
    | answer _ hnew | approve _ hnew =>
      cases hid
      exact ⟨hnew, Finset.mem_insert_self _ _⟩
    | @fail c e => cases c <;> cases hid
    | _ => cases hid

/-- What was executed is answered and no longer pending, and an answered request
never becomes pending again: the tombstones may be pruned. -/
theorem marking_executes :
    Marking fromReader (Receipt.executesId fromReader) fun p id =>
      id.hex ∈ p.inner.terminalIds ∧ p.inner.tracker.pending id.hex = none where
  kept := by
    rintro p c reply id heffect ⟨hterminal, hnone⟩
    refine ⟨heffect.terminalIds_subset hterminal, ?_⟩
    have hshrinks : ∀ {tracker : ApprovedRequestTracker}, Shrinks p.inner.tracker tracker →
        tracker.pending id.hex = none := by
      intro tracker htracker
      by_contra hsome
      obtain ⟨entry, hentry⟩ := Option.ne_none_iff_exists'.mp hsome
      rw [htracker.pending _ entry hentry] at hnone
      cases hnone
    cases heffect with
    | answer _ _ htracker | attempt htracker | execute _ _ _ _ htracker => exact hshrinks htracker
    | @approve handle reason identity r payload encoded json _ hnew _ =>
      have hne : id.hex ≠ handle.request.reqId.hex := by
        intro heq
        exact hnew (heq ▸ hterminal)
      simpa [ApprovalProtocol.withTracker, Function.update_of_ne hne] using hnone
    | _ => exact hnone
  fresh := by
    intro past self p c reply id hsane heffect hid
    obtain ⟨⟨plaintext, r⟩, hexecutes, hdecoded⟩ := Option.bind_eq_some_iff.mp hid
    cases heffect with
    | @execute plaintext' r' tracker exec entry hdecode hpending _ _ _ hgone =>
      cases hexecutes
      rw [hdecode] at hdecoded
      cases hdecoded
      refine ⟨fun hmarked => ?_, hsane.terminal _ entry hpending, hgone⟩
      rw [hmarked.2] at hpending
      cases hpending
    | @fail c e => cases c <;> cases hexecutes
    | _ => cases hexecutes

/-! ### Handles of other objects -/

/-- The call passes a handle that the receipt gave out. -/
def Receipt.gave (receipt : Receipt) : Resolved → Prop
  | .encodePong inbound _ | .encodeListServicesResponse inbound _ => inbound ∈ receipt.inbound
  | .evaluateTier request _ | .signedResponse request _ _ _ _ => request ∈ receipt.requests
  | _ => False

/-- A call with a handle of another object leaves its object alone. -/
theorem Standing.foreign {past : List Receipt} {o : Objects} {self : Nat} {p : ApprovalProtocol}
    {c : Resolved} {reply : Reply} (h : Standing fromReader past o)
    (hp : o.protocols[self]? = some p) (heffect : Effect fromReader p c reply) {e : Receipt}
    (he : e ∈ past) (hother : e.self ≠ self) (hgave : e.gave c) : reply.protocol = p := by
  have hscope := (h.protocols self p hp).scope
  have hrequest : ∀ handle ∈ e.requests, handle.owner ≠ p.scope := by
    intro handle hmem howner
    have hsame := (h.owned e he handle hmem).symm.trans (howner.trans hscope)
    exact hother (congrArg ApprovalSessionScope.address hsame)
  cases heffect with
  | answer howner | approve howner => exact absurd howner (hrequest _ hgave)
  | register | registerInbound | attempt | execute => cases hgave
  | _ => rfl

/-- **One registration, one signature, one execution per request id.** Over every
sequence of calls on any number of objects, on each object a request id is
registered once, a response is signed for it once, whether or not the call then
succeeds, and it is executed once. An execution follows an approval that the same
object signed for a request it had registered, with all eight fields, no longer ago
than approvals live. And a handle that another object gave out changes nothing. -/
theorem request_ids_are_used_once (fromStr : String → Except String PhoneApprovalPolicy)
    (fromReader : Bytes → Except String WireMessage) (actions : List Action) (o : Objects)
    (history : List Receipt) (hrun : Objects.empty.run fromStr fromReader actions = (o, history)) :
    Always (Fresh Receipt.registers) history ∧ Always (Fresh Receipt.signs) history ∧
    Always (Fresh (Receipt.executesId fromReader)) history ∧ Always (Justified fromReader) history ∧
    ∀ self i c e, o.resolve i = some c → e ∈ history → e.self ≠ self → e.gave c →
      (o.step fromStr fromReader (.invoke self i)).1.protocols = o.protocols := by
  have hstanding := Standing.run fromStr fromReader actions
  have hregisters := (@marking_registers fromReader).always_fresh fromStr actions
  have hsigns := (@marking_signs fromReader).always_fresh fromStr actions
  have hexecutes := (@marking_executes fromReader).always_fresh fromStr actions
  rw [hrun] at hstanding hregisters hsigns hexecutes
  refine ⟨hregisters, hsigns, hexecutes, hstanding.justified, ?_⟩
  intro self i c e hc he hother hgave
  rcases o.step_cases fromStr fromReader (.invoke self i) with
    heq | ⟨_, _, haction, -⟩ | ⟨self', i', p, c', reply, haction, hp, hc', heffect, heq⟩
  · rw [heq]
  · cases haction
  · cases haction
    obtain rfl := Option.some.inj (hc.symm.trans hc')
    rw [heq, hstanding.foreign hp heffect he hother hgave]
    obtain ⟨hlt, rfl⟩ := List.getElem?_eq_some_iff.mp hp
    exact List.set_getElem_self hlt

end Standing

/-! ## A run -/

/-- A reader that knows one approval request and its execution. -/
def sampleReader : Bytes → Except String WireMessage
  | [0] => .ok (.approvalRequest sampleApproval)
  | [1] => .ok (.executeRequest sampleExecute)
  | _ => .error "no message"

def zeroIdentity : UnlockedIdentity := ⟨fun _ => (Octets.replicate 64 0).1⟩

/-- Two objects: the second tries to answer what the first registered. -/
def sampleActions : List Action :=
  [.new "", .new "", .invoke 0 (.decodeInbound [0]),
    .invoke 1 (.signedResponse 0 .approved none zeroIdentity (.still 5)),
    .invoke 0 (.signedResponse 0 .approved none zeroIdentity (.still 5)),
    .invoke 0 (.validateExecuteBinding [1] (.still (5 + defaultApprovalTtl))),
    .invoke 0 (.validateExecuteBinding [1] (.still (5 + 4 * defaultApprovalTtl)))]

/-- What each call failed with, if it did. -/
def failures (history : List Receipt) : List (Option (Fault ApprovalFfiError)) :=
  history.map fun receipt => match receipt.result with
    | .ok _ => none
    | .error e => some e

/-- The second object refuses the handle, the first one answers and executes once,
also after the tombstone is gone, and the execution was approved. -/
theorem second_object_answers_nothing :
    let history := (Objects.empty.run (fun _ => .ok ⟨[]⟩) sampleReader sampleActions).2
    failures history = [none, some (.err .wrongSession), none, none, some (.err .bindingRejected)] ∧
      Always (Justified sampleReader) history := by
  intro history
  obtain ⟨-, -, -, hjustified, -⟩ := request_ids_are_used_once (fun _ => .ok ⟨[]⟩) sampleReader
    sampleActions _ history rfl
  exact ⟨by decide +kernel, hjustified⟩

end Conveyance.Ffi
