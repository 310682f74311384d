import Mathlib.Data.List.Induction
import Mathlib.Data.List.Nodup
import Conveyance.Phone.ApprovalStateMachine

/-!
# What the phone's approvals rest on

A history records every call made on one state machine: the reading it was made
under, what it returned and the machine before and after it. `Standing` says what
the history must hold for the machine to be in a state, and every call keeps it.
-/

namespace Conveyance.Phone

open Lib Machine

structure Step where
  call : Call
  reading : Reading
  before : Machine
  action : ApprovalAction
  after : Machine

/-- The request a step made pending. -/
def Step.presented (s : Step) : Option Pending :=
  match s.call, s.action with
  | .receive .., .rejected _ => none
  | .receive .., _ => s.after.state.pending
  | _, _ => none

/-- The authentication attempt a step issued. -/
def Step.attempt (s : Step) : Option String :=
  match s.action with
  | .authenticate _ _ attemptId _ => some attemptId
  | _ => none

/-- The final decision a state stands for, and of which request. -/
def ApprovalState.outcome : ApprovalState → Option (String × ApprovalDecision)
  | .approved _ q => some (q, .approved)
  | .denied _ q => some (q, .denied)
  | .expired _ q => some (q, .expired)
  | _ => none

/-- The requests shown so far, oldest first. -/
def shown (past : List Step) : List Pending := past.filterMap Step.presented

/-- The authentication attempts issued so far, oldest first. -/
def attempts (past : List Step) : List String := past.filterMap Step.attempt

/-- The ids a callback carries are those of the pending request, the session and the awaited
attempt. -/
def Call.concerns (sessionId : String) (state : ApprovalState) : Call → Bool
  | .receive .. | .sessionLost | .cancel => true
  | .completeAuthentication i s a _ =>
    match state with
    | .awaitingAuthentication p awaited => addressed sessionId p i s && awaited = a
    | _ => false
  | .approve i s | .deny i s | .expire i s | .beforeFinalize i s _ | .beforeSign i s _
  | .completeFinalization i s _ _ | .failFinalization i s _ =>
    match state.pending with
    | some p => addressed sessionId p i s
    | none => false

/-- The instance a callback names. -/
def Call.instance? : Call → Option String
  | .receive .. | .sessionLost | .cancel => none
  | .completeAuthentication i _ _ _ | .approve i _ | .deny i _ | .expire i _ | .beforeFinalize i _ _
  | .beforeSign i _ _ | .completeFinalization i _ _ _ | .failFinalization i _ _ => some i

/-- The callback names an instance shown before the latest one, or an attempt issued before the
latest one. -/
def Call.Stale (past : List Step) (c : Call) : Prop :=
  (∃ i ∈ ((shown past).map Pending.instanceId).dropLast, c.instance? = some i) ∨
  ∃ i s outcome, ∃ a ∈ (attempts past).dropLast, c = .completeAuthentication i s a outcome

section Histories

variable (sessionId : String) (uuid : Nat → String)

/-- A machine and the calls made on it. -/
structure Log where
  past : List Step
  machine : Machine

def Log.new : Log := ⟨[], .new⟩

def Log.add (log : Log) (c : Call × Reading) : Log :=
  let out := log.machine.call sessionId uuid c.2 c.1
  ⟨log.past ++ [⟨c.1, c.2, log.machine, out.2, out.1⟩], out.1⟩

/-- The history of a sequence of calls on a new machine. -/
def history (calls : List (Call × Reading)) : Log := calls.foldl (.add sessionId uuid) .new

/-- Two versions of one request, apart from how its authentication stands. -/
def Pending.Same (q p : Pending) : Prop := ∃ status, { q with authStatus := status } = p

/-- The request was shown, under this instance. -/
def Shown (past : List Step) (p : Pending) : Prop := ∃ q ∈ shown past, q.Same p

/-- The user approved after the request was shown, and for Tier 3 the attempt that approval issued
succeeded with no other issued since. -/
def Consented (past : List Step) (p : Pending) : Prop :=
  ∃ earlier asked later, past = earlier ++ asked :: later ∧ Shown earlier p ∧
    asked.call = .approve p.instanceId sessionId ∧
    (p.requiredTier = .tier3 → ∃ a, asked.attempt = some a ∧ attempts later = [] ∧
      ∃ done ∈ later, done.call = .completeAuthentication p.instanceId sessionId a .succeeded)

/-- A signature of an approval may be made now. -/
structure Authorized (past : List Step) (step : Step) (p : Pending) : Prop where
  consented : Consented sessionId past p
  active : step.reading.active = true
  timely : step.reading.now < p.receivedAtElapsedMs + approvalDeadlineMs

/-- Where `beforeSign` lets an approval through, the pending request is the one named and the
approval is authorized. -/
def SignsAuthorized (past : List Step) (step : Step) : Prop :=
  ∀ i s d, step.call = .beforeSign i s d → ∀ i' s', step.action = .finalize i' s' .approved →
    ∃ p, step.before.state.pending = some p ∧ p.instanceId = i ∧ s = sessionId ∧
      Authorized sessionId past step p

/-- A call with a stale or mismatching id leaves the state unchanged. -/
def IgnoresOthers (past : List Step) (step : Step) : Prop :=
  step.call.concerns sessionId step.before.state = false ∨ step.call.Stale past →
    step.after.state = step.before.state

/-- What a user may rely on, over a whole history. -/
structure Trustworthy (past : List Step) : Prop where
  authorized : Always (SignsAuthorized sessionId) past
  shownOnce : ((shown past).map fun p => p.request.requestId).Nodup
  oneOutcome : ∀ s ∈ past, ∀ s' ∈ past, ∀ q d d', s.after.state.outcome = some (q, d) →
    s'.after.state.outcome = some (q, d') → d = d'
  unmoved : Always (IgnoresOthers sessionId) past

variable {sessionId uuid} {r : Reading} {m m' : Machine} {c : Call} {a : ApprovalAction}

/-! ## One step -/

theorem Pending.Same.refl (p : Pending) : p.Same p := ⟨p.authStatus, rfl⟩

theorem Pending.Same.of_status (p : Pending) (status : ApprovalAuthStatus) :
    p.Same { p with authStatus := status } := ⟨status, rfl⟩

variable {p q : Pending} {state : ApprovalState} {d : ApprovalDecision} {log : Log} {i : String}

theorem Pending.Same.trans {w : Pending} (h : p.Same q) (h' : q.Same w) : p.Same w := by
  obtain ⟨_, rfl⟩ := h
  obtain ⟨status, rfl⟩ := h'
  exact ⟨status, rfl⟩

theorem Step.presented_other (hcall : c.isReceive = false) :
    Step.presented ⟨c, r, m, a, m'⟩ = none := by
  cases c with
  | receive => cases hcall
  | _ => rfl

/-- What is pending after a call, if anything, was pending before it. -/
def Machine.Keeps (m m' : Machine) : Prop :=
  ∀ p', m'.state.pending = some p' → ∃ p, m.state.pending = some p ∧ p.Same p'

theorem Machine.Keeps.refl (m : Machine) : m.Keeps m := fun p' hp' => ⟨p', hp', .refl p'⟩

theorem Machine.Keeps.of_some (hp : m.state.pending = some p) (hq : m'.state.pending = some q)
    (hsame : p.Same q) : m.Keeps m' := by
  intro p' hp'
  obtain rfl := Option.some.inj (hq.symm.trans hp')
  exact ⟨p, hp, hsame⟩

theorem Machine.Keeps.of_none (h : m'.state.pending = none) : m.Keeps m' := by
  intro p' hp'
  rw [h] at hp'
  cases hp'

section

variable (h : Change sessionId uuid r m c a m')

include h

/-- A call shows a new request, or the pending one stays what it was. -/
theorem Machine.Change.shows :
    (∃ card tier reasons at_, m.state.pending = none ∧ card.requestId ∉ m.seenRequestIds ∧
      m'.seenRequestIds = card.requestId :: m.seenRequestIds ∧ m'.draws = m.draws + 1 ∧
      Step.presented ⟨c, r, m, a, m'⟩ = some (m.present sessionId uuid card tier reasons at_) ∧
      m'.state.pending = some (m.present sessionId uuid card tier reasons at_)) ∨
    (Step.presented ⟨c, r, m, a, m'⟩ = none ∧ m'.seenRequestIds = m.seenRequestIds ∧
      m.draws ≤ m'.draws ∧ m.Keeps m') := by
  cases h with
  | @present card tier reasons at_ hnone hnew | @presentLate card tier reasons at_ hnone hnew =>
    exact .inl ⟨card, tier, reasons, at_, hnone, hnew, rfl, rfl, rfl, rfl⟩
  -- nothing changes
  | ignore hcall => exact .inr ⟨Step.presented_other hcall, rfl, le_rfl, .refl m⟩
  | reject =>
    refine .inr ⟨?_, rfl, le_rfl, .refl m⟩
    cases c with
    | _ => rfl
  | sign => exact .inr ⟨rfl, rfl, le_rfl, .refl m⟩
  -- the same request in another state
  | @approve p hstate | @lapseClaim p hstate | @lapseSign p hstate | @claim p _ hstate =>
    exact .inr ⟨rfl, rfl, le_rfl, .of_some (by rw [hstate]; rfl) rfl (.refl p)⟩
  | @ask p hstate _ =>
    exact .inr ⟨rfl, rfl, Nat.le_succ _, .of_some (by rw [hstate]; rfl) rfl (.of_status p _)⟩
  | @deny p hopen =>
    exact .inr ⟨rfl, rfl, le_rfl, .of_some (ApprovalState.pending_of_undecided hopen) rfl (.refl p)⟩
  | @authenticated p _ hstate | @retry p _ _ _ hstate =>
    exact .inr ⟨rfl, rfl, le_rfl, .of_some (by rw [hstate]; rfl) rfl (.of_status p _)⟩
  | @lapse _ p hopen hcall =>
    exact .inr ⟨Step.presented_other hcall, rfl, le_rfl,
      .of_some (ApprovalState.pending_of_undecided hopen) rfl (.refl p)⟩
  -- the request is over
  | lose _ hcall => exact .inr ⟨Step.presented_other hcall, rfl, le_rfl, .of_none rfl⟩
  | @finish p d _ => exact .inr ⟨rfl, rfl, le_rfl, .of_none (by cases d <;> rfl)⟩
  | fail | cancel => exact .inr ⟨rfl, rfl, le_rfl, .of_none rfl⟩

theorem Machine.Change.draws_le : m.draws ≤ m'.draws := by
  rcases h.shows with ⟨-, -, -, -, -, -, -, hdraws, -⟩ | ⟨-, -, hdraws, -⟩
  · omega
  · exact hdraws

/-- An attempt is issued by an approval, and then awaited. -/
theorem Machine.Change.attempts :
    (∃ p, m.state = .awaitingUserDecision p ∧ c = .approve p.instanceId sessionId ∧
      Step.attempt ⟨c, r, m, a, m'⟩ = some (uuid m.draws) ∧ m'.draws = m.draws + 1 ∧
      m'.state = .awaitingAuthentication { p with authStatus := .inProgress } (uuid m.draws)) ∨
    (Step.attempt ⟨c, r, m, a, m'⟩ = none ∧
      ∀ p b, m'.state = .awaitingAuthentication p b → m.state = .awaitingAuthentication p b) := by
  cases h with
  | @ask p hstate htier => exact .inl ⟨p, hstate, rfl, rfl, rfl, rfl⟩
  | @finish p d hstate =>
    refine .inr ⟨rfl, ?_⟩
    cases d with
    | _ => rintro p b ⟨⟩
  | ignore | reject | sign => exact .inr ⟨rfl, fun p b h => h⟩
  | _ =>
    refine .inr ⟨rfl, ?_⟩
    rintro p b ⟨⟩

/-- A final decision is reached from the request it is about, or was there before. -/
theorem Machine.Change.outcome :
    (∃ p d, m.state.pending = some p ∧ m'.state.outcome = some (p.request.requestId, d) ∧
      m'.state.pending = none) ∨ m'.state = m.state ∨ m'.state.outcome = none := by
  cases h with
  | @finish p d hstate =>
    refine .inl ⟨p, d, by rw [hstate]; rfl, ?_, ?_⟩
    · cases d with
      | _ => rfl
    · cases d with
      | _ => rfl
  | ignore | reject | sign => exact .inr (.inl rfl)
  | _ => exact .inr (.inr rfl)

end

/-- A callback whose ids are not the current ones does nothing. -/
theorem Machine.call_unconcerned (h : c.concerns sessionId m.state = false) :
    (m.call sessionId uuid r c).1 = m := by
  obtain ⟨seen, state, draws⟩ := m
  -- each callback looks at the state first, and then at the ids
  cases c with
  | receive | sessionLost | cancel => cases h
  | completeAuthentication i s b outcome =>
    cases state with
    | awaitingAuthentication p awaited =>
      have hids : ¬ (addressed sessionId p i s = true ∧ awaited = b) := by
        simpa [Call.concerns] using h
      simp only [call, completeAuthentication, hids, if_false]
    | _ => rfl
  | _ =>
    cases state <;> first
      | rfl
      | simp_all [Call.concerns, ApprovalState.pending, call, approve, pendingForApprove, deny,
          pendingForAction, expire, beforeFinalize, beforeSign, completeFinalization,
          failFinalization, -addressed_iff]

/-! ## Whole histories -/

variable {past : List Step} {step : Step} {p : Pending}

theorem shown_snoc : shown (past ++ [step]) = shown past ++ step.presented.toList := by
  unfold shown
  rw [List.filterMap_append]
  cases hp : step.presented with
  | none | some => simp [hp]

theorem attempts_snoc : attempts (past ++ [step]) = attempts past ++ step.attempt.toList := by
  unfold attempts
  rw [List.filterMap_append]
  cases ha : step.attempt with
  | none | some => simp [ha]

theorem Shown.snoc (h : Shown past p) : Shown (past ++ [step]) p := by
  obtain ⟨q, hq, hsame⟩ := h
  exact ⟨q, by rw [shown_snoc]; exact List.mem_append_left _ hq, hsame⟩

theorem Shown.same (h : Shown past p) (hsame : p.Same q) : Shown past q := by
  obtain ⟨w, hw, hwp⟩ := h
  exact ⟨w, hw, hwp.trans hsame⟩

/-- What the history holds when an attempt is awaited: the approval that issued it. -/
def Asked (sessionId : String) (past : List Step) (p : Pending) (awaited : String) : Prop :=
  ∃ earlier asked later, past = earlier ++ asked :: later ∧ Shown earlier p ∧
    asked.call = .approve p.instanceId sessionId ∧ asked.attempt = some awaited ∧
      attempts later = []

theorem Asked.snoc {b : String} (h : Asked sessionId past p b) (hnone : step.attempt = none) :
    Asked sessionId (past ++ [step]) p b := by
  obtain ⟨earlier, asked, later, rfl, hshown, hcall, hattempt, hlater⟩ := h
  refine ⟨earlier, asked, later ++ [step], by simp, hshown, hcall, hattempt, ?_⟩
  rw [attempts_snoc, hlater, hnone]
  rfl

theorem Consented.snoc (h : Consented sessionId past p) (hnone : step.attempt = none) :
    Consented sessionId (past ++ [step]) p := by
  obtain ⟨earlier, asked, later, rfl, hshown, hcall, htier⟩ := h
  refine ⟨earlier, asked, later ++ [step], by simp, hshown, hcall, fun h3 => ?_⟩
  obtain ⟨b, hattempt, hlater, done, hdone, hsucceeded⟩ := htier h3
  refine ⟨b, hattempt, ?_, done, List.mem_append_left _ hdone, hsucceeded⟩
  rw [attempts_snoc, hlater, hnone]
  rfl

/-- What the history must hold for a machine to be in a state. -/
def Standing (sessionId : String) (past : List Step) : ApprovalState → Prop
  | .awaitingUserDecision p => Shown past p
  | .awaitingAuthentication p awaited => Asked sessionId past p awaited
  | .committing p d => Shown past p ∧ (d = .approved → Consented sessionId past p)
  | .finalizing p d => Shown past p ∧ (d = .approved → Consented sessionId past p)
  | _ => True

theorem Standing.shown (h : Standing sessionId past state) (hp : state.pending = some p) :
    Shown past p := by
  cases state with
  | awaitingUserDecision q =>
    cases hp
    exact h
  | awaitingAuthentication q b =>
    cases hp
    obtain ⟨earlier, asked, later, rfl, ⟨w, hw, hsame⟩, -⟩ := h
    refine ⟨w, ?_, hsame⟩
    unfold Phone.shown at *
    rw [List.filterMap_append]
    exact List.mem_append_left _ hw
  | committing | finalizing =>
    cases hp
    exact h.1
  | _ => cases hp

theorem Standing.snoc (h : Standing sessionId past state)
    (hnone : step.attempt = none) : Standing sessionId (past ++ [step]) state := by
  cases state with
  | awaitingUserDecision q => exact Shown.snoc h
  | awaitingAuthentication q b => exact Asked.snoc h hnone
  | committing | finalizing => exact ⟨h.1.snoc, fun hd => (h.2 hd).snoc hnone⟩
  | _ => trivial

theorem Shown.presented (h : step.presented = some q) : Shown (past ++ [step]) q :=
  ⟨q, by simp [shown_snoc, h], .refl q⟩

/-- A decision other than approval needs no consent. -/
theorem Standing.undone (h : Standing sessionId past m.state) (hp : m.state.pending = some p)
    (hd : d ≠ .approved) : Standing sessionId (past ++ [step]) (.committing p d) :=
  ⟨(h.shown hp).snoc, fun hd' => absurd hd' hd⟩

theorem Standing.change (h : Standing sessionId past m.state)
    (hc : Change sessionId uuid r m c a m') :
    Standing sessionId (past ++ [⟨c, r, m, a, m'⟩]) m'.state := by
  cases hc with
  | ignore | reject | sign => exact h.snoc rfl
  | present _ _ => exact .presented rfl
  | presentLate _ _ => exact ⟨.presented rfl, fun hd => absurd hd (by simp)⟩
  | @approve p hstate htier =>
    rw [hstate] at h
    exact ⟨.snoc h, fun _ => ⟨past, _, [], rfl, h, rfl, fun h3 => absurd h3 htier⟩⟩
  | @ask p hstate _ =>
    rw [hstate] at h
    exact ⟨past, _, [], rfl, .same h (.of_status p _), rfl, rfl, rfl⟩
  | deny hopen | lapse hopen => exact h.undone (ApprovalState.pending_of_undecided hopen) (by simp)
  | @authenticated p b hstate =>
    have hshown : Shown past p := h.shown (by rw [hstate]; rfl)
    rw [hstate] at h
    -- the awaited attempt is the one that succeeds
    obtain ⟨earlier, asked, later, rfl, hearlier, hcall, hattempt, hlater⟩ := h
    refine ⟨(hshown.same (.of_status p _)).snoc, fun _ => ?_⟩
    refine ⟨earlier, asked, later ++ [_], List.append_assoc earlier (asked :: later) [_],
      hearlier.same (.of_status p _), hcall, ?_⟩
    intro _
    refine ⟨b, hattempt, ?_, _, List.mem_append_right _ (List.mem_singleton_self _), rfl⟩
    rw [attempts_snoc, hlater]
    rfl
  | @retry p b _ _ hstate =>
    have hshown : Shown past p := h.shown (by rw [hstate]; rfl)
    exact (hshown.same (.of_status p _)).snoc
  | lapseClaim hstate | lapseSign hstate => exact h.undone (by rw [hstate]; rfl) (by simp)
  | claim hstate =>
    rw [hstate] at h
    exact ⟨h.1.snoc, fun hd => (h.2 hd).snoc rfl⟩
  | @finish p d hstate =>
    cases d with
    | _ => trivial
  | lose | fail | cancel => trivial

/-- Ids drawn so far, none of them twice. -/
def Drawn (uuid : Nat → String) (n : Nat) (ids : List String) : Prop :=
  ids.Nodup ∧ ∀ i ∈ ids, ∃ k < n, i = uuid k

variable {n k : Nat} {ids : List String}

theorem Drawn.mono (h : Drawn uuid n ids) (hle : n ≤ k) : Drawn uuid k ids := by
  refine ⟨h.1, fun i hi => ?_⟩
  obtain ⟨j, hj, hij⟩ := h.2 i hi
  exact ⟨j, Nat.lt_of_lt_of_le hj hle, hij⟩

theorem Drawn.snoc (huuid : uuid.Injective) (h : Drawn uuid n ids) :
    Drawn uuid (n + 1) (ids ++ [uuid n]) := by
  have hfresh : uuid n ∉ ids := by
    intro hmem
    obtain ⟨k, hk, heq⟩ := h.2 _ hmem
    exact absurd (huuid heq) (Nat.ne_of_gt hk)
  refine ⟨?_, List.forall_mem_append.mpr ⟨(h.mono n.le_succ).2,
    List.forall_mem_singleton.mpr ⟨n, n.lt_succ_self, rfl⟩⟩⟩
  rw [← List.concat_eq_append]
  exact h.1.concat hfresh

/-- The requests shown: their ids are used up, and the pending one is the latest. -/
structure Displayed (uuid : Nat → String) (log : Log) : Prop where
  seen : ∀ q ∈ shown log.past, q.request.requestId ∈ log.machine.seenRequestIds
  once : ((shown log.past).map fun q => q.request.requestId).Nodup
  drawn : Drawn uuid log.machine.draws ((shown log.past).map Pending.instanceId)
  pending : ∀ p, log.machine.state.pending = some p →
    ((shown log.past).map Pending.instanceId).getLast? = some p.instanceId ∧
      p.deadlineElapsedMs ≤ p.receivedAtElapsedMs + approvalDeadlineMs ∧
      p.request.requestId ∈ log.machine.seenRequestIds

/-- The attempts issued: the awaited one is the latest. -/
structure Issued (uuid : Nat → String) (log : Log) : Prop where
  drawn : Drawn uuid log.machine.draws (attempts log.past)
  latest : ∀ p b, log.machine.state = .awaitingAuthentication p b →
    (attempts log.past).getLast? = some b

/-- A request with a final decision is never pending again, and has no other decision. -/
structure Settled (log : Log) : Prop where
  now : ∀ q d, log.machine.state.outcome = some (q, d) →
    ∃ s ∈ log.past, s.after.state.outcome = some (q, d)
  before : ∀ s ∈ log.past, ∀ q d, s.after.state.outcome = some (q, d) →
    q ∈ log.machine.seenRequestIds ∧
      ∀ p, log.machine.state.pending = some p → p.request.requestId ≠ q
  once : ∀ s ∈ log.past, ∀ s' ∈ log.past, ∀ q d d', s.after.state.outcome = some (q, d) →
    s'.after.state.outcome = some (q, d') → d = d'

theorem Displayed.add (huuid : uuid.Injective) (h : Displayed uuid log)
    (hc : Change sessionId uuid r log.machine c a m') :
    Displayed uuid ⟨log.past ++ [⟨c, r, log.machine, a, m'⟩], m'⟩ := by
  rcases hc.shows with ⟨card, tier, reasons, at_, hnone, hnew, hseen, hdraws, hpres, hpend⟩ |
    ⟨hpres, hseen, hdraws, hpend⟩
  · -- a new request, under a UUID and an id not used before
    have hunused : card.requestId ∉ (shown log.past).map fun q => q.request.requestId := by
      intro hmem
      obtain ⟨q, hq, heq⟩ := List.mem_map.mp hmem
      exact hnew (heq ▸ h.seen q hq)
    have hshown : shown (log.past ++ [⟨c, r, log.machine, a, m'⟩]) = shown log.past ++
        [log.machine.present sessionId uuid card tier reasons at_] := by
      rw [shown_snoc, hpres]
      rfl
    constructor <;> simp only [hshown, hseen, hdraws, hpend, List.map_append, List.map_singleton,
      List.forall_mem_append, List.forall_mem_singleton, Option.some.injEq, forall_eq']
    · exact ⟨fun q hq => List.mem_cons_of_mem _ (h.seen q hq), List.mem_cons_self⟩
    · rw [← List.concat_eq_append]
      exact List.Nodup.concat hunused h.once
    · exact h.drawn.snoc huuid
    · exact ⟨List.getLast?_concat, saturatingAdd_le at_ approvalDeadlineMs, List.mem_cons_self⟩
  · -- the requests shown are the same, and so is the pending one
    have hshown : shown (log.past ++ [⟨c, r, log.machine, a, m'⟩]) = shown log.past := by
      rw [shown_snoc, hpres]
      exact List.append_nil _
    constructor <;> simp only [hshown, hseen]
    · exact h.seen
    · exact h.once
    · exact h.drawn.mono hdraws
    · intro p' hp'
      obtain ⟨p, hp, _, rfl⟩ := hpend p' hp'
      exact h.pending p hp

theorem Issued.add (huuid : uuid.Injective) (h : Issued uuid log)
    (hc : Change sessionId uuid r log.machine c a m') :
    Issued uuid ⟨log.past ++ [⟨c, r, log.machine, a, m'⟩], m'⟩ := by
  rcases hc.attempts with ⟨p, hstate, hcall, hissued, hdraws, hstate'⟩ | ⟨hissued, hstate⟩
  · constructor <;> simp only [attempts_snoc, hissued, hdraws, hstate', Option.toList_some]
    · exact h.drawn.snoc huuid
    · rintro _ _ ⟨⟩
      exact List.getLast?_concat
  · constructor <;> simp only [attempts_snoc, hissued, Option.toList_none, List.append_nil]
    · exact h.drawn.mono hc.draws_le
    · exact fun p b hb => h.latest p b (hstate p b hb)

theorem ApprovalState.pending_of_outcome {q : String} (h : state.outcome = some (q, d)) :
    state.pending = none := by
  cases state with
  | awaitingUserDecision | awaitingAuthentication | committing | finalizing => cases h
  | _ => rfl

theorem Settled.add (hdisplayed : Displayed uuid log) (h : Settled log)
    (hc : Change sessionId uuid r log.machine c a m') :
    Settled ⟨log.past ++ [⟨c, r, log.machine, a, m'⟩], m'⟩ := by
  have hseen : ∀ q ∈ log.machine.seenRequestIds, q ∈ m'.seenRequestIds := by
    intro q hq
    rcases hc.shows with ⟨_, _, _, _, -, -, hseen, -⟩ | ⟨-, hseen, -⟩
    · exact hseen ▸ List.mem_cons_of_mem _ hq
    · exact hseen ▸ hq
  -- a request decided before is not the one that is pending afterwards
  have hpending : ∀ q ∈ log.machine.seenRequestIds,
      (∀ p, log.machine.state.pending = some p → p.request.requestId ≠ q) →
      ∀ p, m'.state.pending = some p → p.request.requestId ≠ q := by
    intro q hq hother p' hp'
    rcases hc.shows with ⟨card, tier, reasons, at_, -, hnew, -, -, -, hpend⟩ | ⟨-, -, -, hpend⟩
    · rw [hpend] at hp'
      obtain rfl := Option.some.inj hp'
      rintro rfl
      exact hnew hq
    · obtain ⟨p, hp, _, rfl⟩ := hpend p' hp'
      exact hother p hp
  -- what is decided now was pending, or decided before
  have hnow : ∀ q d, m'.state.outcome = some (q, d) →
      (∃ p, log.machine.state.pending = some p ∧ p.request.requestId = q) ∨
        ∃ s ∈ log.past, s.after.state.outcome = some (q, d) := by
    intro q d hout
    rcases hc.outcome with ⟨p, d', hp, hout', -⟩ | heq | hnone
    · rw [hout'] at hout
      exact .inl ⟨p, hp, (Prod.mk.inj (Option.some.inj hout)).1⟩
    · exact .inr (h.now q d (heq ▸ hout))
    · rw [hnone] at hout
      cases hout
  have hagree : ∀ s ∈ log.past, ∀ q d, s.after.state.outcome = some (q, d) →
      ∀ d', m'.state.outcome = some (q, d') → d = d' := by
    intro s hs q d hsd d' hd'
    rcases hnow q d' hd' with ⟨p, hp, hpq⟩ | ⟨s', hs', hsd'⟩
    · exact absurd hpq ((h.before s hs q d hsd).2 p hp)
    · exact h.once s hs s' hs' q d d' hsd hsd'
  constructor <;> simp only [List.forall_mem_append, List.forall_mem_singleton]
  · exact fun q d hout => ⟨_, List.mem_append_right _ (List.mem_singleton_self _), hout⟩
  · refine ⟨fun s hs q d hsd => ?_, fun q d hsd => ⟨?_, fun p hp => ?_⟩⟩
    · obtain ⟨hq, hother⟩ := h.before s hs q d hsd
      exact ⟨hseen q hq, hpending q hq hother⟩
    · rcases hnow q d hsd with ⟨p, hp, rfl⟩ | ⟨s, hs, hs'⟩
      · exact hseen _ (hdisplayed.pending p hp).2.2
      · exact hseen _ (h.before s hs q d hs').1
    · rw [ApprovalState.pending_of_outcome hsd] at hp
      cases hp
  · refine ⟨fun s hs => ⟨h.once s hs, fun q d d' hd hd' => hagree s hs q d hd d' hd'⟩,
      fun s hs q d d' hd hd' => (hagree s hs q d' hd' d hd).symm, fun q d d' hd hd' => ?_⟩
    exact (Prod.mk.inj (Option.some.inj (hd.symm.trans hd'))).2

theorem Call.concerns_instance (h : c.concerns sessionId state = true) (hi : c.instance? = some i) :
    ∃ p, state.pending = some p ∧ p.instanceId = i := by
  cases c with
  | receive | sessionLost | cancel => cases hi
  | completeAuthentication j s b outcome =>
    obtain rfl := Option.some.inj hi
    cases state with
    | awaitingAuthentication p awaited =>
      simp only [Call.concerns, Bool.and_eq_true, addressed_iff] at h
      exact ⟨p, rfl, h.1.1⟩
    | _ => cases h
  | _ =>
    obtain rfl := Option.some.inj hi
    simp only [Call.concerns] at h
    split at h
    · next p hp => exact ⟨p, hp, ((addressed_iff ..).mp h).1⟩
    · cases h

theorem Call.concerns_attempt {s b : String} {outcome : ApprovalAuthOutcome}
    (h : (Call.completeAuthentication i s b outcome).concerns sessionId state = true) :
    ∃ p, state = .awaitingAuthentication p b := by
  cases state with
  | awaitingAuthentication p awaited =>
    simp only [Call.concerns, Bool.and_eq_true, decide_eq_true_eq] at h
    exact ⟨p, by rw [h.2]⟩
  | _ => cases h

/-- In a list without repetition the last entry is not among the earlier ones. -/
theorem not_mem_dropLast {l : List String} {x : String} (hl : l.Nodup) (hx : l.getLast? = some x) :
    x ∉ l.dropLast := by
  intro hmem
  rw [← List.dropLast_append_getLast? x hx] at hl
  exact (List.nodup_append.mp hl).2.2 x hmem x (List.mem_singleton_self x) rfl

/-- A stale callback is not about what is pending now. -/
theorem Call.Stale.unconcerned (hdisplayed : Displayed uuid log) (hissued : Issued uuid log)
    (h : c.Stale log.past) : c.concerns sessionId log.machine.state = false := by
  rw [Bool.eq_false_iff]
  intro hconcerns
  rcases h with ⟨i, hi, hcall⟩ | ⟨i, s, outcome, b, hb, rfl⟩
  · obtain ⟨p, hp, rfl⟩ := Call.concerns_instance hconcerns hcall
    exact not_mem_dropLast hdisplayed.drawn.1 (hdisplayed.pending p hp).1 hi
  · obtain ⟨p, hp⟩ := Call.concerns_attempt hconcerns
    exact not_mem_dropLast hissued.drawn.1 (hissued.latest p b hp) hb

/-- Everything a history has to hold. -/
structure Sound (sessionId : String) (uuid : Nat → String) (log : Log) : Prop where
  standing : Standing sessionId log.past log.machine.state
  displayed : Displayed uuid log
  issued : Issued uuid log
  settled : Settled log
  authorized : Always (SignsAuthorized sessionId) log.past
  unmoved : Always (IgnoresOthers sessionId) log.past

/-- An approval is let through from the state that stands for consent. -/
theorem Sound.signsAuthorized (h : Sound sessionId uuid log)
    (hc : Change sessionId uuid r log.machine c a m') :
    SignsAuthorized sessionId log.past ⟨c, r, log.machine, a, m'⟩ := by
  rintro i s d ⟨⟩ i' s' ⟨⟩
  cases hc with
  | @sign p _ hstate hactive htime =>
    have hp : log.machine.state.pending = some p := by rw [hstate]; rfl
    have hstanding := h.standing
    rw [hstate] at hstanding
    refine ⟨p, hp, rfl, rfl, hstanding.2 rfl, hactive, ?_⟩
    exact Int.lt_of_lt_of_le (htime rfl) (h.displayed.pending p hp).2.1

theorem Sound.add (huuid : uuid.Injective) (h : Sound sessionId uuid log) (call : Call × Reading) :
    Sound sessionId uuid (log.add sessionId uuid call) := by
  have hc := @call_change sessionId uuid call.2 log.machine call.1
  refine ⟨h.standing.change hc, h.displayed.add huuid hc, h.issued.add huuid hc,
    h.settled.add h.displayed hc, ?_, ?_⟩
  · exact always_snoc.mpr ⟨h.authorized, h.signsAuthorized hc⟩
  · refine always_snoc.mpr ⟨h.unmoved, ?_⟩
    rintro (hother | hstale)
    · exact congrArg Machine.state (call_unconcerned hother)
    · exact congrArg Machine.state
        (call_unconcerned (hstale.unconcerned h.displayed h.issued))

theorem Sound.new : Sound sessionId uuid .new where
  standing := trivial
  displayed := by constructor <;> simp [Log.new, Machine.new, shown, ApprovalState.pending, Drawn]
  issued := by constructor <;> simp [Log.new, Machine.new, attempts, Drawn]
  settled := by constructor <;> simp [Log.new, Machine.new, ApprovalState.outcome]
  authorized := always_nil
  unmoved := always_nil

theorem history_sound (huuid : uuid.Injective) (calls : List (Call × Reading)) :
    Sound sessionId uuid (history sessionId uuid calls) := by
  induction calls using List.reverseRecOn with
  | nil => exact .new
  | append_singleton calls call ih =>
    rw [history, List.foldl_append]
    exact ih.add huuid call

/-- Whatever calls are made, in whatever order and under whatever readings of session and clock:
only consent of the user, in time and authenticated where required, is signed; no request is
shown twice or decided twice; and what is not about the pending request changes nothing. -/
theorem approvals_trustworthy (huuid : uuid.Injective) (calls : List (Call × Reading)) :
    Trustworthy sessionId (history sessionId uuid calls).past :=
  have h := history_sound huuid calls
  { authorized := h.authorized
    shownOnce := h.displayed.once
    oneOutcome := h.settled.once
    unmoved := h.unmoved }

end Histories

/-- A Tier 3 request is approved after one failed authentication; the result of the first attempt,
delivered again, is ignored, and the signature is let through at the end. -/
theorem retried_approval_trustworthy :
    let uuid := fun n => String.ofList (List.replicate (n + 1) 'u')
    let card : ApprovalRequestCard :=
      ⟨"r1", "api_call", "desk", "mail", "GET", "/inbox", "{}", none, 1700000000⟩
    let calls : List (Call × Reading) :=
      [(.receive card .tier3 ["high risk"] 1000, ⟨true, 1000⟩),
       (.approve "u" "s", ⟨true, 2000⟩),
       (.completeAuthentication "u" "s" "uu" .failed, ⟨true, 3000⟩),
       (.approve "u" "s", ⟨true, 4000⟩),
       (.completeAuthentication "u" "s" "uu" .succeeded, ⟨true, 4500⟩),
       (.completeAuthentication "u" "s" "uuu" .succeeded, ⟨true, 5000⟩),
       (.beforeFinalize "u" "s" .approved, ⟨true, 5001⟩),
       (.beforeSign "u" "s" .approved, ⟨true, 5002⟩)]
    ((history "s" uuid calls).past.map Step.action).getLast? =
        some (.finalize "u" "s" .approved) ∧
      Trustworthy "s" (history "s" uuid calls).past := by
  refine ⟨by decide +kernel, approvals_trustworthy (fun m n hmn => ?_) _⟩
  have hlength := congrArg String.length hmn
  simpa using hlength

end Conveyance.Phone
