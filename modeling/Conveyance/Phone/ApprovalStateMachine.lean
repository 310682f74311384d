import Conveyance.Lib.Transition
import Conveyance.Lib.Bytes

/-!
# The phone's approval state machine (android, approval/ApprovalStateMachine.kt)

One request at a time is shown to the user, decided, and its decision carried
through two more checks before it is signed. Every callback names the instance and
the session it is about, and an authentication result the attempt it belongs to.

`Reading` is what `session.isActive()` and the monotonic clock say during a call;
each callback asks each of them at most once. UUIDs are numbered in the order they
are drawn. `Change` says all that a call can do.
-/

namespace Conveyance.Phone

open Lib

/-! ## Data -/

inductive ApprovalRequiredTier where
  | tier2
  | tier3
deriving DecidableEq

inductive ApprovalAuthStatus where
  | notRequired
  | notStarted
  | inProgress
  | cancelled
  | failed
  | succeeded
deriving DecidableEq

inductive ApprovalAuthOutcome where
  | succeeded
  | cancelled
  | failed
deriving DecidableEq

inductive ApprovalDecision where
  | approved
  | denied
  | expired
deriving DecidableEq

structure ApprovalRequestCard where
  requestId : String
  opType : String
  pairedPcName : String
  service : String
  method : String
  endpoint : String
  paramsJson : String
  requestedBy : Option String
  timestampUnixSeconds : Int64
deriving DecidableEq

/-- `AwaitingUserDecision`, which the later states carry along. -/
structure Pending where
  instanceId : String
  sessionId : String
  request : ApprovalRequestCard
  requiredTier : ApprovalRequiredTier
  tier3Reasons : List String
  receivedAtElapsedMs : Int
  deadlineElapsedMs : Int
  authStatus : ApprovalAuthStatus
deriving DecidableEq

inductive ApprovalState where
  | empty
  | awaitingUserDecision (pending : Pending)
  | awaitingAuthentication (pending : Pending) (attemptId : String)
  | committing (pending : Pending) (decision : ApprovalDecision)
  /-- Claimed after the last check of session and deadline. -/
  | finalizing (pending : Pending) (decision : ApprovalDecision)
  | approved (instanceId requestId : String)
  | denied (instanceId requestId : String)
  | expired (instanceId requestId : String)
  | sessionLost (instanceId requestId : String)
  | cancelled (instanceId requestId : String)
  | failed (instanceId requestId safeMessage : String)
deriving DecidableEq

inductive Rejection where
  | noActiveSession
  | requestAlreadyPending
  | replayedRequestId
deriving DecidableEq

inductive ApprovalAction where
  | ignored
  | authenticate (instanceId sessionId attemptId : String) (deadlineElapsedMs : Int)
  | finalize (instanceId sessionId : String) (decision : ApprovalDecision)
  | rejected (reason : Rejection)
deriving DecidableEq

def approvalDeadlineMs : Int := 60000

/-- Addition of Kotlin `Long`s that stops at the largest one. -/
def saturatingAdd (value delta : Int) : Int :=
  if value > 2 ^ 63 - 1 - delta then 2 ^ 63 - 1 else value + delta

theorem saturatingAdd_le (value delta : Int) : saturatingAdd value delta ≤ value + delta := by
  unfold saturatingAdd
  split_ifs <;> omega

/-- What the session and the clock say during one call. -/
structure Reading where
  active : Bool
  now : Int

structure Machine where
  seenRequestIds : List String
  state : ApprovalState
  /-- UUIDs drawn so far. -/
  draws : Nat

inductive Call where
  | receive (card : ApprovalRequestCard) (tier : ApprovalRequiredTier) (tier3Reasons : List String)
      (receivedAtElapsedMs : Int)
  | approve (instanceId sessionId : String)
  | deny (instanceId sessionId : String)
  | completeAuthentication (instanceId sessionId attemptId : String) (outcome : ApprovalAuthOutcome)
  | expire (instanceId sessionId : String)
  | beforeFinalize (instanceId sessionId : String) (expectedDecision : ApprovalDecision)
  | beforeSign (instanceId sessionId : String) (expectedDecision : ApprovalDecision)
  | completeFinalization (instanceId sessionId : String) (decision : ApprovalDecision) (sent : Bool)
  | failFinalization (instanceId sessionId safeMessage : String)
  | sessionLost
  | cancel
deriving DecidableEq

def Call.isReceive : Call → Bool
  | .receive .. => true
  | _ => false

/-- `pendingFrom`; `hasNonTerminalRequest` asks whether there is one. -/
def ApprovalState.pending : ApprovalState → Option Pending
  | .awaitingUserDecision p => some p
  | .awaitingAuthentication p _ => some p
  | .committing p _ => some p
  | .finalizing p _ => some p
  | _ => none

/-- The user may still decide. -/
def ApprovalState.undecided : ApprovalState → Option Pending
  | .awaitingUserDecision p => some p
  | .awaitingAuthentication p _ => some p
  | _ => none

theorem ApprovalState.pending_of_undecided {s : ApprovalState} {p : Pending}
    (h : s.undecided = some p) : s.pending = some p := by
  cases s with
  | awaitingUserDecision | awaitingAuthentication => exact h
  | _ => cases h

namespace Machine

def new : Machine := ⟨[], .empty, 0⟩

section Calls

variable (sessionId : String) (uuid : Nat → String) (r : Reading) (m : Machine)

def goto (state : ApprovalState) : Machine := { m with state }

def lose (p : Pending) : Machine := m.goto (.sessionLost p.instanceId p.request.requestId)

/-- The callback is about this request and this session. -/
def addressed (p : Pending) (instanceId callbackSessionId : String) : Bool :=
  p.instanceId = instanceId ∧ p.sessionId = callbackSessionId ∧ callbackSessionId = sessionId

/-- The request expires now: what its callers do with it comes next. -/
def expireNow (p : Pending) : Machine × ApprovalAction :=
  (m.goto (.committing p .expired), .finalize p.instanceId sessionId .expired)

/-- `expireOrLoseSession`; `next` when neither is the case. -/
def expireOrLoseSession (p : Pending) (next : Machine × ApprovalAction) :
    Machine × ApprovalAction :=
  if !r.active then (m.lose p, .ignored)
  else if r.now ≥ p.deadlineElapsedMs then m.expireNow sessionId p
  else next

/-- The request id is used up, and so is a UUID. -/
def accept (requestId : String) : Machine :=
  { m with seenRequestIds := requestId :: m.seenRequestIds, draws := m.draws + 1 }

/-- The request a `receive` makes pending. -/
def present (card : ApprovalRequestCard) (tier : ApprovalRequiredTier)
    (tier3Reasons : List String) (receivedAtElapsedMs : Int) : Pending where
  instanceId := uuid m.draws
  sessionId := sessionId
  request := card
  requiredTier := tier
  tier3Reasons := tier3Reasons
  receivedAtElapsedMs := receivedAtElapsedMs
  deadlineElapsedMs := saturatingAdd receivedAtElapsedMs approvalDeadlineMs
  authStatus := if tier = .tier2 then .notRequired else .notStarted

def receive (card : ApprovalRequestCard) (tier : ApprovalRequiredTier)
    (tier3Reasons : List String) (receivedAtElapsedMs : Int) : Machine × ApprovalAction :=
  if !r.active then (m, .rejected .noActiveSession)
  else if m.state.pending.isSome then (m, .rejected .requestAlreadyPending)
  else if card.requestId ∈ m.seenRequestIds then (m, .rejected .replayedRequestId)
  else
    let p := m.present sessionId uuid card tier tier3Reasons receivedAtElapsedMs
    let m := m.accept card.requestId
    if r.now ≥ p.deadlineElapsedMs then m.expireNow sessionId p
    else (m.goto (.awaitingUserDecision p), .ignored)

section

variable (instanceId callbackSessionId : String)

def pendingForApprove : Option Pending :=
  match m.state with
  | .awaitingUserDecision p =>
    if addressed sessionId p instanceId callbackSessionId then some p else none
  | _ => none

def pendingForAction : Option Pending :=
  match m.state with
  | .awaitingUserDecision p | .awaitingAuthentication p _ =>
    if addressed sessionId p instanceId callbackSessionId then some p else none
  | _ => none

def approve : Machine × ApprovalAction :=
  match m.pendingForApprove sessionId instanceId callbackSessionId with
  | none => (m, .ignored)
  | some p =>
    m.expireOrLoseSession sessionId r p <|
      if p.requiredTier = .tier3 then
        let attemptId := uuid m.draws
        ({ m with
            draws := m.draws + 1
            state := .awaitingAuthentication { p with authStatus := .inProgress } attemptId },
          .authenticate instanceId sessionId attemptId p.deadlineElapsedMs)
      else (m.goto (.committing p .approved), .finalize instanceId sessionId .approved)

def deny : Machine × ApprovalAction :=
  match m.pendingForAction sessionId instanceId callbackSessionId with
  | none => (m, .ignored)
  | some p =>
    m.expireOrLoseSession sessionId r p
      (m.goto (.committing p .denied), .finalize instanceId sessionId .denied)

end

def completeAuthentication (instanceId callbackSessionId attemptId : String)
    (outcome : ApprovalAuthOutcome) : Machine × ApprovalAction :=
  match m.state with
  | .awaitingAuthentication p awaited =>
    if addressed sessionId p instanceId callbackSessionId ∧ awaited = attemptId then
      m.expireOrLoseSession sessionId r p <|
        match outcome with
        | .succeeded => (m.goto (.committing { p with authStatus := .succeeded } .approved),
            .finalize instanceId sessionId .approved)
        | .cancelled => (m.goto (.awaitingUserDecision { p with authStatus := .cancelled }),
          .ignored)
        | .failed => (m.goto (.awaitingUserDecision { p with authStatus := .failed }), .ignored)
    else (m, .ignored)
  | _ => (m, .ignored)

section

variable (instanceId callbackSessionId : String)

def expire : Machine × ApprovalAction :=
  match m.pendingForAction sessionId instanceId callbackSessionId with
  | none => (m, .ignored)
  | some p =>
    -- here the deadline comes first, and the session second
    if r.now < p.deadlineElapsedMs then (m, .ignored)
    else if !r.active then (m.lose p, .ignored)
    else m.expireNow sessionId p

/-- The two rechecks: what is expected, and still in time if it is an approval. -/
def recheck (p : Pending) (expectedDecision : ApprovalDecision) (next : Machine) :
    Machine × ApprovalAction :=
  if !r.active then (m.lose p, .ignored)
  else if expectedDecision = .approved ∧ r.now ≥ p.deadlineElapsedMs then m.expireNow sessionId p
  else (next, .finalize p.instanceId sessionId expectedDecision)

def beforeFinalize (expectedDecision : ApprovalDecision) :
    Machine × ApprovalAction :=
  match m.state with
  | .committing p decision =>
    if addressed sessionId p instanceId callbackSessionId ∧ decision = expectedDecision then
      m.recheck sessionId r p expectedDecision (m.goto (.finalizing p expectedDecision))
    else (m, .ignored)
  | _ => (m, .ignored)

def beforeSign (expectedDecision : ApprovalDecision) :
    Machine × ApprovalAction :=
  match m.state with
  | .finalizing p decision =>
    if addressed sessionId p instanceId callbackSessionId ∧ decision = expectedDecision then
      m.recheck sessionId r p expectedDecision m
    else (m, .ignored)
  | _ => (m, .ignored)

/-- The final state of a decision. -/
def reached (p : Pending) : ApprovalDecision → ApprovalState
  | .approved => .approved p.instanceId p.request.requestId
  | .denied => .denied p.instanceId p.request.requestId
  | .expired => .expired p.instanceId p.request.requestId

def completeFinalization (decision : ApprovalDecision)
    (sent : Bool) : Machine × ApprovalAction :=
  match m.state with
  | .finalizing p claimed =>
    if addressed sessionId p instanceId callbackSessionId ∧ claimed = decision then
      if sent then (m.goto (reached p decision), .ignored) else (m.lose p, .ignored)
    else (m, .ignored)
  | _ => (m, .ignored)

end

def failFinalization (instanceId callbackSessionId safeMessage : String) :
    Machine × ApprovalAction :=
  match m.state with
  | .committing p _ | .finalizing p _ =>
    if addressed sessionId p instanceId callbackSessionId then
      (m.goto (.failed instanceId p.request.requestId safeMessage), .ignored)
    else (m, .ignored)
  | _ => (m, .ignored)

def sessionLost : Machine × ApprovalAction :=
  match m.state.pending with
  | some p => (m.lose p, .ignored)
  | none => (m, .ignored)

def cancel : Machine × ApprovalAction :=
  match m.state.pending with
  | some p => (m.goto (.cancelled p.instanceId p.request.requestId), .ignored)
  | none => (m, .ignored)

def call : Call → Machine × ApprovalAction
  | .receive card tier reasons at_ => m.receive sessionId uuid r card tier reasons at_
  | .approve i s => m.approve sessionId uuid r i s
  | .deny i s => m.deny sessionId r i s
  | .completeAuthentication i s a outcome => m.completeAuthentication sessionId r i s a outcome
  | .expire i s => m.expire sessionId r i s
  | .beforeFinalize i s d => m.beforeFinalize sessionId r i s d
  | .beforeSign i s d => m.beforeSign sessionId r i s d
  | .completeFinalization i s d sent => m.completeFinalization sessionId i s d sent
  | .failFinalization i s text => m.failFinalization sessionId i s text
  | .sessionLost => m.sessionLost
  | .cancel => m.cancel

/-! ## What a call can do -/

@[simp] theorem addressed_iff (p : Pending) (i s : String) :
    addressed sessionId p i s = true ↔ p.instanceId = i ∧ p.sessionId = s ∧ s = sessionId := by
  simp [addressed]

/-- Everything a call can do to the machine, with what it checks on the way. -/
inductive Change : Call → ApprovalAction → Machine → Prop
  | ignore {c : Call} (hcall : c.isReceive = false) :
      Change c .ignored m
  | reject {c : Call} {reason : Rejection} : Change c (.rejected reason) m
  | present {card : ApprovalRequestCard} {tier : ApprovalRequiredTier} {reasons : List String}
      {at_ : Int} (hnone : m.state.pending = none) (hnew : card.requestId ∉ m.seenRequestIds) :
      Change (.receive card tier reasons at_) .ignored
        ((m.accept card.requestId).goto
          (.awaitingUserDecision (m.present sessionId uuid card tier reasons at_)))
  | presentLate {card : ApprovalRequestCard} {tier : ApprovalRequiredTier} {reasons : List String}
      {at_ : Int} (hnone : m.state.pending = none) (hnew : card.requestId ∉ m.seenRequestIds) :
      Change (.receive card tier reasons at_)
        (.finalize (uuid m.draws) sessionId .expired)
        ((m.accept card.requestId).goto
          (.committing (m.present sessionId uuid card tier reasons at_) .expired))
  | approve {p : Pending} (hstate : m.state = .awaitingUserDecision p)
      (htier : p.requiredTier ≠ .tier3) :
      Change (.approve p.instanceId sessionId) (.finalize p.instanceId sessionId .approved)
        (m.goto (.committing p .approved))
  | ask {p : Pending} (hstate : m.state = .awaitingUserDecision p)
      (htier : p.requiredTier = .tier3) :
      Change (.approve p.instanceId sessionId)
        (.authenticate p.instanceId sessionId (uuid m.draws) p.deadlineElapsedMs)
        { m with
          draws := m.draws + 1
          state := .awaitingAuthentication { p with authStatus := .inProgress } (uuid m.draws) }
  | deny {p : Pending} (hopen : m.state.undecided = some p) :
      Change (.deny p.instanceId sessionId) (.finalize p.instanceId sessionId .denied)
        (m.goto (.committing p .denied))
  | authenticated {p : Pending} {a : String} (hstate : m.state = .awaitingAuthentication p a) :
      Change (.completeAuthentication p.instanceId sessionId a .succeeded)
        (.finalize p.instanceId sessionId .approved)
        (m.goto (.committing { p with authStatus := .succeeded } .approved))
  | retry {p : Pending} {a : String} {outcome : ApprovalAuthOutcome} {status : ApprovalAuthStatus}
      (hstate : m.state = .awaitingAuthentication p a) :
      Change (.completeAuthentication p.instanceId sessionId a outcome) .ignored
        (m.goto (.awaitingUserDecision { p with authStatus := status }))
  | lapse {c : Call} {p : Pending} (hopen : m.state.undecided = some p)
      (hcall : c.isReceive = false) :
      Change c (.finalize p.instanceId sessionId .expired) (m.goto (.committing p .expired))
  | lapseClaim {p : Pending} (hstate : m.state = .committing p .approved) :
      Change (.beforeFinalize p.instanceId sessionId .approved)
        (.finalize p.instanceId sessionId .expired) (m.goto (.committing p .expired))
  | lapseSign {p : Pending} (hstate : m.state = .finalizing p .approved) :
      Change (.beforeSign p.instanceId sessionId .approved)
        (.finalize p.instanceId sessionId .expired) (m.goto (.committing p .expired))
  | lose {c : Call} {p : Pending} (hpending : m.state.pending = some p)
      (hcall : c.isReceive = false) :
      Change c .ignored (m.lose p)
  | claim {p : Pending} {d : ApprovalDecision} (hstate : m.state = .committing p d) :
      Change (.beforeFinalize p.instanceId sessionId d) (.finalize p.instanceId sessionId d)
        (m.goto (.finalizing p d))
  | sign {p : Pending} {d : ApprovalDecision} (hstate : m.state = .finalizing p d)
      (hactive : r.active = true) (htime : d = .approved → r.now < p.deadlineElapsedMs) :
      Change (.beforeSign p.instanceId sessionId d) (.finalize p.instanceId sessionId d) m
  | finish {p : Pending} {d : ApprovalDecision} (hstate : m.state = .finalizing p d) :
      Change (.completeFinalization p.instanceId sessionId d true) .ignored
        (m.goto (reached p d))
  | fail {p : Pending} {d : ApprovalDecision} {text : String}
      (hstate : m.state = .committing p d ∨ m.state = .finalizing p d) :
      Change (.failFinalization p.instanceId sessionId text) .ignored
        (m.goto (.failed p.instanceId p.request.requestId text))
  | cancel {p : Pending} (hpending : m.state.pending = some p) :
      Change .cancel .ignored (m.goto (.cancelled p.instanceId p.request.requestId))

variable {sessionId uuid r m}

variable {p : Pending} {i s : String} {c : Call}

theorem pendingForApprove_some (h : m.pendingForApprove sessionId i s = some p) :
    m.state = .awaitingUserDecision p ∧ p.instanceId = i ∧ s = sessionId := by
  simp only [pendingForApprove, addressed_iff] at h
  split at h
  · next q hstate =>
    split_ifs at h with haddr
    obtain rfl := Option.some.inj h
    exact ⟨hstate, haddr.1, haddr.2.2⟩
  · cases h

theorem pendingForAction_some (h : m.pendingForAction sessionId i s = some p) :
    m.state.undecided = some p ∧ p.instanceId = i ∧ s = sessionId := by
  simp only [pendingForAction, addressed_iff] at h
  split at h
  · next q hstate =>
    split_ifs at h with haddr
    obtain rfl := Option.some.inj h
    exact ⟨by rw [hstate]; rfl, haddr.1, haddr.2.2⟩
  · next q _ hstate =>
    split_ifs at h with haddr
    obtain rfl := Option.some.inj h
    exact ⟨by rw [hstate]; rfl, haddr.1, haddr.2.2⟩
  · cases h

/-- A callback that got past its ids: lost, lapsed, or what comes next. -/
theorem change_expireOrLoseSession {next : Machine × ApprovalAction}
    (hopen : m.state.undecided = some p) (hcall : c.isReceive = false)
    (hnext : Change sessionId uuid r m c next.2 next.1) :
    Change sessionId uuid r m c (m.expireOrLoseSession sessionId r p next).2
      (m.expireOrLoseSession sessionId r p next).1 := by
  unfold expireOrLoseSession
  split_ifs
  · exact .lose (ApprovalState.pending_of_undecided hopen) hcall
  · exact .lapse hopen hcall
  · exact hnext

theorem change_recheck {d : ApprovalDecision} {next : Machine} (hpending : m.state.pending = some p)
    (hcall : c.isReceive = false)
    (hlapse : d = .approved → Change sessionId uuid r m c
      (.finalize p.instanceId sessionId .expired) (m.goto (.committing p .expired)))
    (hnext : r.active = true → (d = .approved → r.now < p.deadlineElapsedMs) →
      Change sessionId uuid r m c (.finalize p.instanceId sessionId d) next) :
    Change sessionId uuid r m c (m.recheck sessionId r p d next).2
      (m.recheck sessionId r p d next).1 := by
  unfold recheck
  split_ifs with hlost hlate
  · exact .lose hpending hcall
  · exact hlapse hlate.1
  · refine hnext (by simpa using hlost) (fun happroved => ?_)
    by_contra hnot
    exact hlate ⟨happroved, by omega⟩

/-- No call does anything else. -/
theorem call_change (c : Call) :
    Change sessionId uuid r m c (m.call sessionId uuid r c).2 (m.call sessionId uuid r c).1 := by
  cases c with
  | receive card tier reasons at_ =>
    simp only [call, receive]
    split_ifs with hlost hbusy hseen hlate
    · exact .reject
    · exact .reject
    · exact .reject
    · exact .presentLate (by simpa using hbusy) hseen
    · exact .present (by simpa using hbusy) hseen
  | approve i s =>
    simp only [call, approve]
    split
    · exact .ignore rfl
    · next p hp =>
      obtain ⟨hstate, rfl, rfl⟩ := pendingForApprove_some hp
      refine change_expireOrLoseSession (by rw [hstate]; rfl) rfl ?_
      split_ifs with htier
      · exact .ask hstate htier
      · exact .approve hstate htier
  | deny i s =>
    simp only [call, deny]
    split
    · exact .ignore rfl
    · next p hp =>
      obtain ⟨hopen, rfl, rfl⟩ := pendingForAction_some hp
      exact change_expireOrLoseSession hopen rfl (.deny hopen)
  | completeAuthentication i s a outcome =>
    simp only [call, completeAuthentication, addressed_iff]
    split
    · next p awaited hstate =>
      split_ifs with hids
      · obtain ⟨⟨rfl, -, rfl⟩, rfl⟩ := hids
        refine change_expireOrLoseSession (by rw [hstate]; rfl) rfl ?_
        cases outcome with
        | succeeded => exact .authenticated hstate
        | cancelled | failed => exact .retry hstate
      · exact .ignore rfl
    · exact .ignore rfl
  | expire i s =>
    simp only [call, expire]
    split
    · exact .ignore rfl
    · next p hp =>
      obtain ⟨hopen, rfl, rfl⟩ := pendingForAction_some hp
      split_ifs
      · exact .ignore rfl
      · exact .lose (ApprovalState.pending_of_undecided hopen) rfl
      · exact .lapse hopen rfl
  | beforeFinalize i s d =>
    simp only [call, beforeFinalize, addressed_iff]
    split
    · next p decision hstate =>
      split_ifs with hids
      · obtain ⟨⟨rfl, -, rfl⟩, rfl⟩ := hids
        refine change_recheck (by rw [hstate]; rfl) rfl ?_ fun _ _ => .claim hstate
        rintro rfl
        exact .lapseClaim hstate
      · exact .ignore rfl
    · exact .ignore rfl
  | beforeSign i s d =>
    simp only [call, beforeSign, addressed_iff]
    split
    · next p decision hstate =>
      split_ifs with hids
      · obtain ⟨⟨rfl, -, rfl⟩, rfl⟩ := hids
        refine change_recheck (by rw [hstate]; rfl) rfl ?_ fun hactive htime =>
          .sign hstate hactive htime
        rintro rfl
        exact .lapseSign hstate
      · exact .ignore rfl
    · exact .ignore rfl
  | completeFinalization i s d sent =>
    simp only [call, completeFinalization, addressed_iff]
    split
    · next p claimed hstate =>
      split_ifs with hids hsent
      · obtain ⟨⟨rfl, -, rfl⟩, rfl⟩ := hids
        subst hsent
        exact .finish hstate
      · exact .lose (by rw [hstate]; rfl) rfl
      · exact .ignore rfl
    · exact .ignore rfl
  | failFinalization i s text =>
    simp only [call, failFinalization, addressed_iff]
    split
    · next p _ hstate =>
      split_ifs with haddr
      · obtain ⟨rfl, -, rfl⟩ := haddr
        exact .fail (.inl hstate)
      · exact .ignore rfl
    · next p _ hstate =>
      split_ifs with haddr
      · obtain ⟨rfl, -, rfl⟩ := haddr
        exact .fail (.inr hstate)
      · exact .ignore rfl
    · exact .ignore rfl
  | sessionLost =>
    simp only [call, sessionLost]
    split
    · next p hp => exact .lose hp rfl
    · exact .ignore rfl
  | cancel =>
    simp only [call, cancel]
    split
    · next p hp => exact .cancel hp
    · exact .ignore rfl

end Calls

end Machine

end Conveyance.Phone
