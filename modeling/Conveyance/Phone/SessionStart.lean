import Conveyance.Phone.Session

/-!
# How starting a session ends (android, session/PhoneSession.kt)

Four fields of the session decide how `start` ends: its state with the states before it,
the handshake's decision and the deferred `start` waits for (`SessionCore`).
`SessionChange` says all that one step can do to them after the handshake has begun, and
`StartInv` is kept by each change wherever `start` is.

Two steps of `start` call `abortHandshake` without a look at the state: a write of the
first message that fails, and a timeout. `Misfires` is such a step behind a promotion. It is
also a step of `sendFramed` whose exception nothing catches: the message cannot be split, or
the link refuses a frame. The handshake then goes on without its caller.
-/

namespace Conveyance.Phone

open Lib PhoneSession SessionStateMachine
open Conveyance.Core (SessionState EndReason TimerEvent)

/-- What `start` depends on. -/
structure SessionCore where
  state : SessionState
  history : List SessionState
  decision : HandshakeDecision
  done : Option (Except SessionException Unit)

def PhoneSession.core {E : Endpoint} (s : PhoneSession E) : SessionCore :=
  ⟨s.state, s.history, s.decision, s.handshakeDone⟩

/-- `compareAndSet(Pending, Cancelled)`. -/
def HandshakeDecision.claimed : HandshakeDecision → HandshakeDecision
  | .pending => .cancelled
  | decision => decision

/-- What a step can do to a session. -/
inductive SessionChange (c : SessionCore) : SessionCore → Prop where
  | keep : SessionChange c c
  | claimed : SessionChange c { c with decision := c.decision.claimed }
  | aborted (cause : SessionException) : c.state = .handshaking →
      SessionChange c ⟨.noSession, c.history ++ [.noSession], c.decision.claimed,
        some (c.done.getD (.error cause))⟩
  | promoted : c.state = .handshaking → c.decision = .pending →
      SessionChange c ⟨.active, c.history ++ [.active], .promoted, some (c.done.getD (.ok ()))⟩
  | lived (state : SessionState) : isLive c.state = true → isLive state = true →
      SessionChange c { c with state, history := c.history ++ [state] }
  | ended : isLive c.state = true →
      SessionChange c { c with state := .ended, history := c.history ++ [.ended] }

def Effect.isEnd : Effect → Bool
  | .onEnded _ => true
  | _ => false

/-- How often `onEnded` is called. -/
def ends (effects : List Effect) : Nat := effects.countP Effect.isEnd

/-! ## What the methods do -/

section Methods

variable {E : Endpoint} {s : PhoneSession E}

@[simp] theorem core_closeNoise : s.closeNoise.core = s.core := by
  unfold closeNoise
  split_ifs <;> rfl

@[simp] theorem core_tearDownHandshake : s.tearDownHandshake.core = s.core := by
  unfold tearDownHandshake
  split_ifs
  · rfl
  · exact core_closeNoise

theorem core_claim : s.claim.core = { s.core with decision := s.decision.claimed } := by
  unfold claim
  cases hdecision : s.decision <;> simp [core, HandshakeDecision.claimed, hdecision]

theorem claim_change : SessionChange s.core s.claim.core := by
  rw [core_claim]
  exact .claimed

theorem core_complete (result : Except SessionException Unit) :
    (s.complete result).core = { s.core with done := some (s.core.done.getD result) } := by
  unfold complete
  cases hdone : s.handshakeDone <;> simp [core, hdone]

variable {event : Core.Event} {state : SessionState}

theorem applyEvent_moved (h : target s.state event = some state) :
    s.applyEvent event = ({ s with state, history := s.history ++ [state] }, true) := by
  simp [applyEvent, step, h]

theorem applyEvent_illegal (h : target s.state event = none) : s.applyEvent event = (s, false) := by
  simp [applyEvent, step, h]

theorem core_applyEvent : (s.applyEvent event).1.core =
    (target s.core.state event).elim s.core fun state =>
      { s.core with state, history := s.core.history ++ [state] } := by
  cases h : target s.state event <;>
    simp [applyEvent_illegal, applyEvent_moved, h, core]

/-- An event that only ends live sessions. -/
def Terminal (event : Core.Event) : Prop :=
  ∀ state target, SessionStateMachine.target state event = some target →
    isLive state = true ∧ target = .ended

/-- The events that end a session. -/
inductive EndsSession : Core.Event → Prop
  | idleExpired : EndsSession .idleExpired
  | hardCapReached : EndsSession .hardCapReached
  | peerDisconnected : EndsSession .peerDisconnected
  | endRequested (reason : EndReason) : EndsSession (.endRequested reason)

/-- They end the live sessions, and mean nothing to the others. -/
theorem target_endsSession (hevent : EndsSession event) (state : SessionState) :
    target state event = if isLive state = true then some .ended else none := by
  cases hevent <;> cases state <;> rfl

theorem terminal_of_endsSession (hevent : EndsSession event) : Terminal event := by
  intro state target h
  rw [target_endsSession hevent, Option.ite_none_right_eq_some] at h
  exact ⟨h.1, (Option.some.inj h.2).symm⟩

/-- An event that moves live sessions to live ones. -/
def Lively (event : Core.Event) : Prop :=
  ∀ state target, SessionStateMachine.target state event = some target →
    isLive state = true ∧ isLive target = true

theorem lively_activity : Lively .activity := by
  intro state target h
  cases state <;> cases target <;> simp_all [SessionStateMachine.target, isLive]

theorem lively_warningDue : Lively .warningDue := by
  intro state target h
  cases state <;> cases target <;> simp_all [SessionStateMachine.target, isLive]

/-- The cleanup behind an event that moved the state. -/
theorem terminate_moved (htarget : target s.state event = some state) (reason : EndReason) :
    s.terminate event reason =
      ({ (({ s with state, history := s.history ++ [state], timers := false }).emit
          (if s.timers then [.timersCancelled] else [])).closeNoise with
        inboundClosed := true, linkDown := true, scopeActive := false }).emit
          [.identityClosed, .inboundClosed, .linkShutdown, .onEnded reason, .scopeCancelled] := by
  unfold terminate
  rw [applyEvent_moved htarget]

theorem terminate_illegal (htarget : target s.state event = none)
    (reason : EndReason) : s.terminate event reason = s := by
  unfold terminate
  rw [applyEvent_illegal htarget]

theorem core_terminate (htarget : target s.state event = some state) (reason : EndReason) :
    (s.terminate event reason).core =
      { s.core with state, history := s.core.history ++ [state] } := by
  rw [terminate_moved htarget]
  exact core_closeNoise

/-- Behind an event that ends a live session. -/
theorem terminate_live (hevent : EndsSession event) (hlive : isLive s.state = true)
    (reason : EndReason) : (s.terminate event reason).state = .ended := by
  have htarget := (target_endsSession hevent s.state).trans (if_pos hlive)
  exact congrArg SessionCore.state (core_terminate htarget reason)

theorem endFor_live (hlive : isLive s.state = true) (reason : EndReason) :
    (s.endFor reason).state = .ended :=
  terminate_live (.endRequested reason) hlive reason

theorem endFromTeardown_live (hlive : isLive s.state = true) (teardown : LinkTeardown) :
    (s.endFromTeardown teardown).state = .ended := by
  unfold endFromTeardown
  split_ifs
  · exact terminate_live .peerDisconnected hlive _
  · exact endFor_live hlive _

/-- What `abortHandshake` makes of a session. -/
def PhoneSession.aborted (s : PhoneSession E) (cause : SessionException) : PhoneSession E :=
  ((s.claim.applyEvent .aborted).1.complete (.error cause)).tearDownHandshake

/-- What a promotion makes of it, with the completion behind it. -/
def PhoneSession.promotion (s : PhoneSession E) : PhoneSession E :=
  { ({ s with decision := .promoted }.applyEvent .handshakeCompleted).1 with
    timers := true }.complete (.ok ())

/-- Out of the handshake, or without one: then only the decision and the deferred are
settled. -/
theorem core_aborted (hstate : s.state = .handshaking ∨ s.state = .noSession)
    (cause : SessionException) :
    (s.aborted cause).core = ⟨.noSession,
      if s.state = .handshaking then s.history ++ [.noSession] else s.history,
      s.decision.claimed, some (s.handshakeDone.getD (.error cause))⟩ := by
  rw [aborted, core_tearDownHandshake, core_complete, core_applyEvent, core_claim]
  rcases hstate with hstate | hstate <;>
    simp [core, target, hstate]

/-! ## What a block does -/

/-- Nothing of the core: other fields, and effects of a scope that is active. The number of
the next frame stays where `n` holds. -/
structure Still (n : Prop) (s s' : PhoneSession E) (more : List Effect) : Prop where
  core : s'.core = s.core
  txSeq : n → s'.txSeq = s.txSeq
  noise : s.noise.isSome = true → s'.noise.isSome = true
  scope : s'.scopeActive = s.scopeActive
  effects : s'.effects = s.effects ++ more
  quiet : ends more = 0
  active : more ≠ [] → s.scopeActive = true

/-- The one thing that a block does to the core. -/
inductive Act (s : PhoneSession E) : PhoneSession E → Prop where
  | keep : Act s s
  | claimed : Act s s.claim
  | aborted (cause : SessionException) : s.state = .handshaking → Act s (s.aborted cause)
  | promoted : s.state = .handshaking → s.decision = .pending → s.noise.isSome = true →
      Act s s.promotion
  | lived {event : Core.Event} : Lively event → Act s (s.applyEvent event).1
  | terminated {event : Core.Event} (reason : EndReason) : EndsSession event →
      Act s (s.terminate event reason)

/-- All that a block does. -/
inductive Does (n : Prop) (s s' : PhoneSession E) : Prop where
  | mk {s₁ : PhoneSession E} {more : List Effect} : Still n s s₁ more → Act s₁ s' →
      Does n s s'

variable {n : Prop} {s₁ s' : PhoneSession E}

theorem Still.refl (s : PhoneSession E) : Still n s s [] :=
  ⟨rfl, fun _ => rfl, id, rfl, (List.append_nil _).symm, rfl, fun h => absurd rfl h⟩

/-- Another assembler, or a Noise session that has gone on. -/
theorem Still.fields (s : PhoneSession E) {noise : Option E.Noise} (assembler : E.Assembler)
    (hnoise : s.noise.isSome = true → noise.isSome = true) :
    Still n s { s with noise, assembler } [] :=
  { Still.refl s with noise := hnoise }

theorem Still.emit (h : Still n s s₁ []) {more : List Effect} (hquiet : ends more = 0)
    (hscope : s.scopeActive = true) : Still n s (s₁.emit more) more :=
  { h with
    effects := congrArg (· ++ more) (h.effects.trans (List.append_nil _))
    quiet := hquiet
    active := fun _ => hscope }

theorem Does.behind (h : Still n s s₁ []) (h' : Does n s₁ s') : Does n s s' := by
  obtain ⟨hstill, hact⟩ := h'
  refine .mk ⟨hstill.core.trans h.core, fun hn => (hstill.txSeq hn).trans (h.txSeq hn),
    fun hn => hstill.noise (h.noise hn), hstill.scope.trans h.scope, ?_, hstill.quiet,
    fun hn => h.scope ▸ hstill.active hn⟩ hact
  rw [hstill.effects, h.effects, List.append_nil]

theorem Act.does (h : Act s s') : Does n s s' := .mk (.refl s) h

theorem endFor_act (reason : EndReason) : Act s (s.endFor reason) :=
  .terminated reason (.endRequested reason)

theorem endFromTeardown_act (teardown : LinkTeardown) : Act s (s.endFromTeardown teardown) := by
  unfold endFromTeardown
  split_ifs
  · exact .terminated _ .peerDisconnected
  · exact endFor_act _

theorem onTimerEvent_act (event : TimerEvent) : Act s (s.onTimerEvent event) := by
  cases event with
  | warningDue => exact .lived lively_warningDue
  | idleExpired => exact .terminated _ .idleExpired
  | hardCapReached => exact .terminated _ .hardCapReached

theorem linkClosed_act (reason : LinkTeardown) : Act s (s.linkClosed reason).1 := by
  unfold linkClosed
  split_ifs
  · exact .keep
  · exact endFromTeardown_act reason
  · exact .keep

theorem abortHandshake_act (hstate : s.state = .handshaking) (cause : SessionException) :
    ∃ s', s.abortHandshake cause = .ok s' ∧ Act s s' :=
  ⟨_, if_pos (.inl hstate), .aborted cause hstate⟩

/-- A block that looks at the state first. -/
theorem stop_act (live : PhoneSession E → PhoneSession E) (hlive : Act s (live s)) :
    ∃ s', s.stop live = .ok s' ∧ Act s s' := by
  unfold stop
  split_ifs with hstate
  · exact abortHandshake_act hstate _
  · exact ⟨_, rfl, hlive⟩
  · exact ⟨s, rfl, .keep⟩

/-- The promotion, with the completion behind it, or the way out. -/
theorem promote_act (hstate : s.state = .handshaking) (hnoise : s.noise.isSome = true) :
    ∃ s' promoted, s.promote = .ok (s', promoted) ∧
      Act s (if promoted then s'.complete (.ok ()) else s') := by
  unfold promote
  by_cases hpending : s.decision = .pending
  · rw [if_neg (not_not_intro hpending)]
    exact ⟨_, _, rfl, .promoted hstate hpending hnoise⟩
  · obtain ⟨s', habort, hact⟩ := abortHandshake_act hstate .handshakeFailed
    rw [if_pos hpending, habort]
    exact ⟨s', false, rfl, hact⟩

theorem readMessages_does (hstate : s.state = .handshaking) (noise : E.Noise)
    (messages : List Bytes) : ∃ s', s.readMessages noise messages = .ok s' ∧ Does n s s' := by
  induction messages generalizing s noise with
  | nil => exact ⟨s, rfl, Act.keep.does⟩
  | cons message messages ih =>
    rw [readMessages]
    cases hread : E.readHandshakeMessage noise message with
    | error e =>
      obtain ⟨s', habort, hact⟩ := abortHandshake_act hstate e
      exact ⟨s', habort, hact.does⟩
    | ok noise' =>
      have hnext : Still n s { s with noise := some noise' } [] := .fields s _ fun _ => rfl
      dsimp only
      by_cases hcomplete : E.isHandshakeComplete noise'
      · obtain ⟨s', promoted, hpromote, hact⟩ :=
          promote_act (s := { s with noise := some noise' }) hstate rfl
        rw [if_pos hcomplete, hpromote]
        exact ⟨_, rfl, .mk hnext hact⟩
      · obtain ⟨s', hrest, hdoes⟩ := ih (s := { s with noise := some noise' }) hstate noise'
        rw [if_neg hcomplete]
        exact ⟨s', hrest, .behind hnext hdoes⟩

theorem routeHandshaking_does (hstate : s.state = .handshaking) (event : LinkEvent) :
    ∃ s', s.routeHandshaking event = .ok s' ∧ Does n s s' := by
  unfold routeHandshaking
  split
  · exact ⟨s, rfl, Act.keep.does⟩
  next noise bytes hnoise =>
    split
    next assembler hingest =>
      obtain ⟨s', habort, hact⟩ := abortHandshake_act (s := { s with assembler }) hstate
        .handshakeFailed
      exact ⟨s', habort, .mk (.fields s assembler id) hact⟩
    next assembler messages hingest =>
      obtain ⟨s', hread, hdoes⟩ := readMessages_does (s := { s with assembler }) hstate noise
        messages
      exact ⟨s', hread, .behind (.fields s assembler id) hdoes⟩
  next =>
    obtain ⟨s', habort, hact⟩ := abortHandshake_act hstate .handshakeFailed
    exact ⟨s', habort, hact.does⟩

/-- The collector decrypts in a scope that is active. -/
theorem decryptNext_does (hscope : s.scopeActive = true) (messages : List Bytes) :
    Does n s (s.decryptNext messages).1 := by
  cases messages with
  | nil => exact Act.keep.does
  | cons message messages =>
    rw [decryptNext]
    cases hnoise : s.noise with
    | none => exact Act.keep.does
    | some noise =>
      dsimp only
      cases hdecrypt : E.decrypt noise message with
      | error e => exact .mk ((Still.refl s).emit rfl hscope) (endFor_act _)
      | ok result =>
        -- the activity has no effects of its own
        have hoffered : (({ s with noise := some result.1 }.emit
            [.decrypting message]).recordActivity).emit [.offering result.2] =
            ({ s with noise := some result.1 }.emit
              [.decrypting message, .offering result.2]).recordActivity := by
          unfold recordActivity applyEvent
          cases hstep : step s.state .activity <;>
            simp [emit, hstep]
        have hnext : Still n s { s with noise := some result.1 } [] :=
          .fields s _ fun _ => rfl
        show Does n s (.emit _ _)
        rw [hoffered]
        exact .mk (hnext.emit rfl hscope) (.lived lively_activity)

theorem routeActive_does (hscope : s.scopeActive = true) (event : LinkEvent) :
    Does n s (s.routeActive event).1 := by
  cases event with
  | chunk bytes =>
    rw [routeActive]
    rcases E.ingest s.assembler bytes with ⟨assembler, messages⟩
    have hkept : Still n s { s with assembler } [] := .fields s assembler id
    cases messages with
    | none => exact .mk hkept (endFor_act _)
    | some messages => exact .behind hkept (decryptNext_does (by exact hscope) messages)
  | torn reason => exact (endFromTeardown_act reason).does

/-! ## What a block does to the core -/

theorem applyEvent_lived (hevent : Lively event) :
    SessionChange s.core (s.applyEvent event).1.core := by
  rw [core_applyEvent]
  cases htarget : SessionStateMachine.target s.core.state event with
  | none => exact .keep
  | some target =>
    obtain ⟨hlive, hstill⟩ := hevent _ _ htarget
    exact .lived target hlive hstill

theorem terminate_change (hevent : Terminal event) (reason : EndReason) :
    SessionChange s.core (s.terminate event reason).core := by
  cases htarget : SessionStateMachine.target s.state event with
  | none =>
    rw [terminate_illegal htarget]
    exact .keep
  | some target =>
    obtain ⟨hlive, rfl⟩ := hevent _ _ htarget
    rw [core_terminate htarget]
    exact .ended hlive

theorem promotion_eq (hstate : s.state = .handshaking) :
    s.promotion = .complete
      { s with decision := .promoted, state := .active, history := s.history ++ [.active],
               timers := true } (.ok ()) := by
  have hmoved := congrArg (target · .handshakeCompleted) hstate
  rw [promotion, applyEvent_moved (by exact hmoved)]

theorem Act.change (h : Act s s') : SessionChange s.core s'.core := by
  cases h with
  | keep => exact .keep
  | claimed => exact claim_change
  | aborted cause hstate =>
    rw [core_aborted (.inl hstate), if_pos hstate]
    exact .aborted cause hstate
  | promoted hstate hpending =>
    rw [promotion_eq hstate, core_complete]
    exact .promoted hstate hpending
  | lived hevent => exact applyEvent_lived hevent
  | terminated reason hevent => exact terminate_change (terminal_of_endsSession hevent) reason

/-- **A block changes the core in one way at most.** -/
theorem Does.change (h : Does n s s') : SessionChange s.core s'.core := by
  obtain ⟨hstill, hact⟩ := h
  rw [← hstill.core]
  exact hact.change

/-- A block that stops whatever is there. -/
theorem stop_endFor {reason : EndReason} (h : s.stop (fun s => s.endFor reason) = .ok s') :
    s'.state = .noSession ∨ s'.state = .ended := by
  unfold stop at h
  split_ifs at h with hhandshaking hlive
  · obtain rfl := Except.ok.inj ((if_pos (.inl hhandshaking)).symm.trans h)
    exact .inl (congrArg SessionCore.state (core_aborted (.inl hhandshaking) _))
  · obtain rfl := Except.ok.inj h
    exact .inr (endFor_live hlive reason)
  · obtain rfl := Except.ok.inj h
    cases hstate : s.state <;> simp_all [isLive]

end Methods

/-! ## The invariant -/

/-- The decision, the states so far and the deferred agree. -/
structure Consistent (c : SessionCore) : Prop where
  promoted : c.decision = .promoted ↔ .active ∈ c.history
  live : c.state ≠ .noSession → c.state ≠ .handshaking → c.decision = .promoted
  completed : c.done = some (.ok ()) → c.decision = .promoted
  failed : ∀ e, c.done = some (.error e) → c.state = .noSession

/-- What the session is like when `start` ends so. -/
def OutcomeFits (c : SessionCore) : StartOutcome → Prop
  | .returned => c.decision = .promoted
  | .threw _ => c.state = .noSession
  | .cancelled => c.state = .noSession ∨ c.state = .ended
  | .illegalState | .stopped _ => True

structure StartInv (c : SessionCore) (pc : StartPc) : Prop extends Consistent c where
  before : pc = .notCalled ∨ pc = .entering → c.state = .noSession ∧ c.done = none
  fits : ∀ outcome, pc = .leaving outcome ∨ pc = .finished outcome → OutcomeFits c outcome

section Changes

variable {c c' : SessionCore}

theorem isLive_ne {state : SessionState} (h : isLive state = true) :
    state ≠ .noSession ∧ state ≠ .handshaking ∧ state ≠ .ended := by
  cases state <;> simp_all [isLive]

theorem claimed_promoted {decision : HandshakeDecision} :
    decision.claimed = .promoted ↔ decision = .promoted := by
  cases decision <;> simp [HandshakeDecision.claimed]

theorem SessionChange.promoted_stays (h : SessionChange c c') (hc : c.decision = .promoted) :
    c'.decision = .promoted := by
  cases h with
  | keep | lived | ended => exact hc
  | claimed | aborted => exact claimed_promoted.mpr hc
  | promoted => rfl

/-- Without a handshake only the decision can change. -/
theorem SessionChange.noSession_stays (h : SessionChange c c') (hc : c.state = .noSession) :
    c'.state = .noSession ∧ c'.done = c.done := by
  cases h with
  | keep | claimed => exact ⟨hc, rfl⟩
  | aborted _ hstate | promoted hstate => exact absurd (hc.symm.trans hstate) (by decide)
  | lived _ hlive | ended hlive => exact absurd hc (isLive_ne hlive).1

theorem SessionChange.ended_stays (h : SessionChange c c') (hc : c.state = .ended) :
    c'.state = .ended := by
  cases h with
  | keep | claimed => exact hc
  | aborted _ hstate | promoted hstate => exact absurd (hc.symm.trans hstate) (by decide)
  | lived state hlive => exact absurd hc (isLive_ne hlive).2.2
  | ended => rfl

theorem Consistent.moved (hc : Consistent c) (hlive : isLive c.state = true)
    (state : SessionState) :
    Consistent { c with state, history := c.history ++ [state] } := by
  have hdecision := hc.live (isLive_ne hlive).1 (isLive_ne hlive).2.1
  refine ⟨iff_of_true hdecision ?_, fun _ _ => hdecision, fun _ => hdecision, fun e hdone => ?_⟩
  · exact List.mem_append_left _ (hc.promoted.mp hdecision)
  · exact absurd (hc.failed e hdone) (isLive_ne hlive).1

/-- A live session is not back in a handshake. -/
theorem SessionChange.live_stays (h : SessionChange c c') (hc : isLive c.state = true) :
    c'.state ≠ .handshaking ∧ c'.state ≠ .noSession := by
  have hstate := isLive_ne hc
  cases h with
  | keep | claimed => exact ⟨hstate.2.1, hstate.1⟩
  | aborted _ hhandshaking | promoted hhandshaking => exact absurd hhandshaking hstate.2.1
  | lived state _ hstill => exact ⟨(isLive_ne hstill).2.1, (isLive_ne hstill).1⟩
  | ended => exact ⟨by simp, by simp⟩

/-- An abort does not complete a deferred with success. -/
theorem Consistent.aborted (hc : Consistent c) (cause : SessionException)
    {history : List SessionState} (hactive : .active ∈ history ↔ .active ∈ c.history) :
    Consistent ⟨.noSession, history, c.decision.claimed, some (c.done.getD (.error cause))⟩ := by
  refine ⟨claimed_promoted.trans (hc.promoted.trans hactive.symm), fun h => absurd rfl h,
    fun hdone => claimed_promoted.mpr (hc.completed ?_), fun _ _ => rfl⟩
  cases hold : c.done with
  | none => simp [hold] at hdone
  | some result => simpa [hold] using hdone

theorem SessionChange.consistent (h : SessionChange c c') (hc : Consistent c) : Consistent c' := by
  cases h with
  | keep => exact hc
  | claimed =>
    exact ⟨claimed_promoted.trans hc.promoted, fun h₁ h₂ => claimed_promoted.mpr (hc.live h₁ h₂),
      fun h => claimed_promoted.mpr (hc.completed h), hc.failed⟩
  | aborted cause hstate => exact hc.aborted cause (by simp)
  | promoted hstate hpending =>
    refine ⟨iff_of_true rfl (by simp), fun _ _ => rfl, fun _ => rfl, fun e hdone => ?_⟩
    cases hold : c.done with
    | none => simp [hold] at hdone
    | some result =>
      have hfailed : c.done = some (.error e) := by simpa [hold] using hdone
      exact absurd ((hc.failed e hfailed).symm.trans hstate) (by decide)
  | lived state hlive hstill => exact hc.moved hlive state
  | ended hlive => exact hc.moved hlive .ended

theorem SessionChange.fits (h : SessionChange c c') {outcome : StartOutcome}
    (hc : OutcomeFits c outcome) : OutcomeFits c' outcome := by
  cases outcome with
  | returned => exact h.promoted_stays hc
  | threw e => exact (h.noSession_stays hc).1
  | cancelled => exact hc.imp (fun hc => (h.noSession_stays hc).1) h.ended_stays
  | illegalState | stopped => trivial

/-- **No change breaks the invariant**, wherever `start` is. -/
theorem StartInv.change {pc : StartPc} (hinv : StartInv c pc) (h : SessionChange c c') :
    StartInv c' pc := by
  refine ⟨h.consistent hinv.toConsistent, fun hpc => ?_,
    fun outcome hpc => h.fits (hinv.fits _ hpc)⟩
  obtain ⟨hstate, hdone⟩ := hinv.before hpc
  obtain ⟨hstate', hsame⟩ := h.noSession_stays hstate
  exact ⟨hstate', hsame.trans hdone⟩

/-- The handshake begins. -/
theorem Consistent.begun (hc : Consistent c) (hdone : c.done = none) :
    Consistent { c with state := .handshaking, history := c.history ++ [.handshaking] } := by
  refine ⟨hc.promoted.trans (by simp), fun _ h => absurd rfl h, fun h => ?_, fun e h => ?_⟩
  · exact absurd (hdone.symm.trans h) (by simp)
  · exact absurd (hdone.symm.trans h) (by simp)

theorem claimed_cancelled {decision : HandshakeDecision} (h : decision = .cancelled) :
    decision.claimed = .cancelled := by
  rw [h]
  rfl

theorem SessionChange.cancelled_stays (h : SessionChange c c') (hc : c.decision = .cancelled) :
    c'.decision = .cancelled := by
  cases h with
  | keep | lived | ended => exact hc
  | claimed | aborted => exact claimed_cancelled hc
  | promoted _ hpending => exact absurd (hc.symm.trans hpending) (by decide)

end Changes

/-! ## The steps that are not of `start` -/

section Steps

variable {E : Endpoint} {h : Host E}

/-- A step leaves `start` where it is, and fails no check. -/
structure Beside (n : Prop) (h h' : Host E) : Prop where
  start : h'.start = h.start
  does : Does n h.session h'.session
  crashed : h'.crashed = h.crashed

variable {n : Prop}

theorem Beside.of_act {h' : Host E} (hact : Act h.session h'.session)
    (hstart : h'.start = h.start := by rfl) (hcrashed : h'.crashed = h.crashed := by rfl) :
    Beside n h h' :=
  ⟨hstart, hact.does, hcrashed⟩

theorem Beside.keep {h' : Host E} (hsession : h'.session = h.session := by rfl)
    (hstart : h'.start = h.start := by rfl) (hcrashed : h'.crashed = h.crashed := by rfl) :
    Beside n h h' :=
  .of_act (hsession ▸ .keep) hstart hcrashed

theorem deliver_beside {result : PhoneSession E × Option (Bytes × List Bytes)}
    (hresult : Does n h.session result.1) : Beside n h (h.deliver result) := by
  rcases result with ⟨session, _ | ⟨plaintext, messages⟩⟩ <;> exact ⟨rfl, hresult, rfl⟩

theorem route_beside (hscope : h.session.scopeActive = true) (event : LinkEvent) :
    Beside n h (h.route event) := by
  unfold Host.route
  split_ifs with hstate
  · obtain ⟨s', hroute, hdoes⟩ := routeHandshaking_does hstate event
    rw [hroute]
    exact ⟨rfl, hdoes, rfl⟩
  · exact deliver_beside (routeActive_does hscope event)
  · exact .keep

theorem sendRest_beside (i : Nat) (frames : List Bytes) : Beside n h (h.sendRest i frames) := by
  cases frames with
  | nil => exact .of_act (.lived lively_activity)
  | cons frame frames => exact .keep

/-- The one block that takes numbers. -/
theorem sendBegin_beside (hn : ¬ n) (i maxWriteLen : Nat) (plaintext : Bytes) :
    Beside n h (h.sendBegin i maxWriteLen plaintext) := by
  unfold Host.sendBegin
  split_ifs
  · split
    · exact .keep
    next noise hnoise =>
      split
      · exact .of_act (endFor_act _)
      next noise' message hencrypt =>
        have hnext : ∀ txSeq, Still n h.session { h.session with noise := some noise', txSeq } [] :=
          fun txSeq => { Still.refl (n := n) h.session with
            txSeq := fun h => absurd h hn
            noise := fun _ => rfl }
        rcases E.split message maxWriteLen h.session.txSeq with _ | ⟨frames, txSeq⟩
        · exact ⟨rfl, .mk (hnext _) .keep, rfl⟩
        · have hrest := sendRest_beside (n := n)
            (h := { h with session := { h.session with noise := some noise', txSeq } }) i frames
          exact { hrest with does := .behind (hnext txSeq) hrest.does }
  · exact .keep

theorem sendFrame_beside (i : Nat) (frame : Bytes) (rest : List Bytes) (sent : Sent) :
    Beside n h (h.sendFrame i frame rest sent) := by
  cases sent with
  | accepted =>
    rw [Host.sendFrame]
    split_ifs
    · exact .keep
    · exact { sendRest_beside i rest with }
  | closed reason => exact .of_act (linkClosed_act reason)
  | refused | cancelled => exact .keep

/-- A block of the session's own scope. -/
theorem settle_beside (live : PhoneSession E → PhoneSession E)
    (hlive : Act h.session (live h.session)) : Beside n h (h.settle (h.session.stop live)) := by
  obtain ⟨s', hstop, hact⟩ := stop_act live hlive
  rw [hstop]
  exact .of_act hact

/-- The steps that are not of `start`. -/
def HostStep.background : HostStep → Bool
  | .cancel _ | .timeout | .event _ | .eventsEnd | .offer | .timer _ | .endRead _ | .endLaunch _
  | .endRun _ | .send _ | .sendBegin _ _ | .sendFrame _ _ | .lateSend _ => true
  | _ => false

/-- The steps of `Host` that are neither of `send` nor of the first message. -/
def HostStep.besides : HostStep → Bool
  | .enter _ | .frame _ | .lateFrame | .send _ | .sendBegin _ _ | .sendFrame _ _
  | .lateSend _ => false
  | _ => true

theorem step_beside {l : HostStep} (hl : l.background = true) :
    Beside (l.besides = true) h (h.step l) := by
  cases l with
  | cancel kind =>
    rw [Host.step]
    split_ifs
    · exact .keep
    · exact .of_act .claimed
    · exact .keep
  | timeout =>
    rw [Host.step]
    split_ifs <;> exact .keep
  | event event =>
    rw [Host.step]
    split_ifs with hready
    · exact route_beside hready.2 event
    · exact .keep
  | eventsEnd =>
    rw [Host.step]
    split_ifs
    · exact { settle_beside (fun s => s.terminate .peerDisconnected .peerDisconnected)
        (.terminated _ .peerDisconnected) with }
    · exact .keep
  | offer =>
    rw [Host.step]
    split
    · split_ifs with hscope
      · exact .keep
      · exact { deliver_beside (h := { h with inbound := h.inbound ++ [_] })
          (decryptNext_does hscope _) with }
      · exact .keep
    · exact .keep
  | timer event =>
    rw [Host.step]
    split_ifs
    · exact .of_act (onTimerEvent_act event)
    · exact .keep
  | endRead | send => exact .keep
  | endLaunch i =>
    rw [Host.step]
    split
    · refine .of_act ?_
      split_ifs
      · exact .claimed
      · exact .keep
    · exact .keep
  | endRun i =>
    rw [Host.step]
    split
    · split_ifs
      · exact { settle_beside
          (fun s => s.endFor _) (endFor_act _) with }
      · exact .keep
    · exact .keep
  | sendBegin i maxWriteLen =>
    rw [Host.step]
    split
    · split_ifs
      · exact .keep
      · exact sendBegin_beside Bool.noConfusion i maxWriteLen _
    · exact .keep
  | sendFrame i sent =>
    rw [Host.step]
    split
    · exact sendFrame_beside i _ _ sent
    · exact .keep
  | lateSend i =>
    rw [Host.step]
    split
    · split_ifs
      · exact sendRest_beside i _
      · exact .keep
    · exact .keep
  | _ => cases hl

/-! ## The steps of `start` -/

/-- The handshake is over. -/
def Begun (state : SessionState) : Prop := state ≠ .handshaking ∧ state ≠ .noSession

/-- The first message cannot be split at this write length. -/
def Endpoint.Unsplit (E : Endpoint) (maxWriteLen txSeq : Nat) : Prop :=
  match E.initiate with
  | .error _ => False
  | .ok noise =>
    match E.writeHandshakeMessage noise with
    | .error _ => False
    | .ok (_, message) => E.split message maxWriteLen txSeq = none

/-- The first message cannot be split, or the link refuses a frame of it; or a write of it
fails, or a timeout arrives, behind a promotion. -/
def Misfires (h : Host E) : HostStep → Prop
  | .enter maxWriteLen => (h.start = .entering ∧ h.caller = none) ∧
      E.Unsplit maxWriteLen h.session.txSeq
  | .frame .refused => ∃ frame rest, h.start = .sending (frame :: rest)
  | .frame (.closed _) => (∃ frame rest, h.start = .sending (frame :: rest)) ∧
      h.session.state ≠ .handshaking ∧ h.session.state ≠ .noSession
  | .resumeTimeout => (h.start = .awaiting ∧ (h.timedOut ∨ h.caller = some .timeout)) ∧
      h.session.state ≠ .handshaking ∧ h.session.state ≠ .noSession
  | _ => False

/-- Neither a return nor one of the two exceptions that `start` is to throw. -/
@[simp] def StartOutcome.unforeseen : StartOutcome → Bool
  | .illegalState | .stopped _ => true
  | _ => false

/-- `start` ends so, or is about to. -/
def Doomed : StartPc → Prop
  | .leaving outcome | .finished outcome => outcome.unforeseen = true
  | _ => False

/-- What every step keeps, and what dooms `start`. No check fails but in `start`. -/
structure Starts (h' : Host E) (misfires : Prop) (crashed : Bool) (decision : HandshakeDecision) :
    Prop where
  inv : StartInv h'.session.core h'.start
  doomed : Doomed h'.start ↔ misfires
  crashed : h'.crashed = crashed
  cancelled : decision = .cancelled → h'.session.decision = .cancelled

variable {h' : Host E} {misfires misfires' : Prop}

theorem Starts.iff {crashed : Bool} {decision : HandshakeDecision}
    (hstarts : Starts h' misfires crashed decision) (hiff : misfires ↔ misfires') :
    Starts h' misfires' crashed decision :=
  ⟨hstarts.inv, hstarts.doomed.trans hiff, hstarts.crashed, hstarts.cancelled⟩

theorem finished_stays {outcome : StartOutcome} (hfinished : h.start = .finished outcome)
    (l : HostStep) : (h.step l).start = .finished outcome := by
  by_cases hl : l.background = true
  · exact (step_beside hl).start.trans hfinished
  cases l <;> simp_all [Host.step, HostStep.background]

theorem doneOutcome_legal (result : Except SessionException Unit) :
    ¬ Doomed (.leaving (Host.doneOutcome result)) := by
  cases result <;> simp [Doomed, Host.doneOutcome]

theorem sendFrames_session (frames : List Bytes) : (h.sendFrames frames).session = h.session := by
  cases frames with
  | nil =>
    rw [Host.sendFrames]
    cases h.session.handshakeDone <;> rfl
  | cons frame frames => rfl

theorem begin_moved (hstate : h.session.state = .noSession) :
    ({ h.session with startCalled := true } : PhoneSession E).applyEvent .beginHandshake =
      ({ h.session with startCalled := true, state := .handshaking,
                        history := h.session.history ++ [.handshaking] }, true) := by
  have hmoved := congrArg (target · .beginHandshake) hstate
  exact applyEvent_moved (by exact hmoved)

theorem linkClosed_begun {s : PhoneSession E} (reason : LinkTeardown) :
    Begun (s.linkClosed reason).1.state ↔ Begun s.state := by
  unfold linkClosed
  split_ifs with hhandshaking hlive
  · rfl
  · exact iff_of_true ((endFromTeardown_act reason).change.live_stays hlive)
      ⟨(isLive_ne hlive).2.1, (isLive_ne hlive).1⟩
  · rfl

section

variable (hc : Consistent h.session.core)

include hc

theorem leaving_inv {outcome : StartOutcome}
    (hfits : OutcomeFits h.session.core outcome) : StartInv h.session.core (.leaving outcome) := by
  refine ⟨hc, by simp, ?_⟩
  rintro other (heq | heq) <;> cases heq
  exact hfits

/-- `start` fails: the session is left, or the check of `abortHandshake` fails. -/
theorem failStart_starts (e : SessionException) :
    Starts (h.failStart e) (Begun h.session.state) h.crashed h.session.decision := by
  unfold Host.failStart abortHandshake
  by_cases hstate : h.session.state = .handshaking ∨ h.session.state = .noSession
  · have hcore := core_aborted hstate e
    rw [if_pos hstate]
    refine ⟨leaving_inv ?_ ?_, ?_, rfl,
      fun hcancelled => ?_⟩
    · show Consistent (h.session.aborted e).core
      rw [hcore]
      refine hc.aborted e ?_
      split_ifs <;> simp [core]
    · exact congrArg SessionCore.state hcore
    · refine iff_of_false (by simp [Doomed]) fun hbegun => ?_
      exact hstate.elim hbegun.1 hbegun.2
    · exact (congrArg SessionCore.decision hcore).trans (claimed_cancelled hcancelled)
  · rw [if_neg hstate]
    exact ⟨leaving_inv hc trivial, iff_of_true rfl (not_or.mp hstate), rfl, id⟩

theorem doneOutcome_fits {result : Except SessionException Unit}
    (hdone : h.session.handshakeDone = some result) : OutcomeFits h.session.core
      (Host.doneOutcome result) := by
  cases result with
  | ok _ => exact hc.completed hdone
  | error e => exact hc.failed e hdone

theorem sendFrames_starts (frames : List Bytes) :
    Starts (h.sendFrames frames) False h.crashed h.session.decision := by
  cases frames with
  | nil =>
    rw [Host.sendFrames]
    cases hdone : h.session.handshakeDone with
    | none => exact ⟨⟨hc, by simp, by simp⟩, by simp [Doomed], rfl, id⟩
    | some result =>
      exact ⟨leaving_inv hc (doneOutcome_fits hc hdone),
        iff_of_false (doneOutcome_legal result) id, rfl, id⟩
  | cons frame frames => exact ⟨⟨hc, by simp [Host.sendFrames], by simp [Host.sendFrames]⟩,
      by simp [Host.sendFrames, Doomed], rfl, id⟩

theorem enter_starts (hstate : h.session.state = .noSession)
    (hdone : h.session.handshakeDone = none) (maxWriteLen : Nat) :
    Starts (h.enter maxWriteLen) (E.Unsplit maxWriteLen h.session.txSeq) h.crashed
      h.session.decision := by
  have hbegun := hc.begun hdone
  have hnot : ¬ Begun .handshaking := fun hbegun => hbegun.1 rfl
  unfold Host.enter
  rw [begin_moved hstate]
  cases hinitiate : E.initiate with
  | error e =>
    exact (failStart_starts (by exact hbegun) e).iff
      (iff_of_false hnot (by simp [Endpoint.Unsplit, hinitiate]))
  | ok noise =>
    dsimp only
    cases hwrite : E.writeHandshakeMessage noise with
    | error e =>
      exact (failStart_starts (by exact hbegun) e).iff
        (iff_of_false hnot (by simp [Endpoint.Unsplit, hinitiate, hwrite]))
    | ok written =>
      have hunsplit : E.Unsplit maxWriteLen h.session.txSeq ↔
          E.split written.2 maxWriteLen h.session.txSeq = none := by
        simp [Endpoint.Unsplit, hinitiate, hwrite]
      dsimp only
      cases hsplit : E.split written.2 maxWriteLen h.session.txSeq with
      | none =>
        exact ⟨leaving_inv (by exact hbegun) trivial, iff_of_true rfl (hunsplit.mpr hsplit), rfl,
          id⟩
      | some split =>
        exact (sendFrames_starts (by exact hbegun) split.1).iff
          (iff_of_false id (by simp [hunsplit, hsplit]))

end

variable (hinv : StartInv h.session.core h.start)

include hinv

/-- `start` goes on within its block or into the `catch`. -/
theorem StartInv.starts
    (hchange : SessionChange h.session.core h'.session.core) (hcrashed : h'.crashed = h.crashed)
    (hbefore : h'.start ≠ .notCalled ∧ h'.start ≠ .entering)
    (hfits : ∀ outcome, h'.start = .leaving outcome ∨ h'.start = .finished outcome →
      OutcomeFits h'.session.core outcome)
    (hdoomed : Doomed h'.start ↔ misfires) : Starts h' misfires h.crashed h.session.decision :=
  ⟨⟨hchange.consistent hinv.toConsistent, fun hpc => (hpc.elim hbefore.1 hbefore.2).elim, hfits⟩,
    hdoomed, hcrashed, hchange.cancelled_stays⟩

/-- It is cancelled. -/
theorem StartInv.cleaning (hmisfires : ¬ misfires) :
    Starts { h with start := .cleaning } misfires h.crashed h.session.decision :=
  hinv.starts .keep rfl (by simp) (by simp) (iff_of_false (by simp [Doomed]) hmisfires)

theorem frame_starts {frame : Bytes} {rest : List Bytes}
    (hstart : h.start = .sending (frame :: rest)) (sent : Sent) :
    Starts (h.frame frame rest sent) (Misfires h (.frame sent)) h.crashed h.session.decision := by
  have hgoing : ¬ Doomed h.start := by simp [hstart, Doomed]
  cases sent with
  | accepted =>
    rw [Host.frame]
    split_ifs
    · exact ⟨hinv, iff_of_false hgoing id, rfl, id⟩
    · exact sendFrames_starts (by exact hinv.toConsistent) rest
  | closed reason =>
    have hchange := (linkClosed_act (s := h.session) reason).change
    obtain ⟨hleft, hdoomed, hcrashed, hcancelled⟩ := failStart_starts
      (h := { h with session := (h.session.linkClosed reason).1 })
      (hchange.consistent hinv.toConsistent) (h.session.linkClosed reason).2
    refine ⟨hleft, hdoomed.trans ((linkClosed_begun reason).trans ?_), hcrashed,
      fun hc => hcancelled (hchange.cancelled_stays hc)⟩
    simp [Misfires, Begun, hstart]
  | refused =>
    exact ⟨leaving_inv hinv.toConsistent trivial, iff_of_true rfl ⟨frame, rest, hstart⟩, rfl, id⟩
  | cancelled =>
    rw [Host.frame]
    split_ifs
    · exact hinv.cleaning id
    · exact ⟨hinv, iff_of_false hgoing id, rfl, id⟩

/-- **Every step keeps the invariant, and the check fails exactly at a misfire.** -/
theorem step_starts (l : HostStep) :
    Starts (h.step l) (Doomed h.start ∨ Misfires h l) h.crashed h.session.decision := by
  have hidle : ¬ Misfires h l →
      Starts h (Doomed h.start ∨ Misfires h l) h.crashed h.session.decision :=
    fun hcalm => ⟨hinv, (or_iff_left hcalm).symm, rfl, id⟩
  by_cases hl : l.background = true
  · have hcalm : ¬ Misfires h l := by cases l <;> simp_all [HostStep.background, Misfires]
    obtain ⟨hstart, hdoes, hcrashed⟩ := step_beside hl
    refine ⟨?_, ?_, hcrashed, hdoes.change.cancelled_stays⟩
    · rw [hstart]
      exact hinv.change hdoes.change
    · rw [hstart, or_iff_left hcalm]
  cases l with
  | call =>
    rw [Host.step]
    split_ifs with hstart hcancelled
    · have hclaimed := hinv.change claim_change
      exact ⟨⟨hclaimed.toConsistent, fun _ => hclaimed.before (.inl hstart), by simp⟩,
        by simp [hstart, Doomed, Misfires], rfl, claim_change.cancelled_stays⟩
    · exact ⟨⟨hinv.toConsistent, fun _ => hinv.before (.inl hstart), by simp⟩,
        by simp [hstart, Doomed, Misfires], rfl, id⟩
    · exact hidle id
  | enter maxWriteLen =>
    rw [Host.step]
    split_ifs with hentering
    · obtain ⟨hstate, hdone⟩ := hinv.before (.inr hentering.1)
      exact (enter_starts hinv.toConsistent hstate hdone maxWriteLen).iff
        (by simp [hentering, Doomed, Misfires])
    · exact hidle fun hmisfires => hentering hmisfires.1
  | frame sent =>
    rw [Host.step]
    split
    next frame rest hstart =>
      exact (frame_starts hinv hstart sent).iff (by simp [hstart, Doomed])
    next hnot =>
      refine hidle ?_
      cases sent with
      | closed reason =>
        rintro ⟨⟨frame, rest, hstart⟩, -⟩
        exact hnot frame rest hstart
      | refused =>
        rintro ⟨frame, rest, hstart⟩
        exact hnot frame rest hstart
      | accepted | cancelled => exact id
  | lateFrame =>
    rw [Host.step]
    split
    next frame rest hstart =>
      split_ifs
      · exact (sendFrames_starts hinv.toConsistent rest).iff (by simp [hstart, Doomed, Misfires])
      · exact hidle id
    · exact hidle id
  | resumeDone =>
    rw [Host.step]
    split
    next result hstart hdone =>
      refine ⟨leaving_inv hinv.toConsistent (doneOutcome_fits hinv.toConsistent hdone), ?_, rfl, id⟩
      exact iff_of_false (doneOutcome_legal result) (by simp [hstart, Doomed, Misfires])
    · exact hidle id
  | resumeTimeout =>
    rw [Host.step]
    split_ifs with htimeout
    · exact (failStart_starts hinv.toConsistent _).iff
        (by simp [Misfires, Begun, htimeout, Doomed])
    · exact hidle fun hmisfires => htimeout hmisfires.1
  | leave =>
    rw [Host.step]
    split
    next outcome hstart =>
      refine hinv.starts .keep rfl (by simp) ?_ (by simp [hstart, Doomed, Misfires])
      rintro other (heq | heq) <;> cases heq
      exact hinv.fits outcome (.inl hstart)
    · exact hidle id
  | enterCancelled | resumeCancelled | leaveCancelled =>
    rw [Host.step]
    split_ifs with hcancelled
    · exact hinv.cleaning (by simp [hcancelled.1, Doomed, Misfires])
    · exact hidle id
  | clean =>
    rw [Host.step]
    split_ifs with hcleaning
    · obtain ⟨s', hstop, hact⟩ := stop_act (fun s => s.endFor .userEnded)
        (endFor_act _)
      rw [hstop]
      refine hinv.starts hact.change rfl (by simp) ?_ (by simp [hcleaning, Doomed, Misfires])
      rintro other (heq | heq) <;> cases heq
      exact stop_endFor hstop
    · exact hidle id
  | _ => exact absurd rfl hl

end Steps

/-! ## Runs -/

section Runs

variable {E : Endpoint} {h : Host E}

theorem new_inv : StartInv (Host.new E).session.core (Host.new E).start := by
  refine ⟨⟨?_, ?_, ?_, ?_⟩, fun _ => ⟨rfl, rfl⟩, ?_⟩ <;> simp
    [Host.new, new, core]

theorem run_finished {outcome : StartOutcome} (hfinished : h.start = .finished outcome)
    (steps : List HostStep) : (h.run steps).start = .finished outcome := by
  induction steps generalizing h with
  | nil => exact hfinished
  | cons l steps ih => exact ih (finished_stays hfinished l)

variable (hinv : StartInv h.session.core h.start)

include hinv

theorem run_inv (steps : List HostStep) :
    StartInv (h.run steps).session.core (h.run steps).start := by
  induction steps generalizing h with
  | nil => exact hinv
  | cons l steps ih => exact ih (step_starts hinv l).inv

theorem run_cancelled (hcancelled : h.session.decision = .cancelled)
    (steps : List HostStep) : (h.run steps).session.decision = .cancelled := by
  induction steps generalizing h with
  | nil => exact hcancelled
  | cons l steps ih => exact ih (step_starts hinv l).inv ((step_starts hinv l).cancelled hcancelled)

/-- No step of the run fails a write or times out behind the promotion. -/
def Host.Timely (h : Host E) (steps : List HostStep) : Prop :=
  Along .step (fun h l => ¬ Misfires h l) h steps

theorem run_doomed (steps : List HostStep) :
    Doomed (h.run steps).start ↔ Doomed h.start ∨ ¬ h.Timely steps := by
  induction steps generalizing h with
  | nil => simp [Host.run, Host.Timely, Along]
  | cons l steps ih =>
    have hrest := ih (step_starts hinv l).inv
    rw [(step_starts hinv l).doomed] at hrest
    refine hrest.trans ?_
    rw [Host.Timely, Host.Timely, Along]
    tauto

/-- How `start` is to end: normally, with a session that has been ACTIVE, or with one of
its two exceptions, and then without a live session from there on. -/
def Definite (h : Host E) (outcome : StartOutcome) : Prop :=
  (outcome = .returned ∧ .active ∈ h.session.history) ∨
    ((∃ e, outcome = .threw e) ∨ outcome = .cancelled) ∧
      ∀ more, isLive (h.run more).session.state = false

theorem definite_of_fits {outcome : StartOutcome}
    (hfinished : h.start = .finished outcome) (hforeseen : outcome.unforeseen = false) :
    Definite h outcome := by
  have hlater : ∀ more, OutcomeFits (h.run more).session.core outcome := fun more =>
    (run_inv hinv more).fits outcome (.inr (run_finished hfinished more))
  cases outcome with
  | returned => exact .inl ⟨rfl, hinv.promoted.mp (hlater [])⟩
  | threw e =>
    refine .inr ⟨.inl ⟨e, rfl⟩, fun more => ?_⟩
    have hstate : (h.run more).session.state = .noSession := hlater more
    rw [hstate]
    rfl
  | cancelled =>
    refine .inr ⟨.inr rfl, fun more => ?_⟩
    have hstate : (h.run more).session.state = .noSession ∨ (h.run more).session.state = .ended :=
      hlater more
    rcases hstate with hstate | hstate <;> rw [hstate] <;> rfl
  | illegalState | stopped => cases hforeseen

omit hinv

namespace Sample

/-- One message each way, one frame each, and the second one completes the handshake. -/
def endpoint : Endpoint where
  Noise := Bool
  Assembler := Unit
  initiate := .ok false
  writeHandshakeMessage noise := .ok (noise, [1])
  readHandshakeMessage _ _ := .ok true
  isHandshakeComplete noise := noise
  encrypt noise plaintext := .ok (noise, plaintext)
  decrypt noise message := .ok (noise, message)
  assembler := ()
  ingest assembler bytes := (assembler, some [bytes])
  split message _ txSeq := some ([message], txSeq + 1)

def host : Host endpoint := .new endpoint

end Sample

end Runs

end Conveyance.Phone
