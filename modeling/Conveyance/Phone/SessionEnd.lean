import Conveyance.Phone.SessionStart

/-!
# The end of a session (android, session/PhoneSession.kt)

`terminate` is the one place that calls `onEnded`. It does so behind a state machine that
leaves ACTIVE and IDLE_WARNING once, and in a fixed order. That nothing is decrypted and
nothing offered to `inbound` afterwards is up to the coroutines: the collector may be
suspended in the middle of a chunk when the session ends under it.

`GoesOn` and `Ends` are the two things a block on the dispatcher can do to a session, with
what it adds to the effects. `EndInv` is kept by both.
-/

namespace Conveyance.Phone

open Lib PhoneSession
open Conveyance.Core (SessionState EndReason TimerEvent)

/-! ## The callback among the effects -/

/-- What may stand before an effect. -/
def EndOrder (past : List Effect) : Effect → Prop
  | .onEnded _ => .noiseClosed ∈ past ∧ .identityClosed ∈ past ∧ .inboundClosed ∈ past
  | .decrypting _ => ends past = 0
  | .offering _ => ends past = 0
  | _ => True

@[simp] theorem ends_append (effects more : List Effect) :
    ends (effects ++ more) = ends effects + ends more := List.countP_append

@[simp] theorem ends_cons (effect : Effect) (effects : List Effect) :
    ends (effect :: effects) = ends effects + if effect.isEnd then 1 else 0 := List.countP_cons

/-- Where nothing ended before and nothing ends, every effect is in order. -/
theorem endOrder_quiet {past more : List Effect} (hpast : ends past = 0) (hmore : ends more = 0) :
    Always (fun before => EndOrder (past ++ before)) more := by
  intro before effect rest hsplit
  have hbefore : ends (past ++ before) = 0 ∧ effect.isEnd = false := by
    rw [hsplit, ends_append, ends_cons] at hmore
    rw [ends_append]
    by_cases heffect : effect.isEnd = true
    · rw [if_pos heffect] at hmore
      omega
    · exact ⟨by omega, by simpa using heffect⟩
  cases effect with
  | onEnded reason => exact absurd hbefore.2 (by simp [Effect.isEnd])
  | decrypting | offering => exact hbefore.1
  | _ => trivial

/-! ## What a block does -/

section Blocks

variable {E : Endpoint} {s s₁ s' : PhoneSession E} {more : List Effect}

/-- A live session has its Noise session. -/
def Armed (s : PhoneSession E) : Prop := isLive s.state = true → s.noise.isSome = true

/-- The session does not end, and a session that has ended does nothing any more. -/
structure GoesOn (s s' : PhoneSession E) (more : List Effect) : Prop where
  ended : s'.state = .ended ↔ s.state = .ended
  armed : Armed s → Armed s'
  effects : s'.effects = s.effects ++ more
  quiet : ends more = 0
  still : s.state = .ended → more = [] ∧ s'.scopeActive = s.scopeActive

/-- The session ends: what is released first, the callback, the scope. -/
structure Ends (s s' : PhoneSession E) (reason : EndReason) (first : List Effect) : Prop where
  live : isLive s.state = true
  ended : s'.state = .ended
  scope : s'.scopeActive = false
  effects : s'.effects = s.effects ++ (first ++ [.onEnded reason, .scopeCancelled])
  quiet : ends first = 0
  noise : Armed s → .noiseClosed ∈ first
  identity : .identityClosed ∈ first
  inbound : .inboundClosed ∈ first

inductive EndChange (s s' : PhoneSession E) : Prop where
  | goesOn (more : List Effect) : GoesOn s s' more → EndChange s s'
  | ended (reason : EndReason) (first : List Effect) : Ends s s' reason first → EndChange s s'

theorem GoesOn.refl (s : PhoneSession E) : GoesOn s s [] :=
  ⟨Iff.rfl, id, (List.append_nil _).symm, rfl, fun _ => ⟨rfl, rfl⟩⟩

theorem GoesOn.trans {more' : List Effect} (h : GoesOn s s₁ more) (h' : GoesOn s₁ s' more') :
    GoesOn s s' (more ++ more') := by
  refine ⟨h'.ended.trans h.ended, fun harmed => h'.armed (h.armed harmed), ?_, ?_, ?_⟩
  · rw [h'.effects, h.effects, List.append_assoc]
  · rw [ends_append, h.quiet, h'.quiet]
  · intro hstate
    obtain ⟨rfl, hscope⟩ := h.still hstate
    obtain ⟨rfl, hscope'⟩ := h'.still (h.ended.mpr hstate)
    exact ⟨rfl, hscope'.trans hscope⟩

theorem EndChange.refl (s : PhoneSession E) : EndChange s s := .goesOn [] (.refl s)

/-- A session that goes on, then whatever. -/
theorem GoesOn.trans_change (h : GoesOn s s₁ more) (hlive : isLive s₁.state = isLive s.state)
    (h' : EndChange s₁ s') : EndChange s s' := by
  cases h' with
  | goesOn more' h' => exact .goesOn _ (h.trans h')
  | ended reason first h' =>
    refine .ended reason (more ++ first) ⟨hlive ▸ h'.live, h'.ended, h'.scope, ?_, ?_, ?_, ?_, ?_⟩
    · rw [h'.effects, h.effects, List.append_assoc, List.append_assoc]
    · rw [ends_append, h.quiet, h'.quiet]
    · exact fun harmed => List.mem_append_right _ (h'.noise (h.armed harmed))
    · exact List.mem_append_right _ h'.identity
    · exact List.mem_append_right _ h'.inbound

/-- A session that has ended stays as it was left. -/
theorem EndChange.trans_goesOn (h : EndChange s s₁) (h' : GoesOn s₁ s' more) : EndChange s s' := by
  cases h with
  | goesOn _ h => exact .goesOn _ (h.trans h')
  | ended reason first h =>
    obtain ⟨rfl, hscope⟩ := h'.still h.ended
    refine .ended reason first ⟨h.live, h'.ended.mpr h.ended, hscope.trans h.scope, ?_, h.quiet,
      h.noise, h.identity, h.inbound⟩
    rw [h'.effects, h.effects, List.append_nil]

/-- What is not of the core does not matter to the end. -/
theorem Still.goesOn {n : Prop} (h : Still n s s' more)
    (hscope : s.state = .ended → s.scopeActive = false) : GoesOn s s' more := by
  have hstate : s'.state = s.state := congrArg SessionCore.state h.core
  refine ⟨by rw [hstate], fun harmed hlive => h.noise (harmed (hstate ▸ hlive)), h.effects, h.quiet,
    fun hended => ⟨?_, h.scope⟩⟩
  by_contra hmore
  exact absurd (h.active hmore) (by simp [hscope hended])

/-- Without a session there is nothing to release in order. -/
theorem GoesOn.of_idle (hstate : s.state ≠ .ended) (hended : s'.state ≠ .ended)
    (hidle : isLive s'.state = false) (heffects : s'.effects = s.effects ++ more)
    (hquiet : ends more = 0) : GoesOn s s' more := by
  refine ⟨iff_of_false hended hstate, fun _ hlive => ?_, heffects, hquiet, fun h => ?_⟩
  · exact absurd (hidle.symm.trans hlive) (by decide)
  · exact absurd h hstate

theorem claim_goesOn : GoesOn s s.claim [] := by
  have hstate : s.claim.state = s.state := congrArg SessionCore.state core_claim
  unfold claim at hstate ⊢
  split_ifs
  · exact ⟨Iff.rfl, id, (List.append_nil _).symm, rfl, fun _ => ⟨rfl, rfl⟩⟩
  · exact .refl s

theorem applyEvent_goesOn {event : Core.Event} (hevent : Lively event) :
    GoesOn s (s.applyEvent event).1 [] := by
  cases htarget : SessionStateMachine.target s.state event with
  | none =>
    rw [applyEvent_illegal htarget]
    exact .refl s
  | some target =>
    obtain ⟨hlive, hstill⟩ := hevent _ _ htarget
    rw [applyEvent_moved htarget]
    refine ⟨iff_of_false (isLive_ne hstill).2.2 (isLive_ne hlive).2.2, fun harmed _ => harmed hlive,
      (List.append_nil _).symm, rfl, fun h => absurd h (isLive_ne hlive).2.2⟩

theorem closeNoise_effects : ∃ more, s.closeNoise.effects = s.effects ++ more ∧ ends more = 0 := by
  unfold closeNoise
  split_ifs with hnoise
  · exact ⟨[.noiseClosed], rfl, rfl⟩
  · exact ⟨[], (List.append_nil _).symm, rfl⟩

theorem tearDownHandshake_effects :
    ∃ more, s.tearDownHandshake.effects = s.effects ++ more ∧ ends more = 0 := by
  unfold tearDownHandshake
  split_ifs with htorn
  · exact ⟨[], (List.append_nil _).symm, rfl⟩
  · obtain ⟨more, hmore, hquiet⟩ := closeNoise_effects
    refine ⟨more ++ [.inboundClosed, .linkShutdown, .scopeCancelled], ?_, ?_⟩
    · rw [← List.append_assoc]
      exact congrArg (· ++ _) hmore
    · rw [ends_append, hquiet]
      rfl

theorem effects_applyEvent (event : Core.Event) : (s.applyEvent event).1.effects = s.effects := by
  unfold applyEvent
  split <;> rfl

theorem effects_complete (result : Except SessionException Unit) :
    (s.complete result).effects = s.effects := by
  unfold complete
  split_ifs <;> rfl

/-- An abort calls nobody back. -/
theorem aborted_goesOn (hstate : s.state = .handshaking ∨ s.state = .noSession)
    (cause : SessionException) : ∃ more, GoesOn s (s.aborted cause) more := by
  obtain ⟨more, hmore, hquiet⟩ := tearDownHandshake_effects
  have hleft : (s.aborted cause).state = .noSession :=
    congrArg SessionCore.state (core_aborted hstate cause)
  refine ⟨more, .of_idle ?_ (by simp [hleft]) (by simp [hleft, isLive]) ?_ hquiet⟩
  · rcases hstate with hstate | hstate <;> rw [hstate] <;> decide
  · rw [aborted, hmore, effects_complete, effects_applyEvent, claim_goesOn.effects,
      List.append_nil]

/-- `noise?.close()`, where there is a session to close. -/
theorem closeNoise_some (hnoise : s.noise.isSome = true) :
    s.closeNoise.effects = s.effects ++ [.noiseClosed] := by
  unfold closeNoise
  rw [if_pos hnoise]
  rfl

/-- **The one cleanup**: `onEnded` behind the releases, and the scope behind `onEnded`. -/
theorem terminate_ends {event : Core.Event} (hevent : Terminal event) (reason : EndReason) :
    EndChange s (s.terminate event reason) := by
  cases htarget : SessionStateMachine.target s.state event with
  | none =>
    rw [terminate_illegal htarget]
    exact .refl s
  | some target =>
    obtain ⟨hlive, rfl⟩ := hevent _ _ htarget
    rw [terminate_moved htarget]
    -- the session as the timers are cancelled
    generalize htimed : emit { s with
      state := .ended, history := s.history ++ [.ended], timers := false }
      (if s.timers then [.timersCancelled] else []) = timed
    have hcancelled : ∃ cancelled, timed.effects = s.effects ++ cancelled ∧ ends cancelled = 0 := by
      rw [← htimed]
      refine ⟨_, rfl, ?_⟩
      split_ifs with htimers
      · rfl
      · rfl
    have hnoise : timed.noise = s.noise := by rw [← htimed]; rfl
    have hended : timed.state = .ended := by rw [← htimed]; rfl
    obtain ⟨cancelled, hcancelled, hquiet⟩ := hcancelled
    obtain ⟨closed, hclosed, hquiet'⟩ := closeNoise_effects
    refine .ended reason (cancelled ++ closed ++ [.identityClosed, .inboundClosed, .linkShutdown])
      ⟨hlive, ?_, rfl, ?_, ?_, fun harmed => ?_, by simp, by simp⟩
    · show timed.closeNoise.core.state = .ended
      rw [core_closeNoise]
      exact hended
    · show timed.closeNoise.effects ++ _ = _
      rw [hclosed, hcancelled]
      simp
    · rw [ends_append, ends_append, hquiet, hquiet']
      rfl
    · have hsome : timed.closeNoise.effects = timed.effects ++ [.noiseClosed] :=
        closeNoise_some (hnoise ▸ harmed hlive)
      rw [List.append_cancel_left (hclosed.symm.trans hsome)]
      simp

/-- A promotion comes with the Noise session that was handed over. -/
theorem promotion_goesOn (hstate : s.state = .handshaking) (hnoise : s.noise.isSome = true) :
    GoesOn s s.promotion [] := by
  rw [promotion_eq hstate, complete]
  split_ifs
  · exact ⟨iff_of_false (by simp) (by simp [hstate]), fun _ _ => hnoise, (List.append_nil _).symm,
      rfl, fun h => absurd (hstate.symm.trans h) (by decide)⟩
  · exact ⟨iff_of_false (by simp) (by simp [hstate]), fun _ _ => hnoise, (List.append_nil _).symm,
      rfl, fun h => absurd (hstate.symm.trans h) (by decide)⟩

theorem Act.ends (h : Act s s') : EndChange s s' := by
  cases h with
  | keep => exact .refl s
  | claimed => exact .goesOn [] claim_goesOn
  | aborted cause hstate =>
    obtain ⟨more, hmore⟩ := aborted_goesOn (.inl hstate) cause
    exact .goesOn more hmore
  | promoted hstate _ hnoise => exact .goesOn [] (promotion_goesOn hstate hnoise)
  | lived hevent => exact .goesOn [] (applyEvent_goesOn hevent)
  | terminated reason hevent => exact terminate_ends (terminal_of_endsSession hevent) reason

/-- **A block goes on or ends the session.** -/
theorem Does.ends {n : Prop} (h : Does n s s')
    (hscope : s.state = .ended → s.scopeActive = false) : EndChange s s' := by
  obtain ⟨hstill, hact⟩ := h
  refine (hstill.goesOn hscope).trans_change ?_ hact.ends
  exact congrArg (isLive ·.state) hstill.core

end Blocks

/-! ## The invariant -/

section Invariant

variable {E : Endpoint} {s s' : PhoneSession E}

/-- Once for a session that has ended, never for another one, and in order. -/
structure EndInv (s : PhoneSession E) : Prop where
  armed : Armed s
  scope : s.state = .ended → s.scopeActive = false
  calls : ends s.effects = if s.state = .ended then 1 else 0
  order : Always EndOrder s.effects

theorem EndInv.goesOn {more : List Effect} (hinv : EndInv s) (h : GoesOn s s' more) :
    EndInv s' := by
  refine ⟨h.armed hinv.armed, fun hstate => ?_, ?_, ?_⟩
  · have hstate := h.ended.mp hstate
    exact (h.still hstate).2.trans (hinv.scope hstate)
  · rw [h.effects, ends_append, h.quiet, hinv.calls]
    simp only [h.ended, Nat.add_zero]
  · rw [h.effects, always_append]
    refine ⟨hinv.order, ?_⟩
    by_cases hstate : s.state = .ended
    · rw [(h.still hstate).1]
      exact always_nil
    · refine endOrder_quiet ?_ h.quiet
      rw [hinv.calls, if_neg hstate]

theorem EndInv.ended {reason : EndReason} {first : List Effect} (hinv : EndInv s)
    (h : Ends s s' reason first) : EndInv s' := by
  have hbefore : ends s.effects = 0 := by
    rw [hinv.calls, if_neg (isLive_ne h.live).2.2]
  refine ⟨fun hlive => ?_, fun _ => h.scope, ?_, ?_⟩
  · exact absurd h.ended (isLive_ne hlive).2.2
  · rw [h.effects, ends_append, ends_append, hbefore, h.quiet, if_pos h.ended]
    rfl
  · rw [h.effects, always_append, always_append]
    refine ⟨hinv.order, endOrder_quiet hbefore h.quiet, ?_⟩
    have hreleased : ∀ effect, effect ∈ first → effect ∈ s.effects ++ (first ++ []) := by
      intro effect hmem
      rw [List.append_nil]
      exact List.mem_append_right _ hmem
    rw [always_cons, always_cons]
    exact ⟨⟨hreleased _ (h.noise hinv.armed), hreleased _ h.identity, hreleased _ h.inbound⟩,
      trivial, always_nil⟩

theorem EndInv.change (hinv : EndInv s) (h : EndChange s s') : EndInv s' := by
  cases h with
  | goesOn more h => exact hinv.goesOn h
  | ended reason first h => exact hinv.ended h

/-- One change calls `onEnded` exactly if it takes a live session to ENDED. -/
theorem EndChange.calls (h : EndChange s s') : ends s'.effects =
    ends s.effects + if isLive s.state = true ∧ s'.state = .ended then 1 else 0 := by
  cases h with
  | goesOn more h =>
    have hnot : ¬ (isLive s.state = true ∧ s'.state = .ended) :=
      fun hboth => (isLive_ne hboth.1).2.2 (h.ended.mp hboth.2)
    rw [h.effects, ends_append, h.quiet, if_neg hnot]
  | ended reason first h =>
    rw [h.effects, ends_append, ends_append, h.quiet, if_pos ⟨h.live, h.ended⟩]
    rfl

end Invariant

/-! ## The coroutines -/

section Coroutines

variable {E : Endpoint} {h : Host E}

theorem failStart_goesOn (e : SessionException) :
    ∃ more, GoesOn h.session (h.failStart e).session more := by
  unfold Host.failStart abortHandshake
  split_ifs with hstate
  · exact aborted_goesOn hstate e
  · exact ⟨[], .refl _⟩

/-- A write of the first message: a dead link may end a session that is live already. -/
theorem frame_ends (frame : Bytes) (rest : List Bytes) (sent : Sent) :
    EndChange h.session (h.frame frame rest sent).session := by
  cases sent with
  | accepted =>
    rw [Host.frame]
    split_ifs with hdown
    · exact .refl _
    · rw [sendFrames_session]
      exact .refl _
  | closed reason =>
    obtain ⟨more, hmore⟩ := failStart_goesOn
      (h := { h with session := (h.session.linkClosed reason).1 })
      (h.session.linkClosed reason).2
    exact (linkClosed_act reason).ends.trans_goesOn hmore
  | refused => exact .refl _
  | cancelled =>
    rw [Host.frame]
    split_ifs <;> exact .refl _

theorem enter_ends (hstate : h.session.state = .noSession) (maxWriteLen : Nat) :
    EndChange h.session (h.enter maxWriteLen).session := by
  have hbegun : ∀ noise txSeq, GoesOn h.session { h.session with
      startCalled := true, state := .handshaking,
      history := h.session.history ++ [.handshaking], noise, txSeq } [] := by
    intro noise txSeq
    refine .of_idle (by simp [hstate]) (by simp) rfl ?_ rfl
    exact (List.append_nil _).symm
  unfold Host.enter
  rw [begin_moved hstate]
  split
  · obtain ⟨more, hmore⟩ := failStart_goesOn (h := { h with session := _ }) _
    exact .goesOn _ ((hbegun _ _).trans hmore)
  next noise hinitiate =>
    split
    · obtain ⟨more, hmore⟩ := failStart_goesOn (h := { h with session := _, collector := _ }) _
      exact .goesOn _ ((hbegun _ _).trans hmore)
    · dsimp only
      split
      · exact .goesOn _ (hbegun _ _)
      · rw [sendFrames_session]
        exact .goesOn _ (hbegun _ _)

/-- **Every step goes on or ends the session.** -/
theorem step_ends (hinv : EndInv h.session) (hstart : StartInv h.session.core h.start)
    (l : HostStep) : EndChange h.session (h.step l).session := by
  by_cases hl : l.background = true
  · exact (step_beside hl).does.ends hinv.scope
  cases l with
  | call =>
    rw [Host.step]
    split_ifs
    · exact Act.claimed.ends
    · exact .refl _
    · exact .refl _
  | enter maxWriteLen =>
    rw [Host.step]
    split_ifs with hentering
    · exact enter_ends (hstart.before (.inr hentering.1)).1 maxWriteLen
    · exact .refl _
  | frame sent =>
    rw [Host.step]
    split
    · exact frame_ends _ _ sent
    · exact .refl _
  | lateFrame =>
    rw [Host.step]
    split
    · split_ifs
      · rw [sendFrames_session]
        exact .refl _
      · exact .refl _
    · exact .refl _
  | resumeTimeout =>
    rw [Host.step]
    split_ifs
    · obtain ⟨more, hmore⟩ := failStart_goesOn .handshakeFailed
      exact .goesOn more hmore
    · exact .refl _
  | clean =>
    rw [Host.step]
    split_ifs
    · obtain ⟨s', hstop, hact⟩ := stop_act (fun s => s.endFor .userEnded)
        (endFor_act _)
      rw [hstop]
      exact hact.ends
    · exact .refl _
  -- the other steps of `start` leave the session alone
  | enterCancelled | resumeDone | resumeCancelled | leave | leaveCancelled =>
    rw [Host.step]
    split <;> exact .refl _
  | _ => exact absurd rfl hl

theorem new_endInv : EndInv (Host.new E).session :=
  ⟨fun hlive => absurd hlive (by simp [Host.new, new, isLive]),
    fun hstate => absurd hstate (by simp [Host.new, new]), rfl, always_nil⟩

theorem run_endInv (hinv : EndInv h.session) (hstart : StartInv h.session.core h.start)
    (steps : List HostStep) : EndInv (h.run steps).session := by
  induction steps generalizing h with
  | nil => exact hinv
  | cons l steps ih => exact ih (hinv.change (step_ends hinv hstart l)) (step_starts hstart l).inv

/-- **`onEnded` is called once, by the end of a live session, and last.** In every
interleaving of `start`, its caller, the link, the timers, `endNow` and `send`, it is called
at most once. A step calls it exactly if it takes the session from ACTIVE or IDLE_WARNING
to ENDED, so that the session has been ACTIVE. The Noise session, the identity and the
channel are closed before it, and nothing is decrypted or offered to the channel after
it. -/
theorem ended_once_and_last (E : Endpoint) (steps : List HostStep) :
    ends ((Host.new E).run steps).session.effects ≤ 1 ∧
      (∀ step, ends (((Host.new E).run steps).step step).session.effects =
        ends ((Host.new E).run steps).session.effects +
          if isLive ((Host.new E).run steps).session.state = true ∧
            (((Host.new E).run steps).step step).session.state = .ended
          then 1 else 0) ∧
      (.active ∉ ((Host.new E).run steps).session.history →
        ends ((Host.new E).run steps).session.effects = 0) ∧
      Always EndOrder ((Host.new E).run steps).session.effects := by
  have hinv := run_endInv (new_endInv (E := E)) new_inv steps
  have hstart := run_inv (new_inv (E := E)) steps
  refine ⟨?_, fun step => (step_ends hinv hstart step).calls, fun hactive => ?_, hinv.order⟩
  · rw [hinv.calls]
    split_ifs <;> omega
  · rw [hinv.calls, if_neg]
    intro hended
    -- ENDED is behind the promotion
    have hpromoted := hstart.live (fun h => absurd (hended.symm.trans h) (by decide))
      (fun h => absurd (hended.symm.trans h) (by decide))
    exact hactive (hstart.promoted.mp hpromoted)

/-- A session that times out under its collector and under a `send`. -/
theorem idle_session_ended_once :
    (Sample.host.run [.call, .enter 20, .frame .accepted, .event (.chunk [2]), .event (.chunk [3]),
        .send [4], .sendBegin 0 20, .timer .idleExpired, .offer, .lateSend 0]).session.effects =
      [.decrypting [3], .offering [3], .timersCancelled, .noiseClosed, .identityClosed,
        .inboundClosed, .linkShutdown, .onEnded .idleTimedOut, .scopeCancelled] ∧
    Always EndOrder [.decrypting [3], .offering [3], .timersCancelled, .noiseClosed,
      .identityClosed, .inboundClosed, .linkShutdown, .onEnded .idleTimedOut, .scopeCancelled] :=
  ⟨by decide, (ended_once_and_last Sample.endpoint [.call, .enter 20, .frame .accepted,
    .event (.chunk [2]), .event (.chunk [3]), .send [4], .sendBegin 0 20, .timer .idleExpired,
    .offer, .lateSend 0]).2.2.2⟩

end Coroutines

end Conveyance.Phone
