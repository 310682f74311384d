import Conveyance.Phone.SessionTimers

/-!
# The phone's timers against the daemon's watchdog

Where every event is collected as soon as it is sent, three coroutines do what the
daemon's one loop does: `InStep` relates the two states, `Follows` carries the relation
through a run, and what was delivered up to the first terminal event is what the watchdog
reports for the same activities.

The other promises need no promptness: `sound_run` for stale events and the end, and
`cap_queued_iff` for the cap, which is kept as long as its event finds room.
-/

namespace Conveyance.Phone

open Lib
open Conveyance.Core (TimerEvent seconds milestone loop watchdog)

/-! ## Prompt runs -/

/-- The events delivered, with their instants. -/
def deliveries (trace : List Obs) : List (Nat × TimerEvent) :=
  trace.filterMap fun
    | .delivered t scheduled => some (t, scheduled.event)
    | _ => none

/-- The instants at which idle windows were armed: the start, and every activity. -/
def windows (trace : List Obs) : List Nat :=
  trace.filterMap fun
    | .armed t _ => some t
    | _ => none

/-- Up to and including the first terminal event. -/
def through : List (Nat × TimerEvent) → List (Nat × TimerEvent)
  | [] => []
  | report :: reports => if report.2 = .warningDue then report :: through reports else [report]

/-- What happens where a firing is collected at once. -/
inductive PromptStep where
  | elapse (duration : Nat)
  | recordActivity
  | fireHard
  | fireIdle
  | collect

def PromptStep.actions : PromptStep → List Action
  | .elapse duration => [.elapse duration]
  | .recordActivity => [.recordActivity]
  | .fireHard => [.fireHard, .collect]
  | .fireIdle => [.fireIdle, .collect]
  | .collect => [.collect]

/-- A session that starts at `start`. -/
def prompt (start : Nat) (steps : List PromptStep) : List Action :=
  .elapse start :: .start :: steps.flatMap PromptStep.actions

/-- No two of the cap, the pending milestones and the activities coincide. -/
def Distinct (params : Core.SessionParams) (cap : Nat) : Nat → List Nat → Prop
  | last, [] => cap ≠ last + params.warnAfter ∧ cap ≠ last + params.idleTimeout
  | last, a :: rest =>
    (cap ≤ a → cap ≠ last + params.warnAfter ∧ cap ≠ last + params.idleTimeout) ∧
    (a ≤ min cap (last + params.idleTimeout) → a ≠ cap ∧ a ≠ last + params.warnAfter ∧
      a ≠ last + params.idleTimeout ∧ Distinct params cap a rest)

/-- The parameters are whole milliseconds. -/
structure SessionParams.Whole (params : SessionParams) : Prop where
  idle : 1000000 ∣ params.idleTimeout
  warn : 1000000 ∣ params.warnBefore
  cap : 1000000 ∣ params.hardCap

section Selection

variable {params : Core.SessionParams} {pick : Nat → Nat} {cap last now : Nat} {warned : Bool}
  {future : List Nat}

section

variable (h : Distinct params cap last future)

include h

theorem Distinct.free
    (hlater : ∀ a ∈ future.head?, cap ≤ a) : cap ≠ milestone params last warned := by
  have hfree : cap ≠ last + params.warnAfter ∧ cap ≠ last + params.idleTimeout := by
    cases future with
    | nil => exact h
    | cons a rest => exact h.1 (hlater a rfl)
  cases warned with
  | false => exact hfree.1
  | true => exact hfree.2

theorem Distinct.apart (hcap : now ≤ cap)
    (hidle : now ≤ milestone params last warned) {a : Nat} {rest : List Nat}
    (hfuture : future = a :: rest) (ha : a = now) :
    a ≠ cap ∧ a ≠ Core.milestone params last warned ∧ Distinct params cap a rest := by
  subst hfuture
  have hle := Core.milestone_le params last warned
  obtain ⟨hneCap, hneWarn, hneIdle, hrest⟩ := h.2 (by omega)
  refine ⟨hneCap, ?_, hrest⟩
  cases warned with
  | false => exact hneWarn
  | true => exact hneIdle

/-- At the cap the loop reports it. -/
theorem loop_cap (hlater : ∀ a ∈ future.head?, cap ≤ a)
    (hidle : cap ≤ milestone params last warned) (fuel : Nat) :
    loop params pick (fuel + 1) ⟨cap, milestone params last warned, warned⟩ future =
      some [(cap, .hardCapReached)] := by
  have hne : cap ≠ milestone params last warned := h.free hlater
  rcases Core.loop_cases params pick fuel ⟨cap, milestone params last warned, warned⟩ future with
    ⟨-, -, hloop⟩ | ⟨hfirst, -, -⟩ | ⟨a, rest, hfuture, ha, -, -⟩
  · exact hloop
  · exact absurd (Nat.le_antisymm hidle hfirst) hne
  · have hat : a = cap := Nat.le_antisymm ha (hlater a (by rw [hfuture]; rfl))
    exact absurd hat (h.apart (Nat.le_refl cap) hidle hfuture hat).1

/-- At a milestone it reports that. -/
theorem loop_idle (hlater : ∀ a ∈ future.head?, milestone params last warned ≤ a)
    (hcap : milestone params last warned ≤ cap) (fuel : Nat) :
    loop params pick (fuel + 1) ⟨cap, milestone params last warned, warned⟩ future =
      if warned then some [(milestone params last warned, .idleExpired)]
      else
        (loop params pick fuel
          ⟨cap, milestone params last warned + params.warnBefore, true⟩ future).map
          ((milestone params last warned, .warningDue) :: ·) := by
  rcases Core.loop_cases params pick fuel ⟨cap, milestone params last warned, warned⟩ future with
    ⟨hfirst, hquiet, -⟩ | ⟨-, -, hloop⟩ | ⟨a, rest, hfuture, -, ha, -⟩
  · exact absurd (Nat.le_antisymm hfirst hcap) (h.free hquiet)
  · exact hloop
  · have hat : a = milestone params last warned :=
      Nat.le_antisymm ha (hlater a (by rw [hfuture]; rfl))
    exact absurd hat (h.apart hcap (Nat.le_refl _) hfuture hat).2.1

end

/-- At an activity it opens a window. -/
theorem loop_activity (h : Distinct params cap last (now :: future)) (hcap : now ≤ cap)
    (hidle : now ≤ milestone params last warned) (fuel : Nat) :
    loop params pick (fuel + 1) ⟨cap, milestone params last warned, warned⟩ (now :: future) =
      loop params pick fuel ⟨cap, now + params.warnAfter, false⟩ future := by
  obtain ⟨hneCap, hneIdle, -⟩ := h.apart hcap hidle rfl rfl
  rcases Core.loop_cases params pick fuel ⟨cap, milestone params last warned, warned⟩
    (now :: future) with ⟨-, hquiet, -⟩ | ⟨-, hquiet, -⟩ | ⟨a, rest, hfuture, -, -, hloop⟩
  · exact absurd (Nat.le_antisymm hcap (hquiet now rfl)) hneCap
  · exact absurd (Nat.le_antisymm hidle (hquiet now rfl)) hneIdle
  · cases hfuture
    exact hloop

/-- With no activity to come the loop soon ends, and not before the next deadline. -/
theorem loop_quiet {fuel : Nat} (hfuel : 2 ≤ fuel + warned.toNat) (hcap : now ≤ cap)
    (hidle : now ≤ milestone params last warned) :
    ∃ reports, loop params pick fuel ⟨cap, milestone params last warned, warned⟩ [] =
      some reports ∧ ∀ report ∈ reports, now ≤ report.1 := by
  have hwarned : ∀ {fuel deadline}, now ≤ deadline → 1 ≤ fuel → ∃ reports,
      loop params pick fuel ⟨cap, deadline, true⟩ [] = some reports ∧
        ∀ report ∈ reports, now ≤ report.1 := by
    intro fuel deadline hdeadline hfuel
    obtain ⟨fuel, rfl⟩ : ∃ n, fuel = n + 1 := ⟨fuel - 1, by omega⟩
    rcases Core.loop_cases params pick fuel ⟨cap, deadline, true⟩ [] with
      ⟨-, -, hloop⟩ | ⟨-, -, hloop⟩ | ⟨a, rest, hnil, -⟩
    · exact ⟨_, hloop, by simpa using hcap⟩
    · exact ⟨_, hloop, by simpa using hdeadline⟩
    · cases hnil
  cases warned with
  | true => exact hwarned hidle (by simpa using hfuel)
  | false =>
    obtain ⟨fuel, rfl⟩ : ∃ n, fuel = n + 1 := ⟨fuel - 1, by simp at hfuel; omega⟩
    rcases Core.loop_cases params pick fuel ⟨cap, milestone params last false, false⟩ [] with
      ⟨-, -, hloop⟩ | ⟨-, -, hloop⟩ | ⟨a, rest, hnil, -⟩
    · exact ⟨_, hloop, by simpa using hcap⟩
    · obtain ⟨reports, hrest, hafter⟩ := @hwarned fuel
        (milestone params last false + params.warnBefore) (by omega) (by simpa using hfuel)
      refine ⟨_, hloop.trans ((if_neg (by simp)).trans (congrArg _ hrest)), ?_⟩
      simpa using ⟨hidle, fun t e he => hafter (t, e) he⟩
    · cases hnil

end Selection

/-! ## One prompt step -/

open SessionTimers

/-- The timers stand where the loop does, and everything sent is collected. -/
structure InStep (params : SessionParams) (cap last : Nat) (warned : Bool) (s : SessionTimers) :
    Prop where
  hardJob : s.hardJob = some cap
  idleJob : s.idleJob =
    some ⟨s.idleGeneration, warned, milestone params.toCore last warned⟩
  started : s.started = true
  cancelled : s.cancelled = false
  closed : s.closed = false
  channel : s.channel = []
  collector : s.collector = .polling ∨ s.collector = .waiting
  clock_cap : s.clock ≤ cap
  clock_idle : s.clock ≤ milestone params.toCore last warned

section Step

variable {params : SessionParams} {cap last : Nat} {warned : Bool} {s s' : SessionTimers}
  {scheduled : ScheduledEvent}

/-- An event that is collected at once is delivered. -/
theorem trySend_collect (hclosed : s.closed = false) (hchannel : s.channel = [])
    (hcollector : s.collector = .polling ∨ s.collector = .waiting)
    (hpasses : s.passes scheduled = true) :
    (s.trySend scheduled).collect = { s with
      collector := .polling
      trace := s.trace ++ [.queued s.clock scheduled, .delivered s.clock scheduled] } := by
  have hroom : s.hasRoom = true := by
    rcases hcollector with h | h <;> simp [hasRoom, hclosed, hchannel, h, bufferCap]
  obtain ⟨clock, channel, closed, collector, hardJob, idleJob, started, cancelled, generation,
    trace⟩ := s
  subst hclosed hchannel
  have hdeliver : ∀ trace, SessionTimers.passes ⟨clock, [], false, .polling, hardJob, idleJob,
      started, cancelled, generation, trace⟩ scheduled = true := fun _ => hpasses
  rcases hcollector with rfl | rfl <;> simp [trySend, hroom, collect, emit, deliver, hdeliver]

/-- Nothing is collected where nothing was sent. -/
theorem collect_idle (h : InStep params cap last warned s) :
    s.collect.clock = s.clock ∧ s.collect.trace = s.trace ∧
      InStep params cap last warned s.collect := by
  have hcollect : s.collect = { s with collector := .waiting } := by
    unfold collect
    rcases h.collector with hpolling | hwaiting
    · rw [hpolling]
      simp [h.channel, h.closed]
    · rw [hwaiting]
      obtain ⟨⟩ := s
      simp_all
  rw [hcollect]
  exact ⟨rfl, rfl, { h with collector := .inr rfl }⟩

/-- What a prompt step adds to the activities and to the deliveries, if the timers
are still in step after it. -/
inductive PromptMove (params : SessionParams) (cap last : Nat) (warned : Bool)
    (s s' : SessionTimers) : Prop where
  | rests : s.clock ≤ s'.clock → windows s'.trace = windows s.trace →
      deliveries s'.trace = deliveries s.trace → InStep params cap last warned s' →
      PromptMove params cap last warned s s'
  | rearms : s'.clock = s.clock → windows s'.trace = windows s.trace ++ [s.clock] →
      deliveries s'.trace = deliveries s.trace → InStep params cap s.clock false s' →
      PromptMove params cap last warned s s'
  | warns : s'.clock = s.clock → s.clock = milestone params.toCore last warned → warned = false →
      windows s'.trace = windows s.trace →
      deliveries s'.trace = deliveries s.trace ++ [(s.clock, .warningDue)] →
      InStep params cap last true s' → PromptMove params cap last warned s s'
  | expires : s'.clock = s.clock → s.clock = milestone params.toCore last warned → warned = true →
      windows s'.trace = windows s.trace →
      deliveries s'.trace = deliveries s.trace ++ [(s.clock, .idleExpired)] →
      PromptMove params cap last warned s s'
  | caps : s'.clock = s.clock → s.clock = cap → windows s'.trace = windows s.trace →
      deliveries s'.trace = deliveries s.trace ++ [(s.clock, .hardCapReached)] →
      PromptMove params cap last warned s s'

theorem windows_sent (trace : List Obs) (t : Nat) (scheduled : ScheduledEvent) :
    windows (trace ++ [.queued t scheduled, .delivered t scheduled]) = windows trace := by
  simp [windows]

theorem deliveries_sent (trace : List Obs) (t : Nat) (scheduled : ScheduledEvent) :
    deliveries (trace ++ [.queued t scheduled, .delivered t scheduled]) =
      deliveries trace ++ [(t, scheduled.event)] := by
  simp [deliveries]

variable (h : InStep params cap last warned s)

include h

theorem InStep.fireHard : PromptMove params cap last warned s (s.fireHard).collect := by
  unfold SessionTimers.fireHard
  split_ifs with hdue
  · obtain ⟨deadline, hjob, hle⟩ := capDue_iff.mp hdue
    cases hjob.symm.trans h.hardJob
    have hnow : s.clock = cap := Nat.le_antisymm h.clock_cap hle
    have hsent := @trySend_collect { s with hardJob := none } .hardCap h.closed h.channel
      h.collector (by simp [passes, h.cancelled, ScheduledEvent.hardCap])
    rw [hsent]
    exact .caps rfl hnow (windows_sent _ _ _) (deliveries_sent _ _ _)
  · obtain ⟨hclock, htrace, hstep⟩ := collect_idle h
    exact .rests hclock.ge (by rw [htrace]) (by rw [htrace]) hstep

theorem InStep.fireIdle (hwhole : params.Whole) :
    PromptMove params cap last warned s (s.fireIdle params).collect := by
  unfold SessionTimers.fireIdle
  rw [h.idleJob]
  dsimp only
  split_ifs with hdue hwarned
  · have hnow := Nat.le_antisymm h.clock_idle hdue
    have hsent := @trySend_collect { s with idleJob := none }
      ⟨.idleExpired, some s.idleGeneration⟩ h.closed h.channel h.collector
      (by simp [passes, h.cancelled])
    rw [hsent]
    exact .expires rfl hnow hwarned (windows_sent _ _ _) (deliveries_sent _ _ _)
  · have hnow := Nat.le_antisymm h.clock_idle hdue
    have hfirst : warned = false := by simpa using hwarned
    subst hfirst
    have hdeadline : s.clock + wholeMillis params.warnBefore =
        milestone params.toCore last true := by
      have hadd := params.toCore.warnAfter_add
      rw [wholeMillis_eq_iff.mpr hwhole.warn, hnow]
      simp only [milestone]
      rw [← hadd, Nat.add_assoc]
      rfl
    have hsent := @trySend_collect { s with
        idleJob := some ⟨s.idleGeneration, true, s.clock + wholeMillis params.warnBefore⟩ }
      ⟨.warningDue, some s.idleGeneration⟩ h.closed h.channel h.collector
      (by simp [passes, h.cancelled])
    rw [hsent]
    exact .warns rfl hnow rfl (windows_sent _ _ _) (deliveries_sent _ _ _) { h with
      idleJob := by rw [hdeadline]
      collector := .inl rfl
      clock_idle := hdeadline ▸ Nat.le_add_right _ _ }
  · obtain ⟨hclock, htrace, hstep⟩ := collect_idle h
    exact .rests hclock.ge (by rw [htrace]) (by rw [htrace]) hstep

theorem InStep.recordActivity (hwhole : params.Whole) :
    PromptMove params cap last warned s (s.recordActivity params) := by
  have hwindow : wholeMillis (params.idleTimeout - params.warnBefore) = params.toCore.warnAfter :=
    wholeMillis_eq_iff.mpr (Nat.dvd_sub hwhole.idle hwhole.warn)
  have harm : s.recordActivity params = s.armIdleWindow params := by
    simp [SessionTimers.recordActivity, h.started, h.cancelled]
  rw [harm]
  exact .rearms rfl (by simp [armIdleWindow, emit, windows])
    (by simp [armIdleWindow, emit, deliveries]) { h with
      idleJob := by simp only [armIdleWindow, emit, hwindow]; rfl
      clock_idle := Nat.le_add_right _ _ }

/-- **What a prompt step does to timers that are in step.** -/
theorem InStep.step (hwhole : params.Whole)
    (step : PromptStep) (hontime : Along (act params) OnTime s step.actions) :
    PromptMove params cap last warned s (step.actions.foldl (act params) s) := by
  cases step with
  | elapse duration =>
    obtain ⟨hcap, hidle⟩ := hontime.1
    exact .rests (Nat.le_add_right _ _) rfl rfl
      { h with clock_cap := hcap _ h.hardJob, clock_idle := hidle _ h.idleJob }
  | recordActivity => exact h.recordActivity hwhole
  | fireHard => exact h.fireHard
  | fireIdle => exact h.fireIdle hwhole
  | collect =>
    obtain ⟨hclock, htrace, hstep⟩ := collect_idle h
    exact .rests hclock.ge (congrArg windows htrace) (congrArg deliveries htrace) hstep

end Step

/-! ## Prompt runs follow the loop -/

section Through

variable {reports more : List (Nat × TimerEvent)}

theorem through_calm (h : ∀ report ∈ reports, report.2 = .warningDue) :
    through (reports ++ more) = reports ++ through more := by
  induction reports with
  | nil => rfl
  | cons report reports ih =>
    obtain ⟨hfirst, hrest⟩ := List.forall_mem_cons.mp h
    rw [List.cons_append, through, if_pos hfirst, ih hrest, List.cons_append]

theorem through_ended (h : ∃ report ∈ reports, report.2 ≠ .warningDue) :
    through (reports ++ more) = through reports := by
  induction reports with
  | nil => simp at h
  | cons report reports ih =>
    rw [List.cons_append, through, through]
    split_ifs with hwarning
    · obtain ⟨r, hr, hterminal⟩ := h
      rcases List.mem_cons.mp hr with rfl | hr
      · exact absurd hwarning hterminal
      · rw [ih ⟨r, hr, hterminal⟩]
    · rfl

end Through

section Following

variable {params : SessionParams} {pick : Nat → Nat} {cap start last k : Nat} {warned : Bool}
  {s s' : SessionTimers} {acts : List Nat}

/-- The activities so far take the loop to where the timers are, by way of what was
delivered. -/
structure Live (params : SessionParams) (pick : Nat → Nat) (cap start : Nat) (s : SessionTimers)
    (acts : List Nat) (k last : Nat) (warned : Bool) : Prop where
  inStep : InStep params cap last warned s
  windows : windows s.trace = start :: acts
  calm : ∀ report ∈ deliveries s.trace, report.2 = .warningDue
  bound : k ≤ 2 * acts.length + warned.toNat
  replays : ∀ fuel future, Distinct params.toCore cap start (acts ++ future) →
    (∀ a ∈ future.head?, s.clock ≤ a) → Distinct params.toCore cap last future ∧
      loop params.toCore pick (fuel + k) ⟨cap, start + params.toCore.warnAfter, false⟩
          (acts ++ future) =
        (loop params.toCore pick fuel ⟨cap, milestone params.toCore last warned, warned⟩
          future).map (deliveries s.trace ++ ·)

/-- The loop has ended, and a terminal event was delivered. -/
structure Ended (params : SessionParams) (pick : Nat → Nat) (cap start : Nat) (s : SessionTimers)
    (acts : List Nat) (k : Nat) : Prop where
  windows : windows s.trace = start :: acts
  terminal : ∃ report ∈ deliveries s.trace, report.2 ≠ .warningDue
  bound : k ≤ 2 * acts.length + 2
  replays : ∀ fuel future, Distinct params.toCore cap start (acts ++ future) →
    (∀ a ∈ future.head?, s.clock ≤ a) →
      loop params.toCore pick (fuel + k) ⟨cap, start + params.toCore.warnAfter, false⟩
          (acts ++ future) =
        some (through (deliveries s.trace))

/-- What any action adds to the activities and to the deliveries. -/
theorem act_adds (params : SessionParams) (s : SessionTimers) (action : Action) :
    s.clock ≤ (act params s action).clock ∧
    (∃ more, deliveries (act params s action).trace = deliveries s.trace ++ more) ∧
    (windows (act params s action).trace = windows s.trace ∨
      windows (act params s action).trace = windows s.trace ++ [s.clock] ∧
        (act params s action).clock = s.clock) := by
  have hsame : ∃ more, deliveries s.trace = deliveries s.trace ++ more :=
    ⟨[], (List.append_nil _).symm⟩
  have hsends : ∀ (m : SessionTimers) (scheduled : ScheduledEvent),
      (m.trySend scheduled).clock = m.clock ∧
      deliveries (m.trySend scheduled).trace = deliveries m.trace ∧
      windows (m.trySend scheduled).trace = windows m.trace := by
    intro m scheduled
    rcases trySend_cases m scheduled with ⟨-, c, l, -, heq⟩ | ⟨-, heq⟩
    · rw [heq]
      simp [emit, hand, deliveries, Phone.windows]
    · rw [heq]
      exact ⟨rfl, rfl, rfl⟩
  have hmoves := act_moves params s action
  generalize act params s action = s' at hmoves ⊢
  cases hmoves with
  | elapses duration => exact ⟨Nat.le_add_right _ _, hsame, .inl rfl⟩
  | starts | rearms =>
    refine ⟨Nat.le_refl _, ⟨[], ?_⟩, .inr ⟨?_, rfl⟩⟩
    · simp [armIdleWindow, emit, deliveries]
    · simp [armIdleWindow, emit, Phone.windows]
  | cancels hopen =>
    rw [cancel, if_neg (by simp [hopen])]
    refine ⟨Nat.le_refl _, ⟨[], ?_⟩, .inl ?_⟩
    · simp [emit, deliveries]
    · simp [emit, Phone.windows]
  | capFires _ =>
    obtain ⟨hclock, hdeliveries, hwindows⟩ := hsends { s with hardJob := none } .hardCap
    exact ⟨hclock.ge, ⟨[], hdeliveries.trans (List.append_nil _).symm⟩, .inl hwindows⟩
  | @idleFires job next event _ _ _ _ =>
    obtain ⟨hclock, hdeliveries, hwindows⟩ :=
      hsends { s with idleJob := next } ⟨event, some job.generation⟩
    exact ⟨hclock.ge, ⟨[], hdeliveries.trans (List.append_nil _).symm⟩, .inl hwindows⟩
  | @collects _ _ scheduled _ _ =>
    unfold deliver
    split_ifs
    · refine ⟨Nat.le_refl _, ⟨[(s.clock, scheduled.event)], ?_⟩, .inl ?_⟩
      · simp [emit, hand, deliveries]
      · simp [emit, hand, Phone.windows]
    · exact ⟨Nat.le_refl _, hsame, .inl rfl⟩
  | waits | skips => exact ⟨Nat.le_refl _, hsame, .inl rfl⟩

/-- Whatever comes after a terminal event. -/
theorem Ended.act (h : Ended params pick cap start s acts k) (action : Action) :
    ∃ acts', Ended params pick cap start (act params s action) acts' k := by
  obtain ⟨hclock, ⟨more, hmore⟩, hwindows⟩ := act_adds params s action
  have hthrough : through (deliveries (SessionTimers.act params s action).trace) =
      through (deliveries s.trace) := by rw [hmore, through_ended h.terminal]
  have hterminal : ∃ report ∈ deliveries (SessionTimers.act params s action).trace,
      report.2 ≠ .warningDue := by
    obtain ⟨report, hreport, hne⟩ := h.terminal
    exact ⟨report, hmore ▸ List.mem_append_left _ hreport, hne⟩
  rcases hwindows with hsame | ⟨hnew, hnow⟩
  · refine ⟨acts, hsame.trans h.windows, hterminal, h.bound, fun fuel future hdistinct hlater => ?_⟩
    rw [hthrough]
    exact h.replays fuel future hdistinct fun a ha => hclock.trans (hlater a ha)
  · refine ⟨acts ++ [s.clock], ?_, hterminal, ?_, fun fuel future hdistinct hlater => ?_⟩
    · rw [hnew, h.windows, List.cons_append]
    · have := h.bound
      rw [List.length_append]
      omega
    · rw [List.append_assoc] at hdistinct ⊢
      rw [hthrough]
      refine h.replays fuel (s.clock :: future) hdistinct ?_
      rintro _ ⟨⟩
      exact Nat.le_refl _

/-- The timers keep up with the loop, or both have ended. -/
def Follows (params : SessionParams) (pick : Nat → Nat) (cap start : Nat) (s : SessionTimers) :
    Prop :=
  (∃ acts k last warned, Live params pick cap start s acts k last warned) ∨
    ∃ acts k, Ended params pick cap start s acts k

/-- A terminal event ends the loop as well. -/
theorem Live.ends {event : TimerEvent} (h : Live params pick cap start s acts k last warned)
    (hclock : s'.clock = s.clock) (hwindows : Phone.windows s'.trace = Phone.windows s.trace)
    (hdeliveries : deliveries s'.trace = deliveries s.trace ++ [(s.clock, event)])
    (hterminal : event ≠ .warningDue)
    (hloop : ∀ fuel future, Distinct params.toCore cap last future →
      (∀ a ∈ future.head?, s.clock ≤ a) →
      loop params.toCore pick (fuel + 1) ⟨cap, milestone params.toCore last warned, warned⟩ future =
        some [(s.clock, event)]) : Follows params pick cap start s' := by
  refine .inr ⟨acts, k + 1, hwindows.trans h.windows, ?_, ?_,
    fun fuel future hdistinct hlater => ?_⟩
  · exact ⟨(s.clock, event), by simp [hdeliveries], hterminal⟩
  · have := h.bound
    have := warned.toNat_le
    omega
  · rw [hclock] at hlater
    obtain ⟨hrest, hreplay⟩ := h.replays (fuel + 1) future hdistinct hlater
    rw [Nat.add_comm k 1, ← Nat.add_assoc, hreplay, hloop fuel future hrest hlater, hdeliveries,
      through_calm h.calm, through, if_neg hterminal]
    rfl

/-- **A prompt step keeps the timers and the loop together.** -/
theorem Live.step (h : Live params pick cap start s acts k last warned)
    (hmove : PromptMove params cap last warned s s') : Follows params pick cap start s' := by
  cases hmove with
  | rests hclock hwindows hdeliveries hstep =>
    refine .inl ⟨acts, k, last, warned, hstep, hwindows.trans h.windows, hdeliveries ▸ h.calm,
      h.bound, fun fuel future hdistinct hlater => ?_⟩
    rw [hdeliveries]
    exact h.replays fuel future hdistinct fun a ha => hclock.trans (hlater a ha)
  | rearms hclock hwindows hdeliveries hstep =>
    refine .inl ⟨acts ++ [s.clock], k + 1, s.clock, false, hstep, ?_, hdeliveries ▸ h.calm, ?_,
      fun fuel future hdistinct hlater => ?_⟩
    · rw [hwindows, h.windows, List.cons_append]
    · have := h.bound
      have := warned.toNat_le
      rw [List.length_append, List.length_singleton, Bool.toNat_false]
      omega
    · rw [List.append_assoc] at hdistinct ⊢
      obtain ⟨hrest, hreplay⟩ := h.replays (fuel + 1) (s.clock :: future) hdistinct (by
        rintro _ ⟨⟩
        exact Nat.le_refl _)
      refine ⟨(hrest.apart h.inStep.clock_cap h.inStep.clock_idle rfl rfl).2.2, ?_⟩
      rw [Nat.add_comm k 1, ← Nat.add_assoc, hdeliveries]
      exact hreplay.trans (congrArg _
        (loop_activity hrest h.inStep.clock_cap h.inStep.clock_idle fuel))
  | warns hclock hnow hfirst hwindows hdeliveries hstep =>
    subst hfirst
    refine .inl ⟨acts, k + 1, last, true, hstep, hwindows.trans h.windows, ?_, ?_,
      fun fuel future hdistinct hlater => ?_⟩
    · rw [hdeliveries]
      intro report hreport
      rcases List.mem_append.mp hreport with hold | hnew
      · exact h.calm report hold
      · rw [List.mem_singleton.mp hnew]
    · have := h.bound
      simp only [Bool.toNat_false, Bool.toNat_true] at this ⊢
      omega
    · rw [hclock] at hlater
      obtain ⟨hrest, hreplay⟩ := h.replays (fuel + 1) future hdistinct hlater
      refine ⟨hrest, ?_⟩
      have hcap : milestone params.toCore last false ≤ cap := hnow ▸ h.inStep.clock_cap
      have hadd : milestone params.toCore last false + params.toCore.warnBefore =
          milestone params.toCore last true := by
        simp only [milestone]
        rw [Nat.add_assoc, params.toCore.warnAfter_add]
      rw [Nat.add_comm k 1, ← Nat.add_assoc, hreplay,
        loop_idle hrest (hnow ▸ hlater) hcap fuel, if_neg (by simp), hadd, Option.map_map,
        hdeliveries, hnow]
      simp [Function.comp_def]
  | expires hclock hnow hlast hwindows hdeliveries =>
    subst hlast
    refine h.ends hclock hwindows hdeliveries (by simp) fun fuel future hdistinct hlater => ?_
    have hcap : milestone params.toCore last true ≤ cap := hnow ▸ h.inStep.clock_cap
    rw [loop_idle hdistinct (hnow ▸ hlater) hcap fuel, if_pos rfl, hnow]
  | caps hclock hnow hwindows hdeliveries =>
    refine h.ends hclock hwindows hdeliveries (by simp) fun fuel future hdistinct hlater => ?_
    have hidle : cap ≤ milestone params.toCore last warned := hnow ▸ h.inStep.clock_idle
    rw [loop_cap hdistinct (hnow ▸ hlater) hidle fuel, hnow]

theorem Follows.run (h : Follows params pick cap start s) (hwhole : params.Whole)
    (steps : List PromptStep)
    (hontime : Along (act params) OnTime s (steps.flatMap PromptStep.actions)) :
    Follows params pick cap start ((steps.flatMap PromptStep.actions).foldl (act params) s) := by
  induction steps generalizing s with
  | nil => exact h
  | cons step steps ih =>
    rw [List.flatMap_cons] at hontime ⊢
    obtain ⟨hfirst, hrest⟩ := along_append.mp hontime
    rw [List.foldl_append]
    refine ih ?_ hrest
    rcases h with ⟨acts, k, last, warned, hlive⟩ | hended
    · exact hlive.step (hlive.inStep.step hwhole step hfirst)
    · refine .inr (List.foldlRecOn (motive := fun s => ∃ acts k,
        Ended params pick cap start s acts k) step.actions _ hended fun s' h action _ => ?_)
      obtain ⟨acts, k, hended⟩ := h
      obtain ⟨acts', hended'⟩ := hended.act action
      exact ⟨acts', k, hended'⟩

theorem follows_start (pick : Nat → Nat) (hwhole : params.Whole) (start : Nat) :
    Follows params pick (start + params.hardCap) start (run params [.elapse start, .start]) := by
  have hwindow : wholeMillis (params.idleTimeout - params.warnBefore) = params.toCore.warnAfter :=
    wholeMillis_eq_iff.mpr (Nat.dvd_sub hwhole.idle hwhole.warn)
  have hcap := wholeMillis_eq_iff.mpr hwhole.cap
  have hrun : run params [.elapse start, .start] = ⟨start, [], false, .polling,
      some (start + params.hardCap), some ⟨1, false, start + params.toCore.warnAfter⟩, true,
      false, 1, [.started start, .armed start 1]⟩ := by
    simp [run, act, new, SessionTimers.start, armIdleWindow, emit, hwindow, hcap]
  rw [hrun]
  refine .inl ⟨[], 0, start, false, ⟨rfl, rfl, rfl, rfl, rfl, rfl, .inl rfl, ?_, ?_⟩, rfl,
    by simp [deliveries], Nat.zero_le _, fun fuel future hdistinct _ => ⟨hdistinct, ?_⟩⟩
  · exact Nat.le_add_right _ _
  · exact Nat.le_add_right _ _
  · simp [deliveries, milestone]

/-- **What was delivered is what the watchdog reports.** -/
theorem prompt_deliveries (hwhole : params.Whole) (steps : List PromptStep)
    (hontime : Along (act params) OnTime new (prompt start steps))
    (hdistinct : Distinct params.toCore (start + params.hardCap) start
      (windows (run params (prompt start steps)).trace).tail) :
    ∃ later, watchdog params.toCore pick start
        (windows (run params (prompt start steps)).trace).tail =
          some (through (deliveries (run params (prompt start steps)).trace) ++ later) ∧
      ∀ report ∈ later, (run params (prompt start steps)).clock ≤ report.1 := by
  have hrun : run params (prompt start steps) =
      (steps.flatMap PromptStep.actions).foldl (act params)
        (run params [.elapse start, .start]) := rfl
  have hafter : Along (act params) OnTime (run params [.elapse start, .start])
      (steps.flatMap PromptStep.actions) := hontime.2.2
  have hfollows := (follows_start pick hwhole start).run hwhole steps hafter
  rw [← hrun] at hfollows
  have hwatchdog : ∀ acts, watchdog params.toCore pick start acts =
      loop params.toCore pick (2 * acts.length + 2)
        ⟨start + params.hardCap, start + params.toCore.warnAfter, false⟩ acts := by
    intro acts
    rw [watchdog, Nat.add_sub_assoc params.toCore.warn_lt.le]
    rfl
  rcases hfollows with ⟨acts, k, last, warned, hlive⟩ | ⟨acts, k, hended⟩
  · rw [hlive.windows, List.tail_cons] at hdistinct ⊢
    have hfuel : 2 * acts.length + 2 = (2 * acts.length + 2 - k) + k := by
      have := hlive.bound
      have := warned.toNat_le
      omega
    obtain ⟨-, hreplay⟩ := hlive.replays (2 * acts.length + 2 - k) []
      (by rwa [List.append_nil]) (by simp)
    obtain ⟨later, hquiet, hlater⟩ := @loop_quiet params.toCore pick (start + params.hardCap) last
      (run params (prompt start steps)).clock warned (2 * acts.length + 2 - k)
      (by have := hlive.bound; have := warned.toNat_le; omega) hlive.inStep.clock_cap
      hlive.inStep.clock_idle
    refine ⟨later, ?_, hlater⟩
    have hthrough := @through_calm (deliveries (run params (prompt start steps)).trace) []
      hlive.calm
    rw [List.append_nil, through, List.append_nil] at hthrough
    rw [List.append_nil] at hreplay
    rw [hwatchdog, hfuel, hreplay, hquiet, hthrough]
    rfl
  · rw [hended.windows, List.tail_cons] at hdistinct ⊢
    have hfuel : 2 * acts.length + 2 = (2 * acts.length + 2 - k) + k := by
      have := hended.bound
      omega
    have hreplay := hended.replays (2 * acts.length + 2 - k) [] (by rwa [List.append_nil]) (by simp)
    rw [List.append_nil] at hreplay
    refine ⟨[], ?_, by simp⟩
    rw [hwatchdog, hfuel, hreplay, List.append_nil]

end Following

/-! ## The promises -/

/-- **What the timers promise**, over one run. -/
structure TimersKept (params : SessionParams) (actions : List Action) : Prop where
  /-- Idle events are delivered in their own window only, and nothing after `cancel`. -/
  fresh : Always Fitting (run params actions).trace
  /-- The cap is queued at its instant, whatever the activity. -/
  cap : ∀ t, PastCap params actions t →
    .queued (t + params.hardCap) .hardCap ∈ (run params actions).trace
  /-- Collected at once, the events up to the first terminal one are the watchdog's; what it
  reports beyond them is still to come. -/
  watchdog : ∀ start steps pick, actions = prompt start steps → params.Whole →
    Along (act params) OnTime new actions →
    Distinct params.toCore (start + params.hardCap) start
      (windows (run params actions).trace).tail →
    ∃ later, Core.watchdog params.toCore pick start (windows (run params actions).trace).tail =
        some (through (deliveries (run params actions).trace) ++ later) ∧
      ∀ report ∈ later, (run params actions).clock ≤ report.1

/-- **The timers keep their promises exactly if the cap does not find the buffer full.** In every
run that gets past the cap, on time and uncancelled, the cap must be whole milliseconds, the unit
of `delay`, and at the moment its coroutine goes on the channel must have room: a `trySend` into a
full buffer drops the event. -/
theorem timers_kept_iff (params : SessionParams) (actions : List Action) :
    TimersKept params actions ↔ ∀ t, PastCap params actions t →
      1000000 ∣ params.hardCap ∧ Along (act params) CapFindsRoom new actions := by
  constructor
  · intro h t hpast
    exact (cap_queued_iff hpast).mp (h.cap t hpast)
  · intro h
    refine ⟨(sound_run params actions).fitting, fun t hpast => ?_, ?_⟩
    · exact (cap_queued_iff hpast).mpr (h t hpast)
    · rintro start steps pick rfl hwhole hontime hdistinct
      exact prompt_deliveries hwhole steps hontime hdistinct

/-- Five minutes of idleness with a warning after one second. -/
def hasty : SessionParams where
  idleTimeout := seconds 300
  warnBefore := seconds 299
  hardCap := seconds 1800
  idle_bounds := by decide
  cap_bounds := by decide
  warn_pos := by decide
  warn_lt := by decide

example : deliveries (run hasty (prompt 7 [.elapse (seconds 1), .fireIdle, .elapse (seconds 299),
    .fireIdle])).trace = [(7 + seconds 1, .warningDue), (7 + seconds 300, .idleExpired)] := by
  decide +kernel

/-- Activity right after each of 64 warnings, none of which is collected, and then none until the
cap. -/
def crowded : List Action :=
  .start :: (List.replicate 64 [.elapse (seconds 1), .fireIdle, .recordActivity]).flatten ++
    [.elapse (seconds 1), .fireIdle, .elapse (seconds 299), .fireIdle, .elapse (seconds 1436),
      .fireHard, .elapse 1]

instance (s : SessionTimers) : DecidablePred (OnTime s)
  | .elapse duration => inferInstanceAs (Decidable (
      (∀ deadline ∈ s.hardJob, s.clock + duration ≤ deadline) ∧
        ∀ job ∈ s.idleJob, s.clock + duration ≤ job.deadline))
  | .start => .isTrue trivial
  | .recordActivity => .isTrue trivial
  | .cancel => .isTrue trivial
  | .fireHard => .isTrue trivial
  | .fireIdle => .isTrue trivial
  | .collect => .isTrue trivial

/-- The stale warnings fill the buffer, and the hard cap is lost. -/
theorem crowded_buffer_loses_cap : ¬ TimersKept hasty crowded := by
  intro h
  have hopen : (run hasty crowded).cancelled = false := by decide +kernel
  have hpast : PastCap hasty crowded 0 :=
    ⟨by decide +kernel, by decide +kernel, by decide +kernel,
      fun t ht => absurd ht ((sound_run hasty crowded).quiet.mp hopen t)⟩
  have hlost : .queued (0 + hasty.hardCap) .hardCap ∉ (run hasty crowded).trace := by decide +kernel
  exact hlost (h.cap 0 hpast)

end Conveyance.Phone
