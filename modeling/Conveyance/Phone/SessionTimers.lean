import Conveyance.Core.Timers
import Conveyance.Lib.Transition

/-!
# The phone's session timers (android, session/SessionTimers.kt and SessionParams.kt)

Three coroutines where the daemon has one loop: a `delay` up to the hard cap, one idle
coroutine per idle window that is cancelled and launched again by activity, and the
collector of the events flow. They meet in a buffered channel; idle events carry the
generation of their window, and the flow drops those of an old one.

All of it is confined to one dispatcher, so a run is a list of actions, where an action that
is not possible changes nothing. Timers may fire late and events may be collected late;
`OnTime` is a run whose timers fire at their instants. A delay starts when its coroutine is
launched.

A cancelled coroutine does not go on, also when its delay is over already.
-/

namespace Conveyance.Phone

open Lib
open Conveyance.Core (TimerEvent seconds)

/-! ## Parameters -/

namespace SessionParams

def idleMin : Nat := seconds (5 * 60)
def idleMax : Nat := seconds (4 * 3600)
def capMin : Nat := seconds (30 * 60)
def capMax : Nat := seconds (24 * 3600)

/-- What an argument must be. -/
inductive Requirement where
  | within (min max : Nat)
  | positive
  | shorterThan (idleTimeout : Nat)
deriving DecidableEq

structure OutOfBounds where
  field : String
  requirement : Requirement
  given : Nat
deriving DecidableEq

end SessionParams

/-- The constructor is private: values come out of `validated`. Durations are nanoseconds. -/
structure SessionParams where
  idleTimeout : Nat
  warnBefore : Nat
  hardCap : Nat
  idle_bounds : SessionParams.idleMin ≤ idleTimeout ∧ idleTimeout ≤ SessionParams.idleMax
  cap_bounds : SessionParams.capMin ≤ hardCap ∧ hardCap ≤ SessionParams.capMax
  warn_pos : 0 < warnBefore
  warn_lt : warnBefore < idleTimeout

namespace SessionParams

def requireInRange (field : String) (value min max : Nat) :
    Except OutOfBounds (PLift (min ≤ value ∧ value ≤ max)) :=
  if h : min ≤ value ∧ value ≤ max then .ok ⟨h⟩ else .error ⟨field, .within min max, value⟩

def validated (idleTimeout warnBefore hardCap : Nat) : Except OutOfBounds SessionParams := do
  let ⟨hidle⟩ ← requireInRange "idleTimeout" idleTimeout idleMin idleMax
  let ⟨hcap⟩ ← requireInRange "hardCap" hardCap capMin capMax
  if hpos : warnBefore = 0 then .error ⟨"warnBefore", .positive, warnBefore⟩
  else if hlt : idleTimeout ≤ warnBefore then
    .error ⟨"warnBefore", .shorterThan idleTimeout, warnBefore⟩
  else
    .ok ⟨idleTimeout, warnBefore, hardCap, hidle, hcap, Nat.pos_of_ne_zero hpos,
      Nat.lt_of_not_le hlt⟩

/-- The daemon takes what the phone takes. -/
def toCore (params : SessionParams) : Core.SessionParams where
  idleTimeout := params.idleTimeout
  warnBefore := params.warnBefore
  hardCap := params.hardCap
  idle_bounds := params.idle_bounds
  cap_bounds := params.cap_bounds
  warn_lt := params.warn_lt

end SessionParams

/-- `inWholeMilliseconds`, in nanoseconds again. -/
def wholeMillis (duration : Nat) : Nat := duration / 1000000 * 1000000

/-! ## State -/

structure ScheduledEvent where
  event : TimerEvent
  idleGeneration : Option Nat
deriving DecidableEq

def ScheduledEvent.hardCap : ScheduledEvent := ⟨.hardCapReached, none⟩

/-- The idle coroutine in its first or second `delay`. -/
structure IdleJob where
  generation : Nat
  warned : Bool
  deadline : Nat
deriving DecidableEq

/-- The one coroutine that collects the flow. -/
inductive Collector where
  /-- About to receive, or not there yet. -/
  | polling
  /-- Suspended in `receive`. -/
  | waiting
  /-- Handed an element, and not run since. -/
  | resumed (scheduled : ScheduledEvent)
  | done
deriving DecidableEq

/-- What happened, for reasoning only. -/
inductive Obs where
  | started (time : Nat)
  | armed (time generation : Nat)
  /-- A `trySend` that succeeded. -/
  | queued (time : Nat) (scheduled : ScheduledEvent)
  | delivered (time : Nat) (scheduled : ScheduledEvent)
  | cancelled (time : Nat)
deriving DecidableEq

structure SessionTimers where
  clock : Nat
  channel : List ScheduledEvent
  closed : Bool
  collector : Collector
  /-- The instant the cap's delay is over, while it is pending. -/
  hardJob : Option Nat
  idleJob : Option IdleJob
  started : Bool
  cancelled : Bool
  idleGeneration : Nat
  trace : List Obs
deriving DecidableEq

/-- `Channel.BUFFERED`. -/
def bufferCap : Nat := 64

/-- "SessionTimers.start() called twice". -/
inductive StartedTwice where
  | mk
deriving DecidableEq

inductive Action where
  | elapse (duration : Nat)
  | start
  | recordActivity
  | cancel
  /-- The delay of the cap is over. -/
  | fireHard
  /-- The delay the idle coroutine is in is over. -/
  | fireIdle
  /-- The collector gets to run. -/
  | collect
deriving DecidableEq

namespace SessionTimers

section Actions

variable (params : SessionParams)

def new : SessionTimers := ⟨0, [], false, .polling, none, none, false, false, 0, []⟩

section

variable (s : SessionTimers)

def emit (o : Obs) : SessionTimers := { s with trace := s.trace ++ [o] }

/-- Whether a `trySend` succeeds: a suspended receiver takes the element off the sender's
hands, and otherwise the buffer must have room. -/
def hasRoom : Bool :=
  !s.closed && (s.collector = .waiting || s.channel.length < bufferCap)

def trySend (scheduled : ScheduledEvent) : SessionTimers :=
  if s.hasRoom then
    (if s.collector = Collector.waiting then { s with collector := .resumed scheduled }
      else { s with channel := s.channel ++ [scheduled] }).emit (.queued s.clock scheduled)
  else s

def armIdleWindow : SessionTimers :=
  let generation := s.idleGeneration + 1
  { s with
    idleGeneration := generation
    idleJob := some ⟨generation, false,
      s.clock + wholeMillis (params.idleTimeout - params.warnBefore)⟩ }.emit
    (.armed s.clock generation)

def start : Except StartedTwice SessionTimers :=
  if s.started then .error .mk
  else
    .ok (({ s with
      started := true
      hardJob := some (s.clock + wholeMillis params.hardCap) }.emit
        (.started s.clock)).armIdleWindow params)

def recordActivity : SessionTimers :=
  if !s.started || s.cancelled then s else s.armIdleWindow params

def cancel : SessionTimers :=
  if s.cancelled then s
  else
    { s with
      cancelled := true
      idleGeneration := s.idleGeneration + 1
      hardJob := none
      idleJob := none
      closed := true
      -- a receiver of a closed and empty channel is let go
      collector := if s.collector = Collector.waiting then .done else s.collector }.emit
      (.cancelled s.clock)

/-- The cap's coroutine may go on. -/
def capDue : Bool := s.hardJob.any (· ≤ s.clock)

def fireHard : SessionTimers :=
  if s.capDue then { s with hardJob := none }.trySend .hardCap else s

def fireIdle : SessionTimers :=
  match s.idleJob with
  | none => s
  | some job =>
    if job.deadline ≤ s.clock then
      if job.warned then
        { s with idleJob := none }.trySend ⟨.idleExpired, some job.generation⟩
      else
        { s with
          idleJob := some ⟨job.generation, true, s.clock + wholeMillis params.warnBefore⟩ }.trySend
          ⟨.warningDue, some job.generation⟩
    else s

/-- The flow's filter. -/
def passes (scheduled : ScheduledEvent) : Bool :=
  !s.cancelled && scheduled.idleGeneration.all (· = s.idleGeneration)

def deliver (scheduled : ScheduledEvent) : SessionTimers :=
  if s.passes scheduled then s.emit (.delivered s.clock scheduled) else s

def collect : SessionTimers :=
  match s.collector with
  | .polling =>
    match s.channel with
    | scheduled :: rest => { s with channel := rest }.deliver scheduled
    | [] => { s with collector := if s.closed then .done else .waiting }
  | .resumed scheduled => { s with collector := .polling }.deliver scheduled
  | .waiting => s
  | .done => s

def act : Action → SessionTimers
  | .elapse duration => { s with clock := s.clock + duration }
  | .start => match s.start params with
    | .ok s' => s'
    | .error _ => s
  | .recordActivity => s.recordActivity params
  | .cancel => s.cancel
  | .fireHard => s.fireHard
  | .fireIdle => s.fireIdle params
  | .collect => s.collect

end

def run (actions : List Action) : SessionTimers := actions.foldl (act params) new

end Actions

end SessionTimers

/-! ## What an action does -/

namespace SessionTimers

section Moves

variable {params : SessionParams} {s s' : SessionTimers} {scheduled : ScheduledEvent}

/-- The elements that were sent and not looked at yet. -/
def outstanding (s : SessionTimers) : List ScheduledEvent :=
  match s.collector with
  | .resumed scheduled => scheduled :: s.channel
  | _ => s.channel

/-- The elements in other hands. -/
def hand (s : SessionTimers) (collector : Collector) (channel : List ScheduledEvent) :
    SessionTimers :=
  { s with collector, channel }

theorem trySend_cases (s : SessionTimers) (scheduled : ScheduledEvent) :
    (s.hasRoom = true ∧ ∃ c l, (∀ e ∈ (s.hand c l).outstanding, e ∈ s.outstanding ∨ e = scheduled) ∧
      s.trySend scheduled = (s.hand c l).emit (.queued s.clock scheduled)) ∨
    (s.hasRoom = false ∧ s.trySend scheduled = s) := by
  unfold trySend
  cases hroom : s.hasRoom with
  | false => exact Or.inr ⟨rfl, rfl⟩
  | true =>
    left
    rw [if_pos rfl]
    split_ifs with hwaiting
    · refine ⟨rfl, .resumed scheduled, s.channel, fun e he => ?_, rfl⟩
      simp only [outstanding, hand, hwaiting, List.mem_cons] at he ⊢
      exact he.symm
    · refine ⟨rfl, s.collector, s.channel ++ [scheduled], fun e he => ?_, rfl⟩
      unfold outstanding at he ⊢
      dsimp only [hand] at he
      split at he <;> simp_all [or_assoc]

/-- The ways a state can change. -/
inductive Moves (params : SessionParams) (s : SessionTimers) : Action → SessionTimers → Prop where
  | elapses (duration : Nat) :
      Moves params s (.elapse duration) { s with clock := s.clock + duration }
  | starts : s.started = false →
      Moves params s .start (({ s with
        started := true
        hardJob := some (s.clock + wholeMillis params.hardCap) }.emit
          (.started s.clock)).armIdleWindow params)
  | rearms : s.started = true → s.cancelled = false →
      Moves params s .recordActivity (s.armIdleWindow params)
  | cancels : s.cancelled = false → Moves params s .cancel s.cancel
  | capFires : s.capDue = true →
      Moves params s .fireHard ({ s with hardJob := none }.trySend .hardCap)
  | idleFires {job : IdleJob} {next : Option IdleJob} {event : TimerEvent} :
      s.idleJob = some job → job.deadline ≤ s.clock →
      (∀ job' ∈ next, job'.generation = job.generation) → event ≠ .hardCapReached →
      Moves params s .fireIdle
        ({ s with idleJob := next }.trySend ⟨event, some job.generation⟩)
  | collects {c : Collector} {l : List ScheduledEvent} {scheduled : ScheduledEvent} :
      scheduled ∈ s.outstanding → (∀ e ∈ (s.hand c l).outstanding, e ∈ s.outstanding) →
      Moves params s .collect ((s.hand c l).deliver scheduled)
  | waits {c : Collector} {l : List ScheduledEvent} :
      (∀ e ∈ (s.hand c l).outstanding, e ∈ s.outstanding) → Moves params s .collect (s.hand c l)
  | skips (action : Action) : Moves params s action s

theorem collect_moves (s : SessionTimers) : Moves params s .collect s.collect := by
  unfold collect
  cases hcollector : s.collector with
  | polling =>
    cases hchannel : s.channel with
    | nil =>
      refine .waits fun e he => ?_
      unfold outstanding at he
      dsimp only [hand] at he
      split_ifs at he <;> simp at he
    | cons scheduled rest =>
      refine .collects ?_ fun e he => ?_
      · simp [outstanding, hcollector, hchannel]
      · simp only [outstanding, hand, hcollector, hchannel] at he ⊢
        exact List.mem_cons_of_mem _ he
  | waiting | done => exact .skips _
  | resumed scheduled =>
    refine .collects ?_ fun e he => ?_
    · simp [outstanding, hcollector]
    · simp only [outstanding, hand, hcollector] at he ⊢
      exact List.mem_cons_of_mem _ he

theorem fireIdle_moves (s : SessionTimers) : Moves params s .fireIdle (s.fireIdle params) := by
  unfold fireIdle
  cases hjob : s.idleJob with
  | none => exact .skips _
  | some job =>
    dsimp only
    split_ifs with hdue hwarned
    · exact .idleFires hjob hdue (by simp) (by simp)
    · exact .idleFires hjob hdue (by simp) (by simp)
    · exact .skips _

theorem act_moves (params : SessionParams) (s : SessionTimers) (action : Action) :
    Moves params s action (act params s action) := by
  cases action with
  | elapse duration => exact .elapses duration
  | start =>
    unfold act start
    cases hstarted : s.started with
    | true => exact .skips _
    | false => exact .starts hstarted
  | recordActivity =>
    unfold act recordActivity
    cases hstarted : s.started with
    | false => exact .skips _
    | true =>
      cases hcancelled : s.cancelled with
      | true => exact .skips _
      | false => exact .rearms hstarted hcancelled
  | cancel =>
    cases hcancelled : s.cancelled with
    | true =>
      unfold act cancel
      rw [if_pos hcancelled]
      exact .skips _
    | false => exact .cancels hcancelled
  | fireHard =>
    unfold act fireHard
    cases hdue : s.capDue with
    | false => exact .skips _
    | true => exact .capFires hdue
  | fireIdle => exact fireIdle_moves s
  | collect => exact collect_moves s

end Moves

/-! ## Nothing stale -/

/-- The number of windows armed so far. -/
def armings (trace : List Obs) : Nat :=
  trace.countP fun
    | .armed _ _ => true
    | _ => false

/-- Only the cap belongs to no window. -/
def Kind (scheduled : ScheduledEvent) : Prop :=
  scheduled.idleGeneration = none ↔ scheduled.event = .hardCapReached

/-- What must have happened before. Generations number the windows; an idle event is sent
and delivered in its own window only, and nothing is delivered after `cancel`. -/
def Fitting (past : List Obs) : Obs → Prop
  | .armed _ generation => (∀ t, .cancelled t ∉ past) → generation = armings past + 1
  | .queued _ scheduled =>
    Kind scheduled ∧ ∀ generation ∈ scheduled.idleGeneration, generation = armings past
  | .delivered _ scheduled =>
    (∀ t, .cancelled t ∉ past) ∧ (∃ t, .queued t scheduled ∈ past) ∧
      (scheduled.event ≠ .hardCapReached → scheduled.idleGeneration = some (armings past))
  | _ => True

/-- The counter agrees with what happened. -/
structure Sound (s : SessionTimers) : Prop where
  fitting : Always Fitting s.trace
  closed : s.closed = s.cancelled
  quiet : s.cancelled = false ↔ ∀ t, .cancelled t ∉ s.trace
  generation : s.cancelled = false → s.idleGeneration = armings s.trace
  job : ∀ job ∈ s.idleJob, job.generation = s.idleGeneration
  sent : ∀ scheduled ∈ s.outstanding, Kind scheduled ∧ ∃ t, .queued t scheduled ∈ s.trace

section Sound

variable {params : SessionParams} {s s' : SessionTimers} {scheduled : ScheduledEvent}
  {action : Action}

/-- Neither a window nor the end. -/
def Plain : Obs → Prop
  | .armed _ _ => False
  | .cancelled _ => False
  | _ => True

theorem armings_say {o : Obs} (h : Plain o) (trace : List Obs) :
    armings (trace ++ [o]) = armings trace := by
  cases o with
  | armed t g => exact h.elim
  | _ => simp [armings]

theorem quiet_say {o : Obs} (h : Plain o) (trace : List Obs) :
    (∀ t, .cancelled t ∉ trace ++ [o]) ↔ ∀ t, .cancelled t ∉ trace := by
  cases o with
  | cancelled t => exact h.elim
  | _ => simp

theorem Sound.say {o : Obs} (h : Sound s) (hplain : Plain o) (hfit : Fitting s.trace o) :
    Sound (s.emit o) where
  fitting := always_snoc.mpr ⟨h.fitting, hfit⟩
  closed := h.closed
  quiet := h.quiet.trans (quiet_say hplain _).symm
  generation hopen := (h.generation hopen).trans (armings_say hplain _).symm
  job := h.job
  sent e he := by
    obtain ⟨hkind, t, ht⟩ := h.sent e he
    exact ⟨hkind, t, List.mem_append_left _ ht⟩

/-- An element that was sent may be anywhere. -/
theorem Sound.hand {c : Collector} {l : List ScheduledEvent} (h : Sound s)
    (hsent : ∀ e ∈ (s.hand c l).outstanding,
      e ∈ s.outstanding ∨ Kind e ∧ ∃ t, .queued t e ∈ s.trace) : Sound (s.hand c l) :=
  { h with sent := fun e he => (hsent e he).elim (h.sent e) id }

theorem Sound.trySend (h : Sound s) (hkind : Kind scheduled)
    (hgeneration : ∀ g ∈ scheduled.idleGeneration, g = s.idleGeneration) :
    Sound (s.trySend scheduled) := by
  rcases trySend_cases s scheduled with ⟨hroom, c, l, hsent, heq⟩ | ⟨-, heq⟩
  · -- the channel is open
    have hopen : s.cancelled = false := by
      rw [hasRoom, Bool.and_eq_true, Bool.not_eq_true', h.closed] at hroom
      exact hroom.1
    have hsaid : Sound (s.emit (.queued s.clock scheduled)) :=
      h.say trivial ⟨hkind, fun g hg => (hgeneration g hg).trans (h.generation hopen)⟩
    rw [heq]
    refine hsaid.hand fun e he => ?_
    rcases hsent e he with hold | rfl
    · exact .inl hold
    · exact .inr ⟨hkind, s.clock, by simp [emit]⟩
  · rw [heq]
    exact h

theorem Sound.deliver (h : Sound s) (hkind : Kind scheduled)
    (hsent : ∃ t, .queued t scheduled ∈ s.trace) : Sound (s.deliver scheduled) := by
  unfold SessionTimers.deliver
  split_ifs with hpasses
  · rw [passes, Bool.and_eq_true, Bool.not_eq_true'] at hpasses
    obtain ⟨hopen, hcurrent⟩ := hpasses
    refine h.say trivial ⟨h.quiet.mp hopen, hsent, fun hidle => ?_⟩
    cases hg : scheduled.idleGeneration with
    | none => exact absurd (hkind.mp hg) hidle
    | some g =>
      rw [hg, Option.all_some, decide_eq_true_eq] at hcurrent
      rw [hcurrent, h.generation hopen]
  · exact h

theorem Sound.armIdleWindow (h : Sound s) : Sound (s.armIdleWindow params) where
  fitting := by
    refine always_snoc.mpr ⟨h.fitting, fun hquiet => ?_⟩
    rw [← h.generation (h.quiet.mpr hquiet)]
  closed := h.closed
  quiet := h.quiet.trans (by simp [SessionTimers.armIdleWindow, emit])
  generation hopen := by
    show s.idleGeneration + 1 = armings (s.trace ++ _)
    rw [h.generation hopen]
    simp [armings]
  job := by
    rintro _ ⟨⟩
    rfl
  sent e he := by
    obtain ⟨hkind, t, ht⟩ := h.sent e he
    exact ⟨hkind, t, List.mem_append_left _ ht⟩

theorem Sound.cancel (h : Sound s) (hopen : s.cancelled = false) : Sound s.cancel := by
  unfold SessionTimers.cancel
  rw [if_neg (by simp [hopen])]
  refine ⟨always_snoc.mpr ⟨h.fitting, trivial⟩, rfl, ?_, ?_, ?_, fun e he => ?_⟩
  · refine ⟨fun hfalse => ?_, fun hquiet => absurd ?_ (hquiet s.clock)⟩
    · cases hfalse
    · simp [emit]
  · simp [emit]
  · simp [emit]
  · have hold : e ∈ s.outstanding := by
      unfold outstanding at he ⊢
      dsimp only [emit] at he
      split_ifs at he with hwaiting
      · rw [hwaiting]
        exact he
      · exact he
    obtain ⟨hkind, t, ht⟩ := h.sent e hold
    exact ⟨hkind, t, List.mem_append_left _ ht⟩

/-- **One action keeps the counter in step.** -/
theorem Sound.act (h : Sound s) (action : Action) : Sound (act params s action) := by
  have hmoves := act_moves params s action
  generalize SessionTimers.act params s action = s' at hmoves
  cases hmoves with
  | elapses duration => exact { h with }
  | starts hnew => exact Sound.armIdleWindow (Sound.say { h with } trivial trivial)
  | rearms _ _ => exact h.armIdleWindow
  | cancels hopen => exact h.cancel hopen
  | capFires _ =>
    exact .trySend { h with } (by simp [Kind, ScheduledEvent.hardCap])
      (by simp [ScheduledEvent.hardCap])
  | @idleFires job next event hjob _ hnext hevent =>
    refine .trySend { h with job := fun job' hjob' => ?_ } (by simp [Kind, hevent]) ?_
    · exact (hnext job' hjob').trans (h.job job hjob)
    · rintro _ ⟨⟩
      exact h.job job hjob
  | @collects _ _ scheduled hmem hsent =>
    obtain ⟨hkind, hqueued⟩ := h.sent scheduled hmem
    exact (h.hand fun e he => .inl (hsent e he)).deliver hkind hqueued
  | waits hsent => exact h.hand fun e he => .inl (hsent e he)
  | skips => exact h

theorem sound_new : Sound new :=
  ⟨always_nil, rfl, by simp [new], fun _ => rfl, by simp [new], by simp [new, outstanding]⟩

theorem sound_run (params : SessionParams) (actions : List Action) : Sound (run params actions) :=
  List.foldlRecOn actions _ sound_new fun _ h action _ => h.act action

end Sound

/-! ## The hard cap -/

/-- Time does not pass an instant at which a timer has yet to fire. -/
def OnTime (s : SessionTimers) : Action → Prop
  | .elapse duration => (∀ deadline ∈ s.hardJob, s.clock + duration ≤ deadline) ∧
    ∀ job ∈ s.idleJob, s.clock + duration ≤ job.deadline
  | _ => True

/-- When the cap's coroutine goes on, the channel takes its event. -/
def CapFindsRoom (s : SessionTimers) : Action → Prop
  | .fireHard => s.capDue = true → s.hasRoom = true
  | _ => True

/-- The observations the cap has a part in. -/
def capRelated : Obs → Bool
  | .started _ => true
  | .cancelled _ => true
  | .queued _ scheduled => scheduled = .hardCap
  | _ => false

/-- What there is to see of the cap. -/
structure CapView where
  clock : Nat
  hardJob : Option Nat
  started : Bool
  cancelled : Bool
  said : List Obs

def capView (s : SessionTimers) : CapView :=
  ⟨s.clock, s.hardJob, s.started, s.cancelled, s.trace.filter capRelated⟩

/-- What can happen to the cap; `room` is whether its event would be taken. -/
inductive CapStep (params : SessionParams) (room : Bool) : CapView → Action → CapView → Prop where
  | elapses (c : CapView) (duration : Nat) :
      CapStep params room c (.elapse duration) { c with clock := c.clock + duration }
  | starts {c : CapView} : c.started = false → CapStep params room c .start { c with
      started := true
      hardJob := some (c.clock + wholeMillis params.hardCap)
      said := c.said ++ [.started c.clock] }
  | cancels {c : CapView} : c.cancelled = false → CapStep params room c .cancel { c with
      cancelled := true
      hardJob := none
      said := c.said ++ [.cancelled c.clock] }
  | fires {c : CapView} {deadline : Nat} : c.hardJob = some deadline → deadline ≤ c.clock →
      CapStep params room c .fireHard { c with
        hardJob := none
        said := c.said ++ if room then [.queued c.clock .hardCap] else [] }
  | rests (c : CapView) (action : Action) : CapStep params room c action c

section View

variable {params : SessionParams} {s : SessionTimers} {scheduled : ScheduledEvent}

theorem capView_say (s : SessionTimers) (o : Obs) :
    (s.emit o).capView = { s.capView with
      said := s.capView.said ++ if capRelated o then [o] else [] } := by
  cases hrelated : capRelated o <;> simp [SessionTimers.capView, emit, hrelated]

theorem capView_unrelated {o : Obs} (h : capRelated o = false) :
    (s.emit o).capView = s.capView := by
  rw [capView_say, if_neg (by simp [h]), List.append_nil]

theorem capView_trySend (s : SessionTimers) (scheduled : ScheduledEvent) :
    (s.trySend scheduled).capView = { s.capView with
      said := s.capView.said ++
        if s.hasRoom ∧ scheduled = .hardCap then [.queued s.clock .hardCap] else [] } := by
  rcases trySend_cases s scheduled with ⟨hroom, c, l, -, heq⟩ | ⟨hroom, heq⟩
  · rw [heq, hroom, capView_say]
    by_cases hcap : scheduled = .hardCap <;> simp [capRelated, hcap, SessionTimers.capView, hand]
  · rw [heq, hroom, if_neg (fun h => Bool.false_ne_true h.1), List.append_nil]

theorem capView_deliver : (s.deliver scheduled).capView = s.capView := by
  unfold deliver
  split_ifs
  · exact capView_unrelated rfl
  · rfl

theorem capView_armIdleWindow : (s.armIdleWindow params).capView = s.capView := by
  simp [SessionTimers.capView, armIdleWindow, emit, capRelated]

theorem capDue_iff :
    s.capDue = true ↔ ∃ deadline, s.hardJob = some deadline ∧ deadline ≤ s.clock := by
  unfold capDue
  cases s.hardJob <;> simp

/-- **The timers refine their cap.** -/
theorem act_capStep (params : SessionParams) (s : SessionTimers) (action : Action) :
    CapStep params s.hasRoom s.capView action (act params s action).capView := by
  have hmoves := act_moves params s action
  generalize SessionTimers.act params s action = s' at hmoves
  cases hmoves with
  | elapses duration => exact .elapses _ duration
  | starts hnew =>
    rw [capView_armIdleWindow, capView_say]
    exact .starts hnew
  | rearms _ _ =>
    rw [capView_armIdleWindow]
    exact .rests _ _
  | cancels hopen =>
    rw [SessionTimers.cancel, if_neg (by simp [hopen]), capView_say]
    exact .cancels hopen
  | capFires hdue =>
    obtain ⟨deadline, hjob, hle⟩ := capDue_iff.mp hdue
    have hroom : ({ s with hardJob := none } : SessionTimers).hasRoom = s.hasRoom := rfl
    rw [capView_trySend, hroom]
    simp only [and_true]
    exact .fires hjob hle
  | idleFires _ _ _ hevent =>
    rw [capView_trySend, if_neg (by simp [ScheduledEvent.hardCap]), List.append_nil]
    exact .rests _ _
  | collects _ _ =>
    rw [capView_deliver]
    exact .rests _ _
  | waits | skips => exact .rests _ _

end View

namespace CapView

variable {params : SessionParams} {room : Bool} {c c' : CapView} {action : Action}

/-- The cap is started once, and not queued before its delay is over. -/
structure Told (c : CapView) : Prop where
  idle : c.started = false → ∀ t, .queued t .hardCap ∉ c.said ∧ .started t ∉ c.said
  pending : c.hardJob.isSome = true → c.started = true ∧ ∀ t, .queued t .hardCap ∉ c.said
  once : ∀ t t', .started t ∈ c.said → .started t' ∈ c.said → t = t'

theorem Told.step (h : Told c) (hstep : CapStep params room c action c') : Told c' := by
  cases hstep with
  | elapses duration => exact ⟨h.idle, h.pending, h.once⟩
  | starts hnew =>
    refine ⟨by simp, fun _ => ⟨rfl, fun t ht => ?_⟩, fun t t' ht ht' => ?_⟩
    · simp only [List.mem_append, List.mem_singleton, reduceCtorEq, or_false] at ht
      exact (h.idle hnew t).1 ht
    · have hfirst : ∀ {t}, .started t ∈ c.said ++ [.started c.clock] → t = c.clock := by
        intro t ht
        rcases List.mem_append.mp ht with ht | ht
        · exact absurd ht (h.idle hnew t).2
        · simpa using ht
      rw [hfirst ht, hfirst ht']
  | cancels _ => exact ⟨by simpa using h.idle, by simp, by simpa using h.once⟩
  | fires hjob _ =>
    have hstarted := (h.pending (by simp [hjob])).1
    refine ⟨by simp [hstarted], by simp, ?_⟩
    cases room <;> simpa using h.once
  | rests => exact h

/-- The cap's coroutine is over, and its event was not taken. -/
structure Lost (c : CapView) : Prop where
  started : c.started = true
  ended : c.hardJob = none
  silent : ∀ t, .queued t .hardCap ∉ c.said

theorem Lost.step (h : Lost c) (hstep : CapStep params room c action c') : Lost c' := by
  cases hstep with
  | elapses duration => exact ⟨h.started, h.ended, h.silent⟩
  | starts hnew => simp [h.started] at hnew
  | cancels _ => exact ⟨h.started, rfl, by simpa using h.silent⟩
  | fires hjob _ => simp [h.ended] at hjob
  | rests => exact h

/-- The cap in a run whose timers fire on time. -/
structure Punctual (params : SessionParams) (c : CapView) : Prop where
  clock : ∀ deadline ∈ c.hardJob, c.clock ≤ deadline
  origin : ∀ deadline ∈ c.hardJob,
    ∃ t, .started t ∈ c.said ∧ deadline = t + wholeMillis params.hardCap
  queued : ∀ t, .queued t .hardCap ∈ c.said →
    ∃ t', .started t' ∈ c.said ∧ t = t' + wholeMillis params.hardCap

theorem Punctual.step (h : Punctual params c)
    (hontime : ∀ n, action = .elapse n → ∀ deadline ∈ c.hardJob, c.clock + n ≤ deadline)
    (hstep : CapStep params room c action c') : Punctual params c' := by
  cases hstep with
  | elapses duration => exact ⟨hontime duration rfl, h.origin, h.queued⟩
  | starts hnew =>
    refine ⟨?_, ?_, fun t ht => ?_⟩
    · rintro _ ⟨⟩
      exact Nat.le_add_right _ _
    · rintro _ ⟨⟩
      exact ⟨c.clock, by simp, rfl⟩
    · simp only [List.mem_append, List.mem_singleton, reduceCtorEq, or_false] at ht
      obtain ⟨t', ht', heq⟩ := h.queued t ht
      exact ⟨t', List.mem_append_left _ ht', heq⟩
  | cancels _ => exact ⟨by simp, by simp, by simpa using h.queued⟩
  | @fires deadline hjob hdue =>
    refine ⟨by simp, by simp, fun t ht => ?_⟩
    have hnow : c.clock = deadline := Nat.le_antisymm (h.clock deadline hjob) hdue
    rcases List.mem_append.mp ht with ht | ht
    · obtain ⟨t', ht', heq⟩ := h.queued t ht
      exact ⟨t', List.mem_append_left _ ht', heq⟩
    · cases room with
      | false => cases ht
      | true =>
        obtain ⟨t', ht', heq⟩ := h.origin deadline hjob
        refine ⟨t', List.mem_append_left _ ht', ?_⟩
        simp only [if_true, List.mem_singleton, Obs.queued.injEq] at ht
        omega
  | rests => exact h

/-- A cap that was started is cancelled in time, still pending, or queued. -/
def Fate (params : SessionParams) (c : CapView) : Prop :=
  ∀ t, .started t ∈ c.said →
    (∃ t' ≤ t + wholeMillis params.hardCap, .cancelled t' ∈ c.said) ∨
    c.hardJob = some (t + wholeMillis params.hardCap) ∨
    .queued (t + wholeMillis params.hardCap) .hardCap ∈ c.said

theorem Fate.step (h : Fate params c) (htold : Told c) (hpunctual : Punctual params c)
    (hroom : action = .fireHard → ∀ deadline ∈ c.hardJob, deadline ≤ c.clock → room = true)
    (hstep : CapStep params room c action c') : Fate params c' := by
  cases hstep with
  | elapses duration => exact h
  | starts hnew =>
    intro t ht
    rcases List.mem_append.mp ht with ht | ht
    · exact absurd ht (htold.idle hnew t).2
    · simp only [List.mem_singleton, Obs.started.injEq] at ht
      subst ht
      exact .inr (.inl rfl)
  | cancels _ =>
    intro t ht
    have hold : .started t ∈ c.said := by simpa using ht
    rcases h t hold with ⟨t', hle, ht'⟩ | hjob | hqueued
    · exact .inl ⟨t', hle, List.mem_append_left _ ht'⟩
    · exact .inl ⟨c.clock, hpunctual.clock _ hjob, by simp⟩
    · exact .inr (.inr (List.mem_append_left _ hqueued))
  | @fires deadline hjob hdue =>
    cases hroom rfl deadline hjob hdue
    intro t ht
    have hold : .started t ∈ c.said := by simpa using ht
    rcases h t hold with ⟨t', hle, ht'⟩ | hjob' | hqueued
    · exact .inl ⟨t', hle, List.mem_append_left _ ht'⟩
    · have heq : t + wholeMillis params.hardCap = c.clock := by
        cases hjob.symm.trans hjob'
        exact Nat.le_antisymm hdue (hpunctual.clock _ hjob)
      exact .inr (.inr (by simp [heq]))
    · exact .inr (.inr (List.mem_append_left _ hqueued))
  | rests => exact h

end CapView

section Cap

variable {params : SessionParams} {s : SessionTimers} {actions : List Action} {t : Nat}

theorem mem_capView_said {o : Obs} (h : capRelated o = true) :
    o ∈ s.capView.said ↔ o ∈ s.trace := by
  simp [capView, h]

/-- If the event of the cap was ever taken, its channel had room. -/
theorem along_capFindsRoom (htold : s.capView.Told)
    (hqueued : .queued t .hardCap ∈ (actions.foldl (act params) s).capView.said) :
    Along (act params) CapFindsRoom s actions := by
  induction actions generalizing s with
  | nil => trivial
  | cons action actions ih =>
    have hstep := act_capStep params s action
    refine ⟨?_, ih (htold.step hstep) hqueued⟩
    by_contra hfull
    -- otherwise the event is lost here, and it stays so
    have hlost : (act params s action).capView.Lost := by
      cases action with
      | fireHard =>
        obtain ⟨hdue, hroom⟩ := Classical.not_imp.mp hfull
        obtain ⟨deadline, hjob, -⟩ := capDue_iff.mp hdue
        obtain ⟨hstarted, hsilent⟩ := htold.pending (by simp [capView, hjob])
        have hview : (act params s .fireHard).capView = { s.capView with hardJob := none } := by
          rw [act, fireHard, if_pos hdue, capView_trySend, if_neg (fun h => hroom h.1),
            List.append_nil]
          rfl
        rw [hview]
        exact ⟨hstarted, rfl, hsilent⟩
      | _ => exact absurd trivial hfull
    have hend : (actions.foldl (act params) (act params s action)).capView.Lost :=
      List.foldlRecOn (motive := fun s : SessionTimers => s.capView.Lost) actions _ hlost
        fun s' h a _ => h.step (act_capStep params s' a)
    exact hend.silent t hqueued

/-- The timers fire on time, the session starts at `t`, and it is past its cap without having been
cancelled. -/
structure PastCap (params : SessionParams) (actions : List Action) (t : Nat) : Prop where
  onTime : Along (act params) OnTime new actions
  started : .started t ∈ (run params actions).trace
  past : t + params.hardCap < (run params actions).clock
  uncancelled : ∀ t', .cancelled t' ∈ (run params actions).trace → t + params.hardCap < t'

theorem wholeMillis_le (n : Nat) : wholeMillis n ≤ n := Nat.div_mul_le_self n _

theorem wholeMillis_eq_iff {n : Nat} : wholeMillis n = n ↔ 1000000 ∣ n :=
  ⟨fun h => ⟨n / 1000000, by unfold wholeMillis at h; omega⟩, Nat.div_mul_cancel⟩

/-- **When the cap is queued.** -/
theorem cap_queued_iff (h : PastCap params actions t) :
    .queued (t + params.hardCap) .hardCap ∈ (run params actions).trace ↔
      1000000 ∣ params.hardCap ∧ Along (act params) CapFindsRoom new actions := by
  have hnew : (new.capView).Told ∧ (new.capView).Punctual params :=
    ⟨⟨by simp [new, capView], by simp [new, capView], by simp [new, capView]⟩,
      ⟨by simp [new, capView], by simp [new, capView], by simp [new, capView]⟩⟩
  have hontime : ∀ {s a}, OnTime s a → ∀ n, a = .elapse n → ∀ deadline ∈ s.capView.hardJob,
      s.capView.clock + n ≤ deadline := by
    rintro s _ hon n rfl
    exact hon.1
  obtain ⟨htold, hpunctual⟩ : (run params actions).capView.Told ∧
      (run params actions).capView.Punctual params :=
    h.onTime.invariant (fun s => s.capView.Told ∧ s.capView.Punctual params) hnew
      fun s a hs hon => ⟨hs.1.step (act_capStep params s a),
        hs.2.step (hontime hon) (act_capStep params s a)⟩
  have hstarted := (mem_capView_said (by rfl)).mpr h.started
  constructor
  · intro hqueued
    replace hqueued := (mem_capView_said (by simp [capRelated])).mpr hqueued
    obtain ⟨t', ht', heq⟩ := hpunctual.queued _ hqueued
    have hsame := htold.once t' t ht' hstarted
    exact ⟨wholeMillis_eq_iff.mp (by omega), along_capFindsRoom hnew.1 hqueued⟩
  · rintro ⟨hwhole, hroom⟩
    have hfate : (run params actions).capView.Told ∧
        (run params actions).capView.Punctual params ∧
        (run params actions).capView.Fate params := by
      refine (h.onTime.and hroom).invariant (fun s => s.capView.Told ∧
        s.capView.Punctual params ∧ s.capView.Fate params)
        ⟨hnew.1, hnew.2, by simp [CapView.Fate, new, capView]⟩ ?_
      rintro s a ⟨hs, hs', hs''⟩ ⟨hon, hfinds⟩
      have hstep := act_capStep params s a
      refine ⟨hs.step hstep, hs'.step (hontime hon) hstep, hs''.step hs hs' ?_ hstep⟩
      rintro rfl deadline hjob hdue
      exact hfinds (capDue_iff.mpr ⟨deadline, hjob, hdue⟩)
    rcases hfate.2.2 t hstarted with ⟨t', hle, ht'⟩ | hjob | hqueued
    · have hcancelled := h.uncancelled t' ((mem_capView_said (by rfl)).mp ht')
      have := wholeMillis_le params.hardCap
      omega
    · have hclock : (run params actions).clock ≤ _ := hpunctual.clock _ hjob
      have := h.past
      have := wholeMillis_le params.hardCap
      omega
    · rw [wholeMillis_eq_iff.mpr hwhole] at hqueued
      exact (mem_capView_said (by simp [capRelated])).mp hqueued

end Cap

end SessionTimers

end Conveyance.Phone
