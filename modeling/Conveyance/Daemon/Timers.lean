import Conveyance.Daemon.Refinement

/-!
# The owner among its timer tasks

A session start spawns two tasks: the session's watchdog (conveyance-core,
session/timers.rs), and a pump that forwards what the watchdog reports into the
owner's command queue, where it stands in line with the clients' commands.
Neither task ends with the session: `stop_timers` asks for the watchdog's
abortion, which takes effect when the runtime gets to it, and the pump runs until
its channel is drained.

`System` is the owner with its command queue and the tasks of all sessions so
far; a run is a list of actions, in any order, where an action that is not
possible changes nothing. Time plays no part: a watchdog may report whenever its
state lets it. A queued command carries the session whose watchdog caused it;
`SessionCmd::Timer` has no such field, and the owner does not see it.
-/

namespace Conveyance.Daemon

open Lib Conveyance.Core

/-! ## Tasks -/

/-- Capacity of a pump's channel. -/
def timerChannelCap : Nat := 8

/-- Capacity of the owner's command queue. -/
def commandQueueCap : Nat := 32

inductive Watchdog where
  /-- Asleep until the next deadline. -/
  | waiting (warned : Bool)
  /-- A deadline has passed, and the report waits for room in the channel. -/
  | reporting (event : TimerEvent)
  | stopped
deriving DecidableEq

namespace Watchdog

/-- A deadline passes: the hard cap, or the idle milestone that comes next. -/
def due : Watchdog → TimerEvent → Watchdog
  | .waiting _, .hardCapReached => .reporting .hardCapReached
  | .waiting false, .warningDue => .reporting .warningDue
  | .waiting true, .idleExpired => .reporting .idleExpired
  | watchdog, _ => watchdog

/-- After a report: only a warning is followed by another one. -/
def reported : TimerEvent → Watchdog
  | .warningDue => .waiting true
  | .idleExpired => .stopped
  | .hardCapReached => .stopped

/-- Activity restores a full idle window. -/
def reset : Watchdog → Watchdog
  | .waiting _ => .waiting false
  | watchdog => watchdog

end Watchdog

/-- The watchdog and the pump of one session. -/
structure Tasks where
  sid : Nat
  watchdog : Watchdog
  channel : List TimerEvent
  /-- Taken out of the channel by the pump, and not in the command queue yet. -/
  held : Option TimerEvent
deriving DecidableEq

inductive TaskStep where
  | due (event : TimerEvent)
  | report
  | reset
  | stop
  /-- `event_rx.recv()` in the pump. -/
  | recv
  /-- The pump's `send` went through. -/
  | sent

namespace Tasks

/-- `start_timers` and the pump next to it. -/
def armed (sid : Nat) : Tasks := ⟨sid, .waiting false, [], none⟩

def step (T : Tasks) : TaskStep → Tasks
  | .due event => { T with watchdog := T.watchdog.due event }
  | .report =>
    match T.watchdog with
    | .reporting event =>
      if T.channel.length < timerChannelCap then
        { T with watchdog := .reported event, channel := T.channel ++ [event] }
      else T
    | _ => T
  | .reset => { T with watchdog := T.watchdog.reset }
  | .stop => { T with watchdog := .stopped }
  | .recv =>
    match T.held, T.channel with
    | none, event :: rest => { T with channel := rest, held := some event }
    | _, _ => T
  | .sent => { T with held := none }

/-- Nothing more will come of these tasks. -/
structure Spent (T : Tasks) : Prop where
  watchdog : T.watchdog = .stopped
  channel : T.channel = []
  held : T.held = none

instance (T : Tasks) : Decidable T.Spent :=
  decidable_of_iff (T.watchdog = .stopped ∧ T.channel = [] ∧ T.held = none)
    ⟨fun ⟨h, h', h''⟩ => ⟨h, h', h''⟩, fun h => ⟨h.watchdog, h.channel, h.held⟩⟩

@[simp] theorem step_sid (T : Tasks) (step : TaskStep) : (T.step step).sid = T.sid := by
  cases step with
  | due event => rfl
  | report =>
    rw [Tasks.step]
    split
    · split_ifs <;> rfl
    · rfl
  | reset | stop => rfl
  | recv =>
    rw [Tasks.step]
    split <;> rfl
  | sent => rfl

theorem Spent.step {T : Tasks} (h : T.Spent) (step : TaskStep) : (T.step step).Spent := by
  obtain ⟨sid, watchdog, channel, held⟩ := T
  obtain ⟨rfl, rfl, rfl⟩ := h
  cases step <;> exact ⟨rfl, rfl, rfl⟩

end Tasks

/-! ## The system -/

/-- A `SessionHandle` sends everything but timer events. -/
def Cmd.fromClient : Cmd → Bool
  | .timer _ => false
  | _ => true

/-- The session whose watchdog caused the command, if one did. -/
structure Queued where
  cmd : Cmd
  armedBy : Option Nat

structure System where
  owner : Owner
  commands : List Queued
  tasks : List Tasks

inductive Action where
  /-- A client of the daemon puts a command in the queue. -/
  | submit (cmd : Cmd)
  /-- The watchdog or the pump of a session does something. -/
  | task (sid : Nat) (step : TaskStep)
  /-- The pump of a session puts what it holds in the queue. -/
  | forward (sid : Nat)
  /-- The owner takes a command. -/
  | take
  | chunk (chunk : Except TransportError Bytes)
  | deadline

/-- Whether `begin_session` gets as far as the timers: all but its last check,
the parsing of the identity key. -/
def armsTimers (env : Env) (n : Nat) : Bool :=
  match env.pairings n with
  | .error _ => false
  | .ok pairings =>
    match pairings.getLast? with
    | none => false
    | some peer =>
      match env.dial n with
      | .error _ => false
      | .ok _ =>
        match env.handshake n peer.dhPub with
        | .error _ => false
        | .ok _ => true

namespace System

section Actions

variable (env : Env)

def init : System := ⟨.init, [], []⟩

/-- The next command is a Start that arms timers. -/
def begins (S : System) : Bool :=
  match S.commands, S.owner.slot with
  | ⟨.start, _⟩ :: _, none => armsTimers env S.owner.world.starts
  | _, _ => false

/-- The session is in the slot and has not ended. -/
def runs (S : System) (sid : Nat) : Bool :=
  S.owner.slot.any fun p => p.session.sid = sid && p.session.isLive

/-- A step of a session's tasks. -/
def onTasks (S : System) (sid : Nat) (step : TaskStep) : System :=
  { S with tasks := S.tasks.map fun T => if T.sid = sid then T.step step else T }

/-- What the pump of a session holds. -/
def held (S : System) (sid : Nat) : Option TimerEvent :=
  (S.tasks.find? (·.sid = sid)).bind (·.held)

/-- One action; one that is not possible changes nothing. -/
def act (S : System) : Action → System
  | .submit cmd =>
    if cmd.fromClient ∧ S.commands.length < commandQueueCap then
      { S with commands := S.commands ++ [⟨cmd, none⟩] }
    else S
  -- the session's end asks for it; a closed channel is a dropped session
  | .task sid .stop => if S.runs sid then S else S.onTasks sid .stop
  | .task _ .sent => S
  | .task sid step => S.onTasks sid step
  | .forward sid =>
    match S.held sid with
    | none => S
    | some event =>
      if S.commands.length < commandQueueCap then
        { S.onTasks sid .sent with commands := S.commands ++ [⟨.timer event, some sid⟩] }
      else S
  | .take =>
    match S.commands with
    | [] => S
    | q :: rest =>
      { owner := S.owner.step env (.command q.cmd)
        commands := rest
        tasks := if S.begins env then S.tasks ++ [.armed S.owner.world.starts] else S.tasks }
  | .chunk chunk => { S with owner := S.owner.step env (.chunk chunk) }
  | .deadline => { S with owner := S.owner.step env .deadline }

def run (S : System) (actions : List Action) : System := actions.foldl (act env) S

end Actions

end System

/-! ## Who is in the slot -/

section Slot

variable {env : Env}

/-- Only a turn that begins a session changes which session is in the slot. -/
theorem Move.sid_kept {t : Turn} {σ σ' : Desk} {s' : Seat} (hmove : Move env t σ σ')
    (ht : ¬ t.Begins) (hs' : σ'.session = some s') : ∃ s, σ.session = some s ∧ s.sid = s'.sid := by
  cases hmove with
  | begun key _ hbegins => exact absurd hbegins ht
  | openDead _ hs | refused hs | promote hs => exact ⟨_, hs, by cases hs'; rfl⟩
  | promoteDead | teardown => cases hs'
  | _ => exact ⟨s', hs', rfl⟩

theorem step_sid_kept {o : Owner} {event : Event} {p' : ActiveParts}
    (hturns : ∀ t ∈ eventTurns env o event, ¬ t.Begins) (hp' : (o.step env event).slot = some p') :
    ∃ p, o.slot = some p ∧ p.session.sid = p'.session.sid := by
  have hreach := (step_path env o event).reaches hturns
  have hkept : ∀ s', (o.step env event).desk.session = some s' →
      ∃ s, o.desk.session = some s ∧ s.sid = s'.sid := by
    refine hreach.invariant (fun σ => ∀ s', σ.session = some s' →
      ∃ s, o.desk.session = some s ∧ s.sid = s'.sid) (fun s' hs' => ⟨s', hs', rfl⟩) ?_
    intro t σ σ' ht hσ hmove s' hs'
    obtain ⟨s, hs, hsid⟩ := hmove.sid_kept ht hs'
    obtain ⟨s₀, hs₀, hsid₀⟩ := hσ s hs
    exact ⟨s₀, hs₀, hsid₀.trans hsid⟩
  obtain ⟨s, hs, hsid⟩ := hkept p'.seat (by simp [Owner.desk, desk, hp'])
  obtain ⟨p, hp, rfl⟩ := Option.map_eq_some_iff.mp hs
  exact ⟨p, hp, hsid⟩

theorem messageTurns_begin_nothing (w : World) (p : ActiveParts) (messages : List Bytes) :
    ∀ t ∈ messageTurns env w p messages, ¬ t.Begins := by
  induction messages generalizing w p with
  | nil => exact List.forall_mem_nil _
  | cons message messages ih =>
    rw [messageTurns]
    split
    · exact List.forall_mem_singleton.mpr id
    · refine List.forall_mem_cons.mpr ⟨id, ?_⟩
      split
      · exact List.forall_mem_nil _
      · exact ih _ _

theorem chunk_begins_nothing (o : Owner) (chunk : Except TransportError Bytes) :
    ∀ t ∈ eventTurns env o (.chunk chunk), ¬ t.Begins := by
  rw [eventTurns]
  split
  · exact List.forall_mem_nil _
  · unfold chunkTurns
    split
    · exact List.forall_mem_singleton.mpr id
    · split
      · exact List.forall_mem_singleton.mpr id
      · exact messageTurns_begin_nothing _ _ _

theorem deadline_begins_nothing (o : Owner) : ∀ t ∈ eventTurns env o .deadline, ¬ t.Begins := by
  rw [eventTurns]
  split
  · exact List.forall_mem_nil _
  · split
    · exact List.forall_mem_nil _
    · split_ifs
      · exact List.forall_mem_nil _
      · exact List.forall_mem_singleton.mpr id

/-- A session that was begun armed its timers, and is named by its start. -/
theorem beginSession_arms {w w' : World} {p : ActiveParts} (h : beginSession env w = (w', .ok p)) :
    armsTimers env w.starts = true ∧ p.session.sid = w.starts := by
  unfold beginSession at h
  dsimp only at h
  split at h
  next e hlist => cases h
  next pairings hlist =>
    split at h
    next hlast => cases h
    next peer hlast =>
      split at h
      next hdial => cases h
      next e hdial => cases h
      next link hdial =>
        split at h
        next e hshake => cases h
        next txSeq inbound hshake =>
          split_ifs at h with hkey
          · cases h
            exact ⟨by simp only [armsTimers, hlist, hlast, hdial, hshake], rfl⟩
          · cases h

/-- What a Start with an empty slot leaves there. -/
theorem start_slot {o : Owner} {p' : ActiveParts} (hslot : o.slot = none)
    (hp' : (o.step env (.command .start)).slot = some p') :
    armsTimers env o.world.starts = true ∧ p'.session.sid = o.world.starts := by
  obtain ⟨w, slot⟩ := o
  cases hslot
  simp only [Owner.step, onCommand] at hp'
  generalize hbegin : beginSession env { w with taken := w.taken + 1 } = r at hp'
  obtain ⟨w', result⟩ := r
  cases result with
  | error e => cases hp'
  | ok p =>
    cases hp'
    have harms := beginSession_arms hbegin
    exact harms

end Slot

namespace System

section Runs

variable {env : Env} {S : System}

/-- The owner among the tasks is the owner on its own, on some events. -/
theorem act_owner (env : Env) (S : System) (a : Action) :
    ∃ events, (S.act env a).owner = S.owner.run env events := by
  cases a with
  | submit cmd =>
    refine ⟨[], ?_⟩
    rw [act]
    split_ifs <;> rfl
  | task sid step =>
    refine ⟨[], ?_⟩
    cases step with
    | stop =>
      rw [act]
      split_ifs <;> rfl
    | _ => rfl
  | forward sid =>
    refine ⟨[], ?_⟩
    rw [act]
    split
    · rfl
    · split_ifs <;> rfl
  | take =>
    rw [act]
    split
    · exact ⟨[], rfl⟩
    · next q rest _ => exact ⟨[.command q.cmd], rfl⟩
  | chunk chunk => exact ⟨[.chunk chunk], rfl⟩
  | deadline => exact ⟨[.deadline], rfl⟩

theorem run_owner (env : Env) (S : System) (actions : List Action) :
    ∃ events, (S.run env actions).owner = S.owner.run env events := by
  induction actions generalizing S with
  | nil => exact ⟨[], rfl⟩
  | cons a actions ih =>
    obtain ⟨first, hfirst⟩ := act_owner env S a
    obtain ⟨rest, hrest⟩ := ih (S.act env a)
    refine ⟨first ++ rest, ?_⟩
    rw [run_append, ← hfirst]
    exact hrest

/-! ## The contract -/

/-- No timer event is on its way, and no watchdog has one left to report. -/
structure Quiet (S : System) : Prop where
  tasks : ∀ T ∈ S.tasks, T.Spent
  commands : ∀ q ∈ S.commands, q.armedBy = none

instance (S : System) : Decidable S.Quiet :=
  decidable_of_iff ((∀ T ∈ S.tasks, T.Spent) ∧ ∀ q ∈ S.commands, q.armedBy = none)
    ⟨fun ⟨h, h'⟩ => ⟨h, h'⟩, fun h => ⟨h.tasks, h.commands⟩⟩

/-- A session that arms timers is begun only when all earlier ones are quiet. -/
def BeginsQuietly (env : Env) (S : System) : Action → Prop
  | .take => S.begins env = true → S.Quiet
  | _ => True

instance (S : System) : ∀ a, Decidable (S.BeginsQuietly env a)
  | .take => inferInstanceAs (Decidable (S.begins env = true → S.Quiet))
  | .submit _ | .task _ _ | .forward _ | .chunk _ | .deadline => .isTrue trivial

/-- A timer event that meets another session than the one that armed it leaves
that session as it is, and nothing is done. -/
def OthersUntouched (env : Env) (S : System) : Action → Prop
  | .take => ∀ event sid rest p, S.commands = ⟨.timer event, some sid⟩ :: rest →
      S.owner.slot = some p → p.session.sid ≠ sid →
      (S.act env .take).owner.slot = some p ∧
        (S.act env .take).owner.world.trace = S.owner.world.trace ∧
        (S.act env .take).owner.world.active = S.owner.world.active
  | _ => True

/-! ## One session's events -/

/-- Whatever timer event is still to come was armed by session `n`, and no other
session is in the slot. -/
structure OnlyFrom (n : Nat) (S : System) : Prop where
  tasks : ∀ T ∈ S.tasks, T.sid ≠ n → T.Spent
  commands : ∀ q ∈ S.commands, ∀ sid, q.armedBy = some sid → sid = n
  slot : ∀ p, S.owner.slot = some p → p.session.sid = n

variable {n : Nat} {q : Queued} {rest : List Queued}

theorem OnlyFrom.onTasks (h : OnlyFrom n S) (sid : Nat) (step : TaskStep) :
    OnlyFrom n (S.onTasks sid step) := by
  refine ⟨fun T' hT' hne => ?_, h.commands, h.slot⟩
  obtain ⟨T, hT, rfl⟩ := List.mem_map.mp hT'
  split_ifs at hne ⊢ with hsid
  · rw [Tasks.step_sid] at hne
    exact (h.tasks T hT hne).step step
  · exact h.tasks T hT hne

/-- What a session's pump holds keeps its tasks from being spent. -/
theorem OnlyFrom.held {sid : Nat} {event : TimerEvent} (h : OnlyFrom n S)
    (hheld : S.held sid = some event) : sid = n := by
  obtain ⟨T, hfind, hT⟩ := Option.bind_eq_some_iff.mp hheld
  have hsid : T.sid = sid := by simpa using List.find?_some hfind
  by_contra hne
  have hspent := h.tasks T (List.mem_of_find?_eq_some hfind) (hsid.trans_ne hne)
  rw [hspent.held] at hT
  cases hT

theorem OnlyFrom.push (h : OnlyFrom n S) (hq : ∀ sid, q.armedBy = some sid → sid = n) :
    OnlyFrom n { S with commands := S.commands ++ [q] } := by
  refine ⟨h.tasks, fun q' hq' => ?_, h.slot⟩
  rcases List.mem_append.mp hq' with hq' | hq'
  · exact h.commands q' hq'
  · rw [List.mem_singleton.mp hq']
    exact hq

/-- An event that begins no session. -/
theorem OnlyFrom.step (h : OnlyFrom n S) {event : Event}
    (hturns : ∀ t ∈ eventTurns env S.owner event, ¬ t.Begins) :
    ∀ p, (S.owner.step env event).slot = some p → p.session.sid = n := by
  intro p hp
  obtain ⟨p₀, hp₀, hsid⟩ := step_sid_kept hturns hp
  exact hsid ▸ h.slot p₀ hp₀

/-- A Start that arms timers, with nothing of an earlier session on its way. -/
theorem Quiet.begin (h : S.Quiet) (hbegins : S.begins env = true)
    (hcommands : S.commands = q :: rest) : OnlyFrom S.owner.world.starts (S.act env .take) := by
  have hstart : q.cmd = .start ∧ S.owner.slot = none := by
    obtain ⟨cmd, armedBy⟩ := q
    unfold begins at hbegins
    rw [hcommands] at hbegins
    split at hbegins
    next heq hslot =>
      cases heq
      exact ⟨rfl, hslot⟩
    next => cases hbegins
  rw [act, hcommands]
  constructor
  · intro T hT hne
    rw [if_pos hbegins] at hT
    rcases List.mem_append.mp hT with hT | hT
    · exact h.tasks T hT
    · rw [List.mem_singleton.mp hT] at hne
      exact absurd rfl hne
  · intro q' hq' sid hsid
    have hnone := h.commands q' (hcommands ▸ List.mem_cons_of_mem q hq')
    rw [hnone] at hsid
    cases hsid
  · intro p hp
    dsimp only at hp
    rw [hstart.1] at hp
    exact (start_slot hstart.2 hp).2

/-- Any other command. -/
theorem OnlyFrom.take (h : OnlyFrom n S) (hbegins : S.begins env ≠ true)
    (hcommands : S.commands = q :: rest) : OnlyFrom n (S.act env .take) := by
  rw [act, hcommands]
  constructor
  · rw [if_neg hbegins]
    exact h.tasks
  · exact fun q' hq' => h.commands q' (hcommands ▸ List.mem_cons_of_mem q hq')
  · intro p hp
    by_cases hstart : q.cmd = .start ∧ S.owner.slot = none
    · -- a Start that did not arm timers left the slot empty
      dsimp only at hp
      rw [hstart.1] at hp
      obtain ⟨cmd, armedBy⟩ := q
      obtain ⟨hcmd, hslot⟩ := hstart
      cases hcmd
      refine absurd ?_ hbegins
      rw [begins, hcommands, hslot]
      exact (start_slot hslot hp).1
    · refine h.step (fun t ht hbegin => hstart ?_) p hp
      rw [List.mem_singleton.mp ht] at hbegin
      generalize q.cmd = cmd at hbegin ⊢
      generalize S.owner.slot = slot at hbegin ⊢
      cases cmd <;> cases slot <;> first
        | exact ⟨rfl, rfl⟩
        | cases hbegin

theorem OnlyFrom.act (h : OnlyFrom n S) {a : Action} (ha : S.BeginsQuietly env a) :
    ∃ n', OnlyFrom n' (S.act env a) := by
  cases a with
  | submit cmd =>
    refine ⟨n, ?_⟩
    rw [System.act]
    split_ifs
    · exact h.push nofun
    · exact h
  | task sid step =>
    refine ⟨n, ?_⟩
    cases step with
    | stop =>
      rw [System.act]
      split_ifs
      · exact h
      · exact h.onTasks sid .stop
    | sent => exact h
    | _ => exact h.onTasks sid _
  | forward sid =>
    refine ⟨n, ?_⟩
    rw [System.act]
    split
    · exact h
    · next event hheld =>
      split_ifs
      · refine (h.onTasks sid .sent).push fun sid' hsid' => ?_
        cases hsid'
        exact h.held hheld
      · exact h
  | take =>
    cases hcommands : S.commands with
    | nil =>
      refine ⟨n, ?_⟩
      rw [System.act, hcommands]
      exact h
    | cons q rest =>
      by_cases hbegins : S.begins env = true
      · exact ⟨_, (ha hbegins).begin hbegins hcommands⟩
      · exact ⟨n, h.take hbegins hcommands⟩
  | chunk chunk => exact ⟨n, h.tasks, h.commands, h.step (chunk_begins_nothing S.owner chunk)⟩
  | deadline => exact ⟨n, h.tasks, h.commands, h.step (deadline_begins_nothing S.owner)⟩

end Runs

end System

/-- Between sessions that begin quietly, every timer event finds the session that
armed it, or none. -/
theorem timer_events_stay_with_their_session (env : Env) (actions : List Action)
    (h : Along (System.act env) (System.BeginsQuietly env) .init actions) :
    Along (System.act env) (System.OthersUntouched env) .init actions := by
  refine h.transfer (fun S => ∃ n, System.OnlyFrom n S) ⟨0, ?_⟩ ?_ ?_
  · exact ⟨List.forall_mem_nil _, List.forall_mem_nil _, fun p hp => nomatch hp⟩
  · rintro S a ⟨n, hn⟩ ha
    exact hn.act ha
  · rintro S a ⟨n, hn⟩ -
    cases a with
    | take =>
      intro event sid rest p hcommands hslot hne
      have hsid := hn.commands ⟨.timer event, some sid⟩ (by simp [hcommands]) sid rfl
      exact absurd ((hn.slot p hslot).trans hsid.symm) hne
    | _ => trivial

/-- A warned session ends, its tasks run dry, and the next session reaches its
hard cap. -/
def quietHandover : List Action :=
  [.submit .start, .take, .task 0 (.due .warningDue), .task 0 .report, .task 0 .recv, .forward 0,
    .take, .submit (.endSession .userEnded), .take, .task 0 .stop, .submit .start, .take,
    .task 1 (.due .hardCapReached), .task 1 .report, .task 1 .recv, .forward 1, .take]

/-- The session in the slot, and whether it was warned. -/
def System.seated (S : System) : Option (Nat × Bool) :=
  S.owner.slot.map fun p => (p.session.sid, p.session.warned)

theorem warned_then_capped :
    Along (System.act Bench.threeRequests) (System.BeginsQuietly Bench.threeRequests) .init
      quietHandover ∧
    (System.init.run Bench.threeRequests (quietHandover.take 7)).seated = some (0, true) ∧
    (System.init.run Bench.threeRequests (quietHandover.take 12)).seated = some (1, false) ∧
    (System.init.run Bench.threeRequests quietHandover).seated = none ∧
    Along (System.act Bench.threeRequests) (System.OthersUntouched Bench.threeRequests) .init
      quietHandover := by
  have hquiet : Along (System.act Bench.threeRequests) (System.BeginsQuietly Bench.threeRequests)
      .init quietHandover := by decide +kernel
  exact ⟨hquiet, by decide +kernel, by decide +kernel, by decide +kernel,
    timer_events_stay_with_their_session _ _ hquiet⟩

/-- The hard cap of a session, forwarded behind its end and the next start. -/
def lateHardCap : List Action :=
  [.submit .start, .take, .task 0 (.due .hardCapReached), .task 0 .report,
    .submit (.endSession .userEnded), .submit .start, .task 0 .recv, .forward 0, .take, .take]

/-- The event ends the second session. -/
theorem late_hard_cap_ends_next_session :
    (System.init.run Bench.threeRequests lateHardCap).seated = some (1, false) ∧
    (System.init.run Bench.threeRequests (lateHardCap ++ [.take])).seated = none ∧
    ¬ Along (System.act Bench.threeRequests) (System.OthersUntouched Bench.threeRequests) .init
      (lateHardCap ++ [.take]) := by
  have hbefore : (System.init.run Bench.threeRequests lateHardCap).seated = some (1, false) := by
    decide +kernel
  have hafter : (System.init.run Bench.threeRequests (lateHardCap ++ [.take])).seated = none := by
    decide +kernel
  refine ⟨hbefore, hafter, fun h => ?_⟩
  obtain ⟨-, -, -, -, -, -, -, -, -, -, hlast, -⟩ := h
  obtain ⟨p, hp, hsid⟩ := Option.map_eq_some_iff.mp hbefore
  have hkept := (hlast .hardCapReached 0 [] p rfl hp (by simp [(Prod.mk.inj hsid).1])).1
  have hnone := Option.map_eq_none_iff.mp hafter
  cases hkept.symm.trans hnone

end Conveyance.Daemon
