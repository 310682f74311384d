import Conveyance.Daemon.Refinement
import Mathlib.Data.List.Chain

/-!
# Sessions start and end in turn

The `session_start` and `session_end` rows of a log that takes every row
alternate, and a Start is answered Ok only by a live session, as long as

- every opening message (an ApprovalRequest or a ListServicesRequest) is taken
  by the link in full, and
- the identity key of the newest pairing parses.

Both are needed. `start_route` tears the session down when its opening is not
taken and leaves the dead session in the slot: the next Start is answered Ok by
it, and whatever ends it again logs a second `session_end`. And `begin_session`
logs `session_start` before it parses the key, so that a malformed key leaves a
start with no end.
-/

namespace Conveyance.Daemon

open Lib Crypto Conveyance.Core Protocol

/-! ## Alternation -/

/-- Starts (`true`) and ends in turn, from a start on; `active` when the last
start has not ended. -/
structure Alternation (marks : List Bool) (active : Bool) : Prop where
  chain : marks.IsChain (· ≠ ·)
  head : marks.head? ≠ some false
  last : marks.getLast?.getD false = active
  balance : marks.count true = marks.count false + active.toNat

theorem Alternation.empty : Alternation [] false := ⟨.nil, nofun, rfl, rfl⟩

/-- A start where nothing is active, or an end where something is. -/
theorem Alternation.next {marks : List Bool} {active : Bool} (h : Alternation marks active) :
    Alternation (marks ++ [!active]) (!active) where
  chain := by
    refine List.isChain_append.mpr ⟨h.chain, .singleton _, ?_⟩
    intro x hx y hy hxy
    have hlast := h.last
    rw [Option.mem_def.mp hx, Option.getD_some] at hlast
    cases hy
    simp [hlast] at hxy
  head := by
    cases marks with
    | nil => simpa using h.last.symm
    | cons m ms => simpa using h.head
  last := by simp
  balance := by
    have hbalance := h.balance
    cases active with
    | false | true => simpa using hbalance

/-! ## Reading the trace -/

/-- `true` for a `session_start` row, `false` for a `session_end` row. -/
def Obs.mark : Obs → Option Bool
  | .row event =>
    if event.eventType = "session_start" then some true
    else if event.eventType = "session_end" then some false
    else none
  | _ => none

def marks (trace : List Obs) : List Bool := trace.filterMap Obs.mark

/-- Every Start was answered Ok by a live session. -/
def StartedLive (trace : List Obs) : Prop :=
  ∀ ch live, .startReply ch (.ok ()) live ∈ trace → live = true

/-- An opening message that the link did not take in full. -/
def Obs.dropsOpening : Obs → Bool
  | .wire (some _) _ message complete => opensConversation message && !complete
  | _ => false

def OpeningsTaken (trace : List Obs) : Prop := ∀ o ∈ trace, o.dropsOpening = false

/-- The identity key of the newest pairing parses, whenever a session starts. -/
def KeysParse (env : Env) : Prop :=
  ∀ n pairings peer, env.pairings n = .ok pairings → pairings.getLast? = some peer →
    env.parsesKey peer.idPub = true

/-- Entries that are neither a row of a session nor an answer to a Start. -/
def Uneventful (o : Obs) : Prop := o.mark = none ∧ ∀ ch live, o ≠ .startReply ch (.ok ()) live

/-- A Start is answered Ok. -/
def Obs.confirmsStart : Obs → Bool
  | .startReply _ (.ok _) _ => true
  | _ => false

section Reading

variable {env : Env} {obs : List Obs}

theorem Uneventful.of {o : Obs} (hmark : o.mark = none) (hstart : o.confirmsStart = false) :
    Uneventful o := by
  refine ⟨hmark, ?_⟩
  rintro ch live rfl
  cases hstart

theorem uneventful_row {event : LogEvent} (hstart : event.eventType ≠ "session_start")
    (hend : event.eventType ≠ "session_end") : Uneventful (.row event) :=
  .of (by simp [Obs.mark, hstart, hend]) rfl

theorem Clerical.uneventful {φ : LogEvent → Prop} (h : Clerical φ obs)
    (hφ : ∀ event, φ event → event.eventType ≠ "session_start" ∧ event.eventType ≠ "session_end") :
    ∀ o ∈ obs, Uneventful o :=
  h.all (fun event hevent => uneventful_row (hφ event hevent).1 (hφ event hevent).2)
    fun _ _ => .of rfl rfl

theorem Progress.not_lifecycle {event : LogEvent} (h : Progress event) :
    event.eventType ≠ "session_start" ∧ event.eventType ≠ "session_end" := by
  unfold Progress at h
  constructor
  · intro hevent
    simp [hevent, progressEventTypes] at h
  · intro hevent
    simp [hevent, progressEventTypes] at h

theorem Answer.uneventful {t : Turn} {key : Octets 32} {f : Flight}
    (h : Answer env t key f obs) : ∀ o ∈ obs, Uneventful o := by
  obtain ⟨rows, result, rfl, hrows⟩ := h.shape
  refine List.forall_mem_append.mpr ⟨hrows.uneventful fun event hevent => ?_,
    List.forall_mem_singleton.mpr (.of rfl rfl)⟩
  rcases hevent with hevent | hevent
  · simp [hevent]
  · constructor
    · intro hstart
      simp [hstart, terminalEventTypes] at hevent
    · intro hend
      simp [hend, terminalEventTypes] at hevent

theorem marks_append (trace : List Obs) : marks (trace ++ obs) = marks trace ++ marks obs :=
  List.filterMap_append

theorem marks_uneventful (h : ∀ o ∈ obs, Uneventful o) : marks obs = [] :=
  List.filterMap_eq_nil_iff.mpr fun o ho => (h o ho).1

/-- A log that takes every row has the start and the end of a session. -/
theorem Rows.marks_start (hlog : Reliable env) {reqId : Octets 16}
    (h : Rows env reqId "session_start" obs) : marks obs = [true] := by
  rcases h with ⟨payloadJson, timestamp, rfl⟩ | ⟨-, hnot⟩
  · simp [marks, Obs.mark]
  · exact absurd hlog hnot

theorem Rows.marks_end (hlog : Reliable env) {reqId : Octets 16}
    (h : Rows env reqId "session_end" obs) : marks obs = [false] := by
  rcases h with ⟨payloadJson, timestamp, rfl⟩ | ⟨-, hnot⟩
  · simp [marks, Obs.mark]
  · exact absurd hlog hnot

end Reading

/-! ## Moves -/

structure Lifecycle (trace : List Obs) (session : Option Seat) : Prop where
  turns : Alternation (marks trace) session.isSome
  live : ∀ s ∈ session, s.live = true
  answered : StartedLive trace

section Moves

variable {env : Env} {t : Turn} {σ σ' : Desk} {trace obs : List Obs} {session : Option Seat}

theorem StartedLive.append (h : StartedLive trace) (h' : StartedLive obs) :
    StartedLive (trace ++ obs) := by
  intro ch live hmem
  rcases List.mem_append.mp hmem with hmem | hmem
  · exact h ch live hmem
  · exact h' ch live hmem

theorem startedLive_of_uneventful (h : ∀ o ∈ obs, Uneventful o) : StartedLive obs :=
  fun ch live hmem => absurd rfl ((h _ hmem).2 ch live)

theorem Lifecycle.uneventful (h : Lifecycle trace session) (hobs : ∀ o ∈ obs, Uneventful o) :
    Lifecycle (trace ++ obs) session where
  turns := by
    rw [marks_append, marks_uneventful hobs, List.append_nil]
    exact h.turns
  live := h.live
  answered := h.answered.append (startedLive_of_uneventful hobs)

theorem Lifecycle.reseat {s s' : Seat} (h : Lifecycle trace (some s)) (hlive : s'.live = s.live) :
    Lifecycle trace (some s') :=
  { h with live := by rintro _ ⟨⟩; rw [hlive]; exact h.live s rfl }

/-- The row of a start where there is no session, or of an end where there is. -/
theorem Lifecycle.next {reqId : Octets 16} {eventType : String} {rows : List Obs}
    {session' : Option Seat} (h : Lifecycle trace session) (hrows : Rows env reqId eventType rows)
    (hmarks : marks rows = [!session.isSome]) (hsome : session'.isSome = !session.isSome)
    (hlive : ∀ s ∈ session', s.live = true) : Lifecycle (trace ++ rows) session' where
  turns := by
    rw [marks_append, hmarks, hsome]
    exact h.turns.next
  live := hlive
  answered := h.answered.append fun ch live hmem => by
    rcases hrows.clerical _ hmem with ⟨_, heq, -⟩ | ⟨_, _, heq⟩
    · cases heq
    · cases heq

/-- Sessions whose openings are taken and whose key parses start and end in
turn. -/
theorem Lifecycle.move (hlog : Reliable env) (hkeys : KeysParse env)
    (h : Lifecycle σ.trace σ.session) (hmove : Move env t σ σ') (htaken : OpeningsTaken σ'.trace) :
    Lifecycle σ'.trace σ'.session := by
  have hplain : ∀ {obs}, (∀ o ∈ obs, Uneventful o) → Lifecycle (σ.trace ++ obs) σ.session :=
    fun hobs => h.uneventful hobs
  have hone : ∀ {o}, Uneventful o → Lifecycle (σ.trace ++ [o]) σ.session :=
    fun ho => hplain (List.forall_mem_singleton.mpr ho)
  cases hmove with
  | skip => exact h
  | heard _ _ => exact hone (.of rfl rfl)
  | noted hrows => exact hplain (hrows.clerical.uneventful fun _ hevent => by simp [hevent])
  | ponged | endReplied | inspected | startFailed => exact hone (.of rfl rfl)
  | startAnswered hs =>
    refine ⟨?_, h.live, h.answered.append fun ch live hmem => ?_⟩
    · simp only [Desk.say, marks_append]
      exact (List.append_nil (marks σ.trace)).symm ▸ h.turns
    · cases List.mem_singleton.mp hmem
      exact h.live _ hs
  | refuse e =>
    exact hplain (List.forall_mem_cons.mpr ⟨.of rfl rfl,
      List.forall_mem_singleton.mpr (.of rfl rfl)⟩)
  | enqueue | take => exact hone (.of rfl rfl)
  | pop | settle => exact h
  | openFailed hhand _ _ hfail =>
    refine hplain ?_
    simp only [List.cons_append, List.forall_mem_cons, List.forall_mem_append]
    exact ⟨.of rfl rfl, hfail.clerical.uneventful fun _ => Progress.not_lifecycle, .of rfl rfl,
      List.forall_mem_nil _⟩
  | @openDead ch s o _ _ _ _ hopen _ =>
    -- the link did not take the opening
    have htook := htaken (.wire (some ch) s.sid o.message false) (by simp [Desk.say])
    simp [Obs.dropsOpening, hopen.opens] at htook
  | opened hhand hs hopen _ =>
    refine hplain ?_
    simp only [List.cons_append, List.forall_mem_cons, List.forall_mem_append]
    exact ⟨.of rfl rfl, .of rfl rfl, hopen.clerical.uneventful fun _ => Progress.not_lifecycle,
      .of rfl rfl, List.forall_mem_nil _⟩
  | answer hs hflight _ hanswer => exact hplain hanswer.uneventful
  | refused hs hflight _ _ hgranted hrefusal =>
    rw [hs] at h
    refine (h.uneventful ?_).reseat rfl
    exact List.forall_mem_append.mpr
      ⟨(hrefusal.clerical hgranted).uneventful fun _ => Progress.not_lifecycle,
        List.forall_mem_singleton.mpr (.of rfl rfl)⟩
  | promote hs hflight _ hgranted hexec hrows =>
    rw [hs] at h
    refine (h.uneventful ?_).reseat rfl
    exact List.forall_mem_append.mpr
      ⟨hrows.clerical.uneventful fun _ => Progress.not_lifecycle,
        List.forall_mem_singleton.mpr (.of rfl rfl)⟩
  | @promoteDead s f _ _ _ execute rows ends hs hflight _ hgranted hexec hrows hends =>
    rw [hs] at h
    have hsaid : ∀ o ∈ rows ++ .wire (some f.ch) s.sid (.executeRequest execute) false ::
        σ.queue.map endedReply, Uneventful o := by
      simp only [List.forall_mem_append, List.forall_mem_cons]
      exact ⟨hrows.clerical.uneventful fun _ => Progress.not_lifecycle, .of rfl rfl,
        List.forall_mem_map.mpr fun _ _ => .of rfl rfl⟩
    have hended : Lifecycle _ none :=
      (h.uneventful hsaid).next hends (hends.marks_end hlog) rfl (by simp)
    have hlast : Uneventful (endedReply f.ch) := .of rfl rfl
    have hdone := hended.uneventful (List.forall_mem_singleton.mpr hlast)
    simpa [Desk.say] using hdone
  | teardown hs _ _ _ hends =>
    rw [hs] at h
    have hsaid := h.uneventful (σ.all_endedReplies fun _ => .of rfl rfl)
    simp only [Desk.say, ← List.append_assoc]
    exact hsaid.next hends (hends.marks_end hlog) rfl (by simp)
  | begun key link _ hnone _ hrows =>
    rw [hnone] at h
    have hstarted : Lifecycle _ (some ⟨σ.starts, key, link, true, .new⟩) :=
      h.next hrows (hrows.marks_start hlog) rfl (by rintro _ ⟨⟩; rfl)
    simp only [Desk.say, ← List.append_assoc]
    exact hstarted.uneventful (List.forall_mem_singleton.mpr (.of rfl rfl))
  | aborted hnone hlist hlast hkey hrows =>
    rw [hkeys _ _ _ hlist hlast] at hkey
    cases hkey
  | unreached hnone => exact h

end Moves

/-! ## Runs -/

/-- The contract of a session's rows, at the end of a run. -/
structure LifecycleKept (env : Env) (events : List Event) : Prop where
  alternates : (marks (Owner.init.run env events).world.trace).IsChain (· ≠ ·)
  starts : (marks (Owner.init.run env events).world.trace).head? ≠ some false
  /-- One end for each start once the owner is idle. -/
  idle : (Owner.init.run env events).slot = none →
    (marks (Owner.init.run env events).world.trace).count true =
      (marks (Owner.init.run env events).world.trace).count false
  live : StartedLive (Owner.init.run env events).world.trace

/-- **Sessions start and end in turn.** In a run with a log that takes every row,
in which the link takes every opening message in full and the stored identity
key parses, the rows of sessions alternate and a Start is answered Ok only by a
live session. -/
theorem sessions_start_and_end_in_turn (env : Env) (events : List Event) (hlog : Reliable env)
    (hkeys : KeysParse env) (htaken : OpeningsTaken (Owner.init.run env events).world.trace) :
    LifecycleKept env events := by
  have hreach := run_reaches env .init events fun t _ => (trivial : (fun _ : Turn => True) t)
  have hcycle : Lifecycle (Owner.init.run env events).desk.trace
      (Owner.init.run env events).desk.session := by
    refine hreach.invariant (fun σ => OpeningsTaken σ.trace → Lifecycle σ.trace σ.session)
      (fun _ => ⟨Alternation.empty, nofun, fun _ _ hmem => absurd hmem List.not_mem_nil⟩) ?_ htaken
    intro t σ σ' _ hσ hmove htaken'
    refine (hσ fun o ho => ?_).move hlog hkeys hmove htaken'
    exact htaken' o (hmove.trace_grows.subset ho)
  refine ⟨hcycle.turns.chain, hcycle.turns.head, fun hidle => ?_, hcycle.answered⟩
  have hbalance := hcycle.turns.balance
  simp only [Owner.desk, desk, hidle] at hbalance
  exact hbalance

/-- A session with one request, and another one begun after it. -/
def twoSessions : List Event :=
  [.command .start, Bench.list, Bench.sends 1 Bench.listed, .command .start,
    .command (.endSession .userEnded), .command .start]

theorem two_sessions_in_turn :
    Reliable Bench.threeRequests ∧ KeysParse Bench.threeRequests ∧
      OpeningsTaken (Owner.init.run Bench.threeRequests twoSessions).world.trace ∧
      marks (Owner.init.run Bench.threeRequests twoSessions).world.trace = [true, false, true] ∧
      LifecycleKept Bench.threeRequests twoSessions := by
  have hlog : Reliable Bench.threeRequests := fun _ => rfl
  have hkeys : KeysParse Bench.threeRequests := fun _ _ _ _ _ => rfl
  have htaken : OpeningsTaken (Owner.init.run Bench.threeRequests twoSessions).world.trace := by
    unfold OpeningsTaken
    decide +kernel
  exact ⟨hlog, hkeys, htaken, by decide +kernel,
    sessions_start_and_end_in_turn _ _ hlog hkeys htaken⟩

/-- A link that takes nothing. -/
def brokenLink : Env := { Bench.threeRequests with linkSend := fun _ _ => false }

/-- The opening of a request is lost; then another Start, and the end. -/
def lostOpening : List Event :=
  [.command .start, Bench.list, .command .start, .command (.endSession .userEnded)]

/-- A pairing whose identity key does not parse. -/
def malformedKey : Env := { Bench.threeRequests with parsesKey := fun _ => false }

/-- The dead session left in the slot ends twice, and the start under a malformed
key does not end at all. -/
theorem turns_lost_without_conditions :
    (Reliable brokenLink ∧ ¬ LifecycleKept brokenLink lostOpening) ∧
      (Reliable malformedKey ∧ ¬ LifecycleKept malformedKey [.command .start]) := by
  refine ⟨⟨fun _ => rfl, fun h => ?_⟩, fun _ => rfl, fun h => ?_⟩
  · have hmarks : marks (Owner.init.run brokenLink lostOpening).world.trace =
        [true, false, false] := by decide +kernel
    have hchain := h.alternates
    rw [hmarks] at hchain
    simp at hchain
  · have hmarks : marks (Owner.init.run malformedKey [.command .start]).world.trace = [true] := by
      decide +kernel
    have hbalance := h.idle (by rfl)
    rw [hmarks] at hbalance
    simp at hbalance

end Conveyance.Daemon
