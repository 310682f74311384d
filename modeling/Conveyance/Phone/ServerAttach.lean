import Conveyance.Phone.BleActor

/-!
# Attaching a server beside the teardown (android, ble/BleActor.kt, ble/AdapterWatch.kt)

`attachServer` runs on its caller's thread, the teardown on the dispatcher, and inbound bytes
come from binder threads. What they share is not under a lock. Here a step is one access to
it, with what its thread does on its own up to the next one; the threads take steps in any
order. `SystemAdapterWatch` is part of the model, since its `start` and `stop` meet too.

The dispatcher's events matter only in that they lead to a teardown. `View` is what is left
without them: how far the teardown has come, and what the other threads have set. `held` is
what no step breaks, shown access by access.
-/

namespace Conveyance.Phone

open Lib

/-- The access of `attachServer` that comes next. -/
inductive AttachPc where
  /-- `if (torn)`. -/
  | checking
  /-- `handle.close()`. -/
  | refusing
  /-- `server = handle`. -/
  | assigning
  /-- `if (receiver != null) return`, in `start`. -/
  | starting
  /-- `receiver = r`. -/
  | keeping
  /-- `registerReceiver`. -/
  | registering
  | returned
deriving DecidableEq

/-- The access of `teardown` that comes next. -/
inductive TeardownPc where
  /-- `torn = true`. -/
  | marking
  /-- `val r = receiver ?: return`, in `stop`. -/
  | stopping
  /-- `receiver = null`. -/
  | forgetting
  /-- `unregisterReceiver`. -/
  | unregistering
  /-- `server?.close()`. -/
  | closing
  /-- `server = null`. -/
  | dropping
  /-- `linkEvents.trySend(LinkEvent.Torn(reason))`. -/
  | announcing
  /-- `linkEvents.close()`. -/
  | ending
  /-- `events.close()`. -/
  | leaving
deriving DecidableEq

/-- Where the dispatcher is: between two events, with effects to carry out, or in the
teardown that one of them is. -/
inductive DispatcherPc where
  | between
  | applying (effects : List ConnectionStateMachine.Effect)
  | tearing (pc : TeardownPc) (reason : LinkTeardown)
      (effects : List ConnectionStateMachine.Effect)

/-- The fields of an actor and of its watch, with the places of their threads. -/
structure BleThreads where
  machine : ConnectionStateMachine
  /-- `_state`. -/
  state : ConnectionStateMachine.State
  events : List ConnectionStateMachine.Event
  eventsClosed : Bool
  currentMaxWriteLen : Int32
  /-- `server` holds the handle. -/
  server : Bool
  /-- `close` was called on the handle. -/
  handleClosed : Bool
  /-- The watch's `receiver` is not null. -/
  receiver : Bool
  /-- It is registered: the watch is running. -/
  registered : Bool
  torn : Bool
  teardownReason : Option LinkTeardown
  /-- All that was put on the link's stream. -/
  linkEvents : List LinkEvent
  linkEventsClosed : Bool
  attach : AttachPc
  dispatcher : DispatcherPc

/-- A thread that takes a step. -/
inductive BleStep where
  | attach
  | dispatch
  /-- `onEvent`. -/
  | post (event : ConnectionStateMachine.Event)
  /-- `onInboundBytes`. -/
  | inbound (bytes : Bytes)

namespace BleThreads

def new : BleThreads where
  machine := .new
  state := .idle
  events := []
  eventsClosed := false
  currentMaxWriteLen := Framing.maxFramePayload Framing.minAttMtu
  server := false
  handleClosed := false
  receiver := false
  registered := false
  torn := false
  teardownReason := none
  linkEvents := []
  linkEventsClosed := false
  attach := .checking
  dispatcher := .between

variable (watched : Bool)

section

variable (s : BleThreads)

/-- `attachServer`, with `AdapterWatch.start`. -/
def attachStep : BleThreads :=
  match s.attach with
  | .checking => { s with attach := if s.torn then .refusing else .assigning }
  | .refusing => { s with handleClosed := true, attach := .returned }
  | .assigning => { s with server := true, attach := if watched then .starting else .returned }
  | .starting => { s with attach := if s.receiver then .returned else .keeping }
  | .keeping => { s with receiver := true, attach := .registering }
  | .registering => { s with registered := true, attach := .returned }
  | .returned => s

/-- `linkEvents.trySend`. -/
def offer (event : LinkEvent) : BleThreads :=
  if s.linkEventsClosed then s else { s with linkEvents := s.linkEvents ++ [event] }

/-- `teardown`, with `AdapterWatch.stop`. -/
def tear (reason : LinkTeardown) (effects : List ConnectionStateMachine.Effect) :
    TeardownPc → BleThreads
  | .marking =>
    { s with
      torn := true, teardownReason := some reason, state := .torn
      dispatcher := .tearing (if watched then .stopping else .closing) reason effects }
  | .stopping =>
    { s with
      dispatcher := .tearing (if s.receiver then .forgetting else .closing) reason effects }
  | .forgetting =>
    { s with receiver := false, dispatcher := .tearing .unregistering reason effects }
  | .unregistering => { s with registered := false, dispatcher := .tearing .closing reason effects }
  | .closing =>
    { s with
      handleClosed := s.handleClosed || s.server
      dispatcher := .tearing .dropping reason effects }
  | .dropping => { s with server := false, dispatcher := .tearing .announcing reason effects }
  | .announcing =>
    { s.offer (.torn reason) with dispatcher := .tearing .ending reason effects }
  | .ending => { s with linkEventsClosed := true, dispatcher := .tearing .leaving reason effects }
  | .leaving => { s with eventsClosed := true, dispatcher := .applying effects }

/-- `process` on the event loop. A cancelled loop may still go through what is queued. -/
def dispatchStep : BleThreads :=
  match s.dispatcher with
  | .between =>
    match s.events with
    | [] => s
    | event :: events =>
      { s with
        machine := (s.machine.on event).1, state := (s.machine.on event).1.state, events
        dispatcher := .applying (s.machine.on event).2 }
  | .applying [] => { s with dispatcher := .between }
  | .applying (.setMaxWriteLen bytes :: effects) =>
    { s with currentMaxWriteLen := bytes, dispatcher := .applying effects }
  | .applying (.linkReady :: effects) => { s with dispatcher := .applying effects }
  | .applying (.tearDown reason :: effects) =>
    { s with
      dispatcher := if s.torn then .applying effects else .tearing .marking reason effects }
  | .tearing pc reason effects => s.tear watched reason effects pc

def step : BleStep → BleThreads
  | .attach => s.attachStep watched
  | .dispatch => s.dispatchStep watched
  | .post event => if s.eventsClosed then s else { s with events := s.events ++ [event] }
  | .inbound bytes => s.offer (.chunk bytes)

def run (steps : List BleStep) : BleThreads := steps.foldl (step watched) new

/-! ## What a teardown should leave behind -/

/-- The actor is `TORN`, and the dispatcher is through with the event that made it so. -/
def TornDown : Prop :=
  s.state = .torn ∧ (s.dispatcher = .between ∨ s.dispatcher = .applying [])

end

/-- One `Torn`, and nothing behind it. -/
def EndsTorn (events : List LinkEvent) : Prop :=
  ∃ before reason, events = before ++ [.torn reason] ∧ ∀ reason', .torn reason' ∉ before

structure Released (s : BleThreads) : Prop where
  handle : s.handleClosed = true
  watch : s.registered = false
  stream : EndsTorn s.linkEvents

/-- How far the teardown is, for the threads that look at `torn`. -/
inductive Stage where
  | live
  | tearing (pc : TeardownPc)
  | done
deriving DecidableEq

def stage (s : BleThreads) : Stage :=
  if s.torn then
    match s.dispatcher with
    | .tearing pc _ _ => .tearing pc
    | _ => .done
  else .live

/-- The next access of the teardown looks for what `attachServer` is only about to set. -/
def Stage.early : Stage → AttachPc → Bool
  | .tearing .stopping, .assigning | .tearing .stopping, .starting | .tearing .stopping, .keeping
  | .tearing .unregistering, .registering | .tearing .closing, .assigning => true
  | _, _ => false

/-- The teardown is not early, and no bytes come in between the last event of the stream and its
end. -/
def Clear (s : BleThreads) : BleStep → Prop
  | .dispatch => s.stage.early s.attach = false
  | .inbound _ => s.stage ≠ .tearing .ending
  | _ => True

end BleThreads

/-! ## The view -/

open BleThreads

/-- What the threads see of the teardown, and what they have set. -/
structure View where
  stage : Stage
  attach : AttachPc
  server : Bool
  handleClosed : Bool
  receiver : Bool
  registered : Bool

namespace View

/-- `attachServer`, where the teardown is as far as the view tells. -/
def attached (watched : Bool) (v : View) : View :=
  match v.attach with
  | .checking => { v with attach := if v.stage = .live then .assigning else .refusing }
  | .refusing => { v with handleClosed := true, attach := .returned }
  | .assigning => { v with server := true, attach := if watched then .starting else .returned }
  | .starting => { v with attach := if v.receiver then .returned else .keeping }
  | .keeping => { v with receiver := true, attach := .registering }
  | .registering => { v with registered := true, attach := .returned }
  | .returned => v

/-- The next access of the teardown. -/
def advance (watched : Bool) (v : View) : View :=
  match v.stage with
  | .live => { v with stage := .tearing (if watched then .stopping else .closing) }
  | .tearing .stopping =>
    { v with stage := .tearing (if v.receiver then .forgetting else .closing) }
  | .tearing .forgetting => { v with receiver := false, stage := .tearing .unregistering }
  | .tearing .unregistering => { v with registered := false, stage := .tearing .closing }
  | .tearing .closing =>
    { v with handleClosed := v.handleClosed || v.server, stage := .tearing .dropping }
  | .tearing .dropping => { v with server := false, stage := .tearing .announcing }
  | .tearing .announcing => { v with stage := .tearing .ending }
  | .tearing .ending => { v with stage := .tearing .leaving }
  | .tearing .leaving => { v with stage := .done }
  | .tearing .marking | .done => v

variable {watched : Bool} {v : View}

/-- What `start` has set, where `stop` has not looked yet. -/
def starting (watched : Bool) (v : View) : Bool :=
  match v.attach with
  | .checking | .refusing | .assigning => !v.receiver && !v.registered
  | .starting | .keeping => watched && !v.receiver && !v.registered
  | .registering => watched && v.receiver
  | .returned => v.registered == v.receiver && (watched || !v.receiver)

/-- `start` is over, or it does not come to it. -/
def unstarted (watched : Bool) (v : View) : Bool :=
  !v.registered && (v.attach = .checking || v.attach = .refusing || v.attach = .returned ||
    v.attach = .assigning && !watched)

/-- The watch can still be stopped, or is not running any more. -/
def watch (watched : Bool) (v : View) : Bool :=
  match v.stage with
  | .live | .tearing .marking => v.starting watched
  | .tearing .stopping => watched && v.starting watched
  | .tearing .forgetting | .tearing .unregistering =>
    v.attach = .registering || v.attach = .returned
  | _ => v.unstarted watched

/-- The server's `close` is over. -/
def pastClose (v : View) : Bool :=
  match v.stage with
  | .tearing .dropping | .tearing .announcing | .tearing .ending | .tearing .leaving | .done => true
  | _ => false

/-- The handle is in the reach of `close`, or closed, or to be refused. -/
def handle (v : View) : Bool :=
  if v.pastClose then v.attach = .checking || v.attach = .refusing || v.handleClosed
  else
    match v.attach with
    | .checking | .refusing | .assigning => !v.server && !v.handleClosed
    | .starting | .keeping | .registering => v.server
    | .returned => v.handleClosed || v.server

/-- Nothing is out of reach. -/
def held (watched : Bool) (v : View) : Bool := v.watch watched && v.handle

theorem held_iff : v.held watched = true ↔ v.watch watched = true ∧ v.handle = true :=
  Bool.and_eq_true_iff

/-- Each access of `attachServer` keeps the watch where the teardown can stop it. -/
theorem watch_attached (h : v.watch watched = true) :
    (v.attached watched).watch watched = true := by
  obtain ⟨stage, attach, server, handleClosed, receiver, registered⟩ := v
  cases attach with
  | checking | refusing =>
    -- neither touches the watch, and neither is behind `stop`
    rcases stage with _ | (_ | _ | _ | _ | _ | _ | _ | _ | _) | _ <;>
      simp_all [watch, attached, starting, unstarted]
  | assigning =>
    -- on to `start` where there is a watch: `stop` has not looked then
    cases watched <;> rcases stage with _ | (_ | _ | _ | _ | _ | _ | _ | _ | _) | _ <;>
      simp_all [watch, attached, starting, unstarted]
  | starting | keeping | registering =>
    -- up to `stop` both marks are set in turn, past `close` none of these is left
    cases receiver <;> rcases stage with _ | (_ | _ | _ | _ | _ | _ | _ | _ | _) | _ <;>
      simp_all [watch, attached, starting, unstarted]
  | returned => exact h

theorem pastClose_attached : (v.attached watched).pastClose = v.pastClose := by
  unfold attached
  split <;> rfl

/-- Each of them keeps the handle in the reach of `close`, or refuses it. -/
theorem handle_attached (h : v.handle = true) : (v.attached watched).handle = true := by
  unfold handle at h ⊢
  rw [pastClose_attached]
  by_cases hpast : v.pastClose = true
  · -- the handle is closed, or the check finds the actor torn
    have hlive : v.stage ≠ .live := by
      intro hstage
      rw [pastClose, hstage] at hpast
      cases hpast
    rw [if_pos hpast] at h ⊢
    cases hattach : v.attach <;> simp_all [attached]
  · -- the handle is refused, or becomes the server
    rw [if_neg hpast] at h ⊢
    cases hattach : v.attach with
    | checking => by_cases hlive : v.stage = .live <;> simp_all [attached]
    | assigning => cases watched <;> simp_all [attached]
    | starting => cases hreceiver : v.receiver <;> simp_all [attached]
    | refusing | keeping | registering | returned => simp_all [attached]

/-- **An access of `attachServer`** leaves everything in reach. -/
theorem held_attached (h : v.held watched) : (v.attached watched).held watched :=
  held_iff.mpr ⟨watch_attached (held_iff.mp h).1, handle_attached (held_iff.mp h).2⟩

/-- **An access of the teardown** that is not early leaves everything in reach. -/
theorem held_advance (h : v.held watched) (hearly : v.stage.early v.attach = false) :
    (v.advance watched).held watched := by
  obtain ⟨stage, attach, server, handleClosed, receiver, registered⟩ := v
  obtain ⟨hwatch, hhandle⟩ := held_iff.mp h
  refine held_iff.mpr ?_
  cases stage with
  | live =>
    -- without a watch nothing has been started
    cases watched <;> cases attach <;>
      simp_all [watch, handle, advance, starting, unstarted, pastClose]
  | done => exact ⟨hwatch, hhandle⟩
  | tearing pc =>
    cases pc with
    | marking => exact ⟨hwatch, hhandle⟩
    | stopping =>
      -- what `start` keeps is seen, or `start` does not come to it any more
      cases attach <;> cases receiver <;>
        simp_all [watch, handle, advance, starting, unstarted, pastClose, Stage.early]
    | forgetting => exact ⟨hwatch, hhandle⟩
    | unregistering =>
      -- `registerReceiver` is over
      cases attach <;> simp_all [watch, handle, advance, unstarted, pastClose, Stage.early]
    | closing =>
      -- the handle is assigned, or will be refused
      cases attach <;> simp_all [watch, handle, advance, unstarted, pastClose, Stage.early]
    | dropping | announcing | ending | leaving => exact ⟨hwatch, hhandle⟩

/-- At the end everything that was in reach is released. -/
theorem held_done (h : v.held watched) (hstage : v.stage = .done) (hattach : v.attach = .returned) :
    v.handleClosed = true ∧ v.registered = false := by
  obtain ⟨hwatch, hhandle⟩ := held_iff.mp h
  simp_all [watch, handle, unstarted, pastClose]

end View

/-! ## The events before a teardown -/

/-- A teardown is to come, or under way. -/
def DispatcherPc.Due : DispatcherPc → Prop
  | .between => False
  | .applying effects => ∃ reason, .tearDown reason ∈ effects
  | .tearing _ _ _ => True

namespace BleThreads

variable {watched : Bool} {s : BleThreads} {pc : TeardownPc} {reason : LinkTeardown}
  {effects : List ConnectionStateMachine.Effect}

/-- The states of the actor, the machine and the dispatcher fit together: the machine is torn as
soon as the teardown is to be carried out. -/
structure Coherent (s : BleThreads) : Prop where
  state : s.state = s.machine.state
  torn : s.torn = true → s.machine.state = .torn
  due : s.torn = false → (s.machine.state = .torn ↔ s.dispatcher.Due)
  marking : ∀ pc reason effects, s.dispatcher = .tearing pc reason effects →
    (s.torn = false ↔ pc = .marking)

theorem on_torn_iff {m : ConnectionStateMachine} (h : m.state ≠ .torn)
    (event : ConnectionStateMachine.Event) :
    (m.on event).1.state = .torn ↔ ∃ reason, .tearDown reason ∈ (m.on event).2 := by
  unfold ConnectionStateMachine.on
  rw [if_neg h]
  cases event with
  | centralConnected | mtuChanged | subscribed =>
    dsimp only
    split_ifs <;> simp [h]
  | unsubscribed =>
    split_ifs <;> simp [h, ConnectionStateMachine.tearDown]
  | centralDisconnected | adapterOff | shutdownRequested | notifyFailed =>
    simp [ConnectionStateMachine.tearDown]

theorem coherent_new : Coherent new :=
  ⟨rfl, Bool.noConfusion, fun _ => iff_of_false (by decide) id,
    fun _ _ _ => DispatcherPc.noConfusion⟩

/-- The next event, outside of a teardown. -/
theorem take_coherent (h : Coherent s) (hdispatcher : s.dispatcher = .between)
    (event : ConnectionStateMachine.Event) (events : List ConnectionStateMachine.Event) :
    Coherent { s with
      machine := (s.machine.on event).1, state := (s.machine.on event).1.state, events
      dispatcher := .applying (s.machine.on event).2 } := by
  refine ⟨rfl, fun htorn => ?_, fun htorn => on_torn_iff (fun hmachine => ?_) event,
    fun _ _ _ => DispatcherPc.noConfusion⟩
  · have hon : s.machine.on event = (s.machine, []) := if_pos (h.torn htorn)
    rw [hon]
    exact h.torn htorn
  · have hdue := (h.due htorn).mp hmachine
    rw [hdispatcher] at hdue
    exact hdue

/-- The dispatcher goes on outside of a teardown. -/
theorem Coherent.next (h : Coherent s) {dispatcher : DispatcherPc}
    (hpc : ∀ pc reason effects, dispatcher ≠ .tearing pc reason effects)
    (hdue : s.torn = false → (s.dispatcher.Due ↔ dispatcher.Due)) (bytes : Int32) :
    Coherent { s with currentMaxWriteLen := bytes, dispatcher } :=
  { h with
    due := fun htorn => (h.due htorn).trans (hdue htorn)
    marking := fun pc reason effects heq => absurd heq (hpc pc reason effects) }

/-- A torn actor stays coherent where only the dispatcher moves on. -/
theorem Coherent.later (h : Coherent s) (htorn : s.torn = true) {t : BleThreads}
    (hmachine : t.machine = s.machine) (hstate : t.state = s.state) (htorn' : t.torn = s.torn)
    (hpc : ∀ reason effects, t.dispatcher ≠ .tearing .marking reason effects) : Coherent t := by
  rw [htorn] at htorn'
  refine ⟨by rw [hstate, hmachine, h.state], fun _ => hmachine ▸ h.torn htorn, ?_, ?_⟩
  · simp [htorn']
  · rintro pc reason effects heq
    refine iff_of_false (by simp [htorn']) ?_
    rintro rfl
    exact hpc reason effects heq

/-! ## One step -/

def view (s : BleThreads) : View :=
  ⟨s.stage, s.attach, s.server, s.handleClosed, s.receiver, s.registered⟩

/-- The stream as it is at a stage. -/
def Streamed (s : BleThreads) : Prop :=
  match s.stage with
  | .tearing .ending => s.linkEventsClosed = false ∧ EndsTorn s.linkEvents
  | .tearing .leaving | .done => s.linkEventsClosed = true ∧ EndsTorn s.linkEvents
  | _ => s.linkEventsClosed = false ∧ ∀ reason, .torn reason ∉ s.linkEvents

theorem stage_live_iff : s.stage = .live ↔ s.torn = false := by
  cases htorn : s.torn with
  | false => simp [stage, htorn]
  | true =>
    rw [stage, htorn, if_pos rfl]
    split <;> simp

theorem stage_tearing (htorn : s.torn = true) (h : s.dispatcher = .tearing pc reason effects) :
    s.stage = .tearing pc := by
  rw [stage, htorn, if_pos rfl, h]

theorem view_attach : (s.attachStep watched).view = s.view.attached watched := by
  have hseen : (if s.torn then AttachPc.refusing else .assigning) =
      if s.stage = .live then .assigning else .refusing := by
    cases htorn : s.torn <;> simp [stage_live_iff, htorn]
  have hattach : s.view.attach = s.attach := rfl
  unfold attachStep View.attached
  rw [hattach]
  cases s.attach with
  | checking => exact congrArg (fun attach => { s.view with attach }) hseen
  | _ => rfl

/-- A chunk is taken while the stream has no end yet, and refused behind its close. -/
theorem streamed_offer (bytes : Bytes) (h : Streamed s) (hstage : s.stage ≠ .tearing .ending) :
    Streamed (s.offer (.chunk bytes)) := by
  unfold offer
  split_ifs with hclosed
  · exact h
  have hsame : stage { s with linkEvents := s.linkEvents ++ [.chunk bytes] } = s.stage := rfl
  unfold Streamed at h ⊢
  rw [hsame]
  cases hat : s.stage with
  | live => simpa [hat] using h
  | done => simp [hat, hclosed] at h
  | tearing pc =>
    cases pc with
    | ending => exact absurd hat hstage
    | leaving => simp [hat, hclosed] at h
    | _ => simpa [hat] using h

/-- What a step of the dispatcher leaves, if its view is the one given. -/
structure Keeps (s t : BleThreads) (view : View) : Prop where
  coherent : Coherent t
  view : t.view = view
  streamed : Streamed s → Streamed t

/-- An access of the teardown. -/
theorem tear_effect (h : Coherent s) (hdispatcher : s.dispatcher = .tearing pc reason effects) :
    Keeps s (s.tear watched reason effects pc) (s.view.advance watched) := by
  have hmarking := h.marking pc reason effects hdispatcher
  cases htorn : s.torn with
  | false =>
    obtain rfl := hmarking.mp htorn
    have hmachine : s.machine.state = .torn := (h.due htorn).mpr (by rw [hdispatcher]; trivial)
    have hstage : s.stage = .live := stage_live_iff.mpr htorn
    refine ⟨⟨hmachine.symm, fun _ => hmachine, Bool.noConfusion, fun pc _ _ heq => ?_⟩, ?_,
      fun hstreamed => ?_⟩
    · refine iff_of_false Bool.noConfusion ?_
      rw [← (DispatcherPc.tearing.inj heq).1]
      cases watched <;> simp
    · simp [view, View.advance, tear, stage, htorn]
    · rw [Streamed, hstage] at hstreamed
      cases watched <;> exact hstreamed
  | true =>
    have hstage : s.stage = .tearing pc := stage_tearing htorn hdispatcher
    cases pc with
    | marking => exact absurd (hmarking.mpr rfl) (by simp [htorn])
    | stopping =>
      cases hreceiver : s.receiver with
      | false | true =>
        refine ⟨h.later htorn rfl rfl rfl fun _ _ => by simp [tear, hreceiver], ?_, ?_⟩ <;>
          simp [tear, view, Streamed, stage, View.advance, htorn, hdispatcher, hreceiver]
    | announcing =>
      have hoffer : s.offer (.torn reason) =
          { s with linkEvents := (s.offer (.torn reason)).linkEvents } := by
        unfold offer
        split_ifs <;> rfl
      rw [tear, hoffer]
      refine ⟨h.later htorn rfl rfl rfl fun _ _ => by simp, ?_, fun hstreamed => ?_⟩
      · simp [view, stage, View.advance, htorn, hdispatcher]
      · rw [Streamed, hstage] at hstreamed
        obtain ⟨hopen, hnone⟩ := hstreamed
        have hstage' : ∀ linkEvents, stage { s with
            linkEvents, dispatcher := .tearing .ending reason effects } = .tearing .ending :=
          fun _ => by simp [stage, htorn]
        rw [Streamed, hstage', offer, hopen, if_neg Bool.false_ne_true]
        exact ⟨rfl, s.linkEvents, reason, rfl, hnone⟩
    | _ =>
      refine ⟨h.later htorn rfl rfl rfl fun _ _ => by simp [tear], ?_, ?_⟩ <;>
        simp [tear, view, Streamed, stage, View.advance, htorn, hdispatcher]

/-- **A step of the dispatcher.** In the teardown, and when it is begun, the view advances;
events before and behind it leave the view as it is. -/
theorem dispatch_effect (watched : Bool) (h : Coherent s) :
    Keeps s (s.dispatchStep watched) (s.view.advance watched) ∨
      Keeps s (s.dispatchStep watched) s.view := by
  unfold dispatchStep
  cases hdispatcher : s.dispatcher with
  | tearing pc reason effects => exact .inl (tear_effect h hdispatcher)
  | between =>
    cases hevents : s.events with
    | nil => exact .inr ⟨h, rfl, id⟩
    | cons event events =>
      refine .inr ⟨take_coherent h hdispatcher event events, ?_, ?_⟩ <;>
        simp [view, Streamed, stage, hdispatcher]
  | applying effects =>
    right
    cases effects with
    | nil =>
      refine ⟨h.next (by simp) (fun _ => ?_) _, ?_, ?_⟩ <;>
        simp [view, Streamed, stage, hdispatcher, DispatcherPc.Due]
    | cons effect effects =>
      cases effect with
      | setMaxWriteLen | linkReady =>
        refine ⟨h.next (by simp) (fun _ => ?_) _, ?_, ?_⟩ <;>
          simp [view, Streamed, stage, hdispatcher, DispatcherPc.Due]
      | tearDown reason =>
        split_ifs with htorn
        · refine ⟨h.next (by simp) (by simp [htorn]) _, ?_, ?_⟩ <;>
            simp [view, Streamed, stage, hdispatcher]
        · refine ⟨⟨h.state, h.torn, fun hlive => (h.due hlive).trans ?_, ?_⟩, ?_, ?_⟩
          · simp [hdispatcher, DispatcherPc.Due]
          · rintro pc reason' effects' heq
            simp [htorn, ← (DispatcherPc.tearing.inj heq).1]
          · simp [view, stage, htorn]
          · simp [Streamed, stage, htorn]

/-- Nothing is out of reach, and the stream is as it should be. -/
structure Sound (watched : Bool) (s : BleThreads) : Prop where
  coherent : Coherent s
  held : s.view.held watched
  streamed : Streamed s

theorem sound_new : Sound watched new :=
  ⟨coherent_new, by cases watched <;> rfl, rfl, fun _ => List.not_mem_nil⟩

/-- **A step that is clear** keeps everything in reach. -/
theorem Sound.step (h : Sound watched s) (b : BleStep) (hclear : Clear s b) :
    Sound watched (s.step watched b) := by
  obtain ⟨hcoherent, hheld, hstreamed⟩ := h
  cases b with
  | attach =>
    have hkept : Coherent (s.attachStep watched) ∧ Streamed (s.attachStep watched) := by
      unfold attachStep
      cases s.attach <;> exact ⟨{ hcoherent with }, hstreamed⟩
    exact ⟨hkept.1, view_attach ▸ View.held_attached hheld, hkept.2⟩
  | dispatch =>
    rcases dispatch_effect watched hcoherent with hkeeps | hkeeps
    · exact ⟨hkeeps.coherent, hkeeps.view ▸ View.held_advance hheld hclear,
        hkeeps.streamed hstreamed⟩
    · exact ⟨hkeeps.coherent, hkeeps.view ▸ hheld, hkeeps.streamed hstreamed⟩
  | post event =>
    rw [BleThreads.step]
    split_ifs <;> exact ⟨{ hcoherent with }, hheld, hstreamed⟩
  | inbound bytes =>
    have hoffered := streamed_offer bytes hstreamed hclear
    show Sound watched (s.offer (.chunk bytes))
    unfold offer at hoffered ⊢
    split_ifs at hoffered ⊢ <;> exact ⟨{ hcoherent with }, hheld, hoffered⟩

theorem TornDown.stage (h : Coherent s) (htorn : TornDown s) : s.stage = .done := by
  obtain ⟨hstate, hdispatcher⟩ := htorn
  have hidle : ¬s.dispatcher.Due := by
    rcases hdispatcher with hdispatcher | hdispatcher <;> simp [hdispatcher, DispatcherPc.Due]
  cases hseen : s.torn with
  | false => exact absurd ((h.due hseen).mp (h.state.symm.trans hstate)) hidle
  | true => rcases hdispatcher with hdispatcher | hdispatcher <;> simp [BleThreads.stage, *]

/-- **What a teardown releases**, over every interleaving: everything, if none of its accesses
came between what `attachServer` saw and what it then set, and no bytes came in between the last
event of the stream and its close. -/
theorem clear_teardown_releases (watched : Bool) (steps : List BleStep)
    (hclear : Along (step watched) Clear new steps) (htorn : TornDown (run watched steps))
    (hreturned : (run watched steps).attach = .returned) : Released (run watched steps) := by
  have hsound : Sound watched (run watched steps) :=
    hclear.invariant (Sound watched) sound_new fun _ b h hb => h.step b hb
  have hstage := htorn.stage hsound.coherent
  obtain ⟨hclosed, hwatch⟩ := View.held_done hsound.held hstage hreturned
  have hstreamed := hsound.streamed
  rw [Streamed, hstage] at hstreamed
  exact ⟨hclosed, hwatch, hstreamed.2⟩

/-- A server is attached, bytes come in, and then the actor is shut down. -/
def steadySteps : List BleStep :=
  List.replicate 5 .attach ++ [.inbound [1], .post .shutdownRequested] ++
    List.replicate 11 .dispatch

theorem steady_steps_release :
    TornDown (run true steadySteps) ∧ (run true steadySteps).attach = .returned ∧
      Released (run true steadySteps) := by
  have htorn : TornDown (run true steadySteps) := ⟨rfl, .inr rfl⟩
  refine ⟨htorn, rfl, clear_teardown_releases true steadySteps ?_ htorn rfl⟩
  -- at `stopping`, `unregistering` and `closing` the attempt has returned
  exact ⟨trivial, trivial, trivial, trivial, trivial, Stage.noConfusion, trivial, rfl, rfl, rfl,
    rfl, rfl, rfl, rfl, rfl, rfl, rfl, rfl, trivial⟩

/-- The shutdown is over between the check and the assignment of `attachServer`. -/
def racingSteps : List BleStep :=
  [.attach, .post .shutdownRequested] ++ List.replicate 9 .dispatch ++ List.replicate 4 .attach

/-- Bytes come in behind the last event of the stream. -/
def lateSteps : List BleStep :=
  List.replicate 5 .attach ++ [.post .shutdownRequested] ++ List.replicate 9 .dispatch ++
    [.inbound [1], .dispatch, .dispatch]

theorem teardown_leaks :
    (TornDown (run true racingSteps) ∧ (run true racingSteps).attach = .returned ∧
      (run true racingSteps).handleClosed = false ∧ (run true racingSteps).registered = true) ∧
    TornDown (run true lateSteps) ∧ (run true lateSteps).attach = .returned ∧
      (run true lateSteps).linkEvents = [.torn .localShutdown, .chunk [1]] :=
  ⟨⟨⟨rfl, .inr rfl⟩, rfl, rfl, rfl⟩, ⟨rfl, .inr rfl⟩, rfl, rfl⟩

/-! ## The actor that works alone

Where no other thread comes in between, the steps of a thread are one operation of `BleActor`. -/

/-- What `BleActor` keeps of the threads. A closed channel has nothing left to take. -/
def toActor (s : BleThreads) : BleActor where
  machine := s.machine
  events := if s.torn then [] else s.events
  server := s.server
  currentMaxWriteLen := s.currentMaxWriteLen
  torn := s.torn
  teardownReason := s.teardownReason
  notified := []

theorem toActor_attachServer (hattach : s.attach = .checking) :
    ((attachStep watched)^[5] s).attach = .returned ∧
      ((attachStep watched)^[5] s).toActor = s.toActor.attachServer := by
  obtain ⟨machine, state, events, eventsClosed, maxWriteLen, server, handleClosed, receiver,
    registered, torn, teardownReason, linkEvents, linkEventsClosed, attach, dispatcher⟩ := s
  obtain rfl : attach = .checking := hattach
  cases torn <;> cases watched <;> cases receiver <;> exact ⟨rfl, rfl⟩

theorem toActor_teardown (hdispatcher : s.dispatcher = .applying (.tearDown reason :: effects)) :
    ∃ n, ((dispatchStep watched)^[n] s).dispatcher = .applying effects ∧
      ((dispatchStep watched)^[n] s).toActor = s.toActor.teardown reason := by
  obtain ⟨machine, state, events, eventsClosed, maxWriteLen, server, handleClosed, receiver,
    registered, torn, teardownReason, linkEvents, linkEventsClosed, attach, dispatcher⟩ := s
  obtain rfl : dispatcher = .applying (.tearDown reason :: effects) := hdispatcher
  cases torn with
  | true => exact ⟨1, rfl, rfl⟩
  | false =>
    cases watched with
    | false => exact ⟨7, by cases linkEventsClosed <;> exact ⟨rfl, rfl⟩⟩
    | true =>
      cases receiver with
      | false => exact ⟨8, by cases linkEventsClosed <;> exact ⟨rfl, rfl⟩⟩
      | true => exact ⟨10, by cases linkEventsClosed <;> exact ⟨rfl, rfl⟩⟩

theorem toActor_apply (effects : List ConnectionStateMachine.Effect)
    (hdispatcher : s.dispatcher = .applying effects) :
    ∃ n, ((dispatchStep watched)^[n] s).dispatcher = .between ∧
      ((dispatchStep watched)^[n] s).toActor = effects.foldl .apply s.toActor := by
  induction effects generalizing s with
  | nil => exact ⟨1, by rw [Function.iterate_one, dispatchStep, hdispatcher]; exact ⟨rfl, rfl⟩⟩
  | cons effect effects ih =>
    obtain ⟨n, hnext, heffect⟩ : ∃ n,
        ((dispatchStep watched)^[n] s).dispatcher = .applying effects ∧
          ((dispatchStep watched)^[n] s).toActor = s.toActor.apply effect := by
      cases effect with
      | tearDown reason => exact toActor_teardown hdispatcher
      | setMaxWriteLen | linkReady =>
        exact ⟨1, by rw [Function.iterate_one, dispatchStep, hdispatcher]; exact ⟨rfl, rfl⟩⟩
    obtain ⟨m, hbetween, hrest⟩ := ih hnext
    rw [← Function.iterate_add_apply] at hbetween hrest
    rw [heffect] at hrest
    exact ⟨m + n, hbetween, hrest⟩

/-- **One event, taken in one go**, is `BleActor.process`. -/
theorem toActor_process (h : Coherent s) (hdispatcher : s.dispatcher = .between) :
    ∃ n, ((dispatchStep watched)^[n] s).dispatcher = .between ∧
      ((dispatchStep watched)^[n] s).toActor = s.toActor.process := by
  cases hevents : s.events with
  | nil =>
    refine ⟨0, hdispatcher, ?_⟩
    have hnone : s.toActor.events = [] := by simp [toActor, hevents]
    rw [BleActor.process, hnone]
    rfl
  | cons event events =>
    have htake : s.dispatchStep watched = { s with
        machine := (s.machine.on event).1, state := (s.machine.on event).1.state, events
        dispatcher := .applying (s.machine.on event).2 } := by
      rw [dispatchStep, hdispatcher, hevents]
    obtain ⟨n, hbetween, heffects⟩ : ∃ n,
        ((dispatchStep watched)^[n] (s.dispatchStep watched)).dispatcher = .between ∧
          ((dispatchStep watched)^[n] (s.dispatchStep watched)).toActor =
            (s.machine.on event).2.foldl .apply (s.dispatchStep watched).toActor :=
      toActor_apply _ (by rw [htake])
    refine ⟨n + 1, hbetween, heffects.trans ?_⟩
    rw [htake, BleActor.process]
    cases htorn : s.torn with
    | false => simp [toActor, hevents, htorn]
    | true =>
      -- a torn machine takes no notice of what is still queued
      have hon : s.machine.on event = (s.machine, []) := if_pos (h.torn htorn)
      simp [toActor, hon, htorn]

end BleThreads

end Conveyance.Phone
