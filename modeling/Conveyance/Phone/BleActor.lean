import Conveyance.Phone.Framing
import Conveyance.Phone.Session

/-!
# The link of the phone (android, transport/ConnectionStateMachine.kt, ble/BleActor.kt)

The lifecycle of one GATT connection, and the actor that runs it. Callbacks of other threads
only queue events; the actor takes them one by one. A frame is written by `notifyOnce`,
which runs on the actor's dispatcher up to the wait for the peer's acknowledgement, and
again behind it. What the GATT server says to a frame, and what is heard of it later, is
up to the radio.
-/

namespace Conveyance.Phone

open Lib Framing

namespace ConnectionStateMachine

inductive State where
  | idle
  | connected
  | mtuKnown
  | subscribed
  | torn
deriving DecidableEq

inductive Event where
  | centralConnected
  | mtuChanged (mtu : Int32)
  | subscribed
  | unsubscribed
  | centralDisconnected
  | adapterOff
  | shutdownRequested
  | notifyFailed

inductive Effect where
  | setMaxWriteLen (bytes : Int32)
  | linkReady
  | tearDown (reason : LinkTeardown)

end ConnectionStateMachine

open ConnectionStateMachine (Effect Event State)

structure ConnectionStateMachine where
  state : State
  negotiatedMtu : Int32

namespace ConnectionStateMachine

def new : ConnectionStateMachine := ⟨.idle, minAttMtu⟩

def maxWriteLen (m : ConnectionStateMachine) : Int32 := maxFramePayload m.negotiatedMtu

def tearDown (m : ConnectionStateMachine) (reason : LinkTeardown) :
    ConnectionStateMachine × List Effect :=
  ({ m with state := .torn }, [.tearDown reason])

/-- The transition and what the actor has to carry out. -/
def on (m : ConnectionStateMachine) (event : Event) : ConnectionStateMachine × List Effect :=
  if m.state = .torn then (m, [])
  else
    match event with
    | .centralConnected =>
      (if m.state = .idle then { m with state := .connected } else m, [])
    | .mtuChanged mtu =>
      -- a nonsensical value behind an exchange is ignored
      if mtu < minAttMtu ∧ m.negotiatedMtu ≠ minAttMtu then (m, [])
      else
        let next : ConnectionStateMachine :=
          ⟨if m.state = .connected then .mtuKnown else m.state, max mtu minAttMtu⟩
        (next, [.setMaxWriteLen next.maxWriteLen])
    | .subscribed =>
      if m.state = .connected ∨ m.state = .mtuKnown then
        ({ m with state := .subscribed }, [.linkReady])
      else (m, [])
    | .unsubscribed =>
      if m.state = .subscribed then m.tearDown .subscriptionLost else (m, [])
    | .centralDisconnected => m.tearDown .peerDisconnected
    | .adapterOff => m.tearDown .adapterOff
    | .shutdownRequested => m.tearDown .localShutdown
    | .notifyFailed => m.tearDown .peerDisconnected

end ConnectionStateMachine

/-! ## The actor -/

structure BleActor where
  machine : ConnectionStateMachine
  /-- The events that wait for the actor. -/
  events : List Event
  /-- The GATT server is attached. -/
  server : Bool
  currentMaxWriteLen : Int32
  torn : Bool
  teardownReason : Option LinkTeardown
  /-- The frames the server has taken. -/
  notified : List (List Int8)

/-- What comes of a frame before the wait for its acknowledgement. -/
inductive Notify where
  | waiting
  /-- A `LinkClosedException`. -/
  | closed (reason : LinkTeardown)
  /-- A failed `require`. -/
  | refused

namespace BleActor

def new : BleActor where
  machine := .new
  events := []
  server := false
  currentMaxWriteLen := maxFramePayload minAttMtu
  torn := false
  teardownReason := none
  notified := []

variable (a : BleActor)

/-- The channel is closed by the teardown. -/
def onEvent (event : Event) : BleActor :=
  if a.torn then a else { a with events := a.events ++ [event] }

def attachServer : BleActor := if a.torn then a else { a with server := true }

def teardown (reason : LinkTeardown) : BleActor :=
  if a.torn then a
  else { a with torn := true, teardownReason := some reason, server := false, events := [] }

def apply : ConnectionStateMachine.Effect → BleActor
  | .setMaxWriteLen bytes => { a with currentMaxWriteLen := bytes }
  -- the link as such has no state of its own
  | .linkReady => a
  | .tearDown reason => a.teardown reason

/-- The next event, with its effects. -/
def process : BleActor :=
  match a.events with
  | [] => a
  | event :: events =>
    (a.machine.on event).2.foldl apply { a with machine := (a.machine.on event).1, events }

/-- A frame that is more than one operation holds. -/
def exceeds (frame : List Int8) : Bool :=
  !decide (size frame ≤ a.currentMaxWriteLen + Int32.ofNat headerLen)

def gone : Bool := a.torn || decide (a.machine.state ≠ .subscribed)

/-- The `require` of `notifyOnce` fails. -/
def refuses (frame : List Int8) : Bool := !a.gone && a.exceeds frame

/-- `notifyOnce` up to its wait. Whether the server takes the frame is given. -/
def notifyOnce (frame : List Int8) (taken : Bool) : BleActor × Notify :=
  if a.gone then (a, .closed (a.teardownReason.getD .localShutdown))
  else if a.exceeds frame then (a, .refused)
  else if ¬ a.server then (a, .closed .localShutdown)
  else if ¬ taken then (a.onEvent .notifyFailed, .closed .peerDisconnected)
  else ({ a with notified := a.notified ++ [frame] }, .waiting)

/-- `notifyOnce` behind its wait: the reason it throws for, if it does. A failed
acknowledgement, a timeout and a closed channel are the same to it. -/
def acknowledge (delivered : Bool) : BleActor × Option LinkTeardown :=
  if delivered then (a, none)
  else if a.torn then (a, some (a.teardownReason.getD .peerDisconnected))
  else (a.onEvent .notifyFailed, some .peerDisconnected)

end BleActor

/-! ## What the actor keeps -/

namespace BleActor

variable {a : BleActor}

/-- The write length is the one of the machine. -/
def Synced (a : BleActor) : Prop := a.currentMaxWriteLen = a.machine.maxWriteLen

theorem Synced.pos (h : a.Synced) : 0 < a.currentMaxWriteLen.toInt := by
  rw [h]
  exact maxFramePayload_pos _

/-- What an actor does to its state and its queue alone. -/
structure Internal (a a' : BleActor) : Prop where
  synced : a.Synced → a'.Synced
  notified : a'.notified = a.notified

theorem Internal.refl (a : BleActor) : Internal a a := ⟨id, rfl⟩

theorem onEvent_internal (event : Event) : Internal a (a.onEvent event) := by
  unfold onEvent
  split_ifs with htorn
  · exact .refl a
  · exact ⟨id, rfl⟩

theorem teardown_fields (reason : LinkTeardown) :
    (a.teardown reason).machine = a.machine ∧ (a.teardown reason).notified = a.notified ∧
      (a.teardown reason).currentMaxWriteLen = a.currentMaxWriteLen := by
  unfold teardown
  split_ifs with htorn
  · exact ⟨rfl, rfl, rfl⟩
  · exact ⟨rfl, rfl, rfl⟩

/-- A transition that keeps the MTU says nothing of the write length, and another one
announces it. -/
theorem on_effects (m : ConnectionStateMachine) (event : Event) :
    ((m.on event).2 = [.setMaxWriteLen (m.on event).1.maxWriteLen]) ∨
      (m.on event).1.negotiatedMtu = m.negotiatedMtu ∧
        ((m.on event).2 = [] ∨ (m.on event).2 = [.linkReady] ∨
          ∃ reason, (m.on event).2 = [.tearDown reason]) := by
  unfold ConnectionStateMachine.on
  by_cases htorn : m.state = .torn
  · rw [if_pos htorn]
    exact .inr ⟨rfl, .inl rfl⟩
  rw [if_neg htorn]
  cases event with
  | centralConnected =>
    refine .inr ⟨?_, .inl rfl⟩
    dsimp only
    split_ifs <;> rfl
  | mtuChanged mtu =>
    dsimp only
    split_ifs
    · exact .inr ⟨rfl, .inl rfl⟩
    · exact .inl rfl
    · exact .inl rfl
  | subscribed =>
    dsimp only
    split_ifs
    · exact .inr ⟨rfl, .inr (.inl rfl)⟩
    · exact .inr ⟨rfl, .inl rfl⟩
  | unsubscribed =>
    dsimp only
    split_ifs
    · exact .inr ⟨rfl, .inr (.inr ⟨_, rfl⟩)⟩
    · exact .inr ⟨rfl, .inl rfl⟩
  | centralDisconnected | adapterOff | shutdownRequested | notifyFailed =>
    exact .inr ⟨rfl, .inr (.inr ⟨_, rfl⟩)⟩

theorem process_internal : Internal a a.process := by
  unfold process
  cases hevents : a.events with
  | nil => exact .refl a
  | cons event events =>
    have hsame : ∀ m : ConnectionStateMachine, m.negotiatedMtu = a.machine.negotiatedMtu →
        a.Synced → a.currentMaxWriteLen = m.maxWriteLen := by
      intro m hmtu hsynced
      rw [hsynced, ConnectionStateMachine.maxWriteLen, ConnectionStateMachine.maxWriteLen, hmtu]
    dsimp only
    rcases on_effects a.machine event with heffects | ⟨hmtu, heffects | heffects | ⟨r, heffects⟩⟩
    · rw [heffects]
      exact ⟨fun _ => rfl, rfl⟩
    · rw [heffects]
      exact ⟨hsame _ hmtu, rfl⟩
    · rw [heffects]
      exact ⟨hsame _ hmtu, rfl⟩
    · rw [heffects]
      obtain ⟨hmachine, hnotified, hlen⟩ :=
        teardown_fields r
      refine ⟨fun hsynced => ?_, hnotified⟩
      show BleActor.currentMaxWriteLen (teardown _ r) = _
      rw [hlen]
      refine (hsame _ hmtu hsynced).trans ?_
      exact congrArg ConnectionStateMachine.maxWriteLen hmachine.symm

/-- **A frame is put on the link exactly if the wait begins.** -/
theorem notifyOnce_effect (frame : List Int8) (taken : Bool) :
    (((a.notifyOnce frame taken).2 = .waiting ∧
        (a.notifyOnce frame taken).1.notified = a.notified ++ [frame]) ∨
      (∃ reason, (a.notifyOnce frame taken).2 = .closed reason) ∧
        (a.notifyOnce frame taken).1.notified = a.notified ∨
      ((a.notifyOnce frame taken).2 = .refused ∧ a.refuses frame = true) ∧
        (a.notifyOnce frame taken).1.notified = a.notified) ∧
      (a.Synced → (a.notifyOnce frame taken).1.Synced) := by
  unfold notifyOnce
  by_cases hgone : a.gone = true
  · rw [if_pos hgone]
    exact ⟨.inr (.inl ⟨⟨_, rfl⟩, rfl⟩), id⟩
  rw [if_neg hgone]
  by_cases hexceeds : a.exceeds frame = true
  · rw [if_pos hexceeds]
    exact ⟨.inr (.inr ⟨⟨rfl, by simp [refuses, hgone, hexceeds]⟩, rfl⟩), id⟩
  rw [if_neg hexceeds]
  by_cases hserver : ¬ a.server = true
  · rw [if_pos hserver]
    exact ⟨.inr (.inl ⟨⟨_, rfl⟩, rfl⟩), id⟩
  rw [if_neg hserver]
  by_cases htaken : ¬ taken = true
  · rw [if_pos htaken]
    obtain ⟨hsynced, hnotified⟩ := onEvent_internal .notifyFailed
    exact ⟨.inr (.inl ⟨⟨_, rfl⟩, hnotified⟩), hsynced⟩
  · rw [if_neg htaken]
    exact ⟨.inl ⟨rfl, rfl⟩, id⟩

theorem acknowledge_internal (delivered : Bool) : Internal a (a.acknowledge delivered).1 := by
  unfold acknowledge
  split_ifs
  · exact .refl a
  · exact .refl a
  · exact onEvent_internal _

end BleActor

end Conveyance.Phone
