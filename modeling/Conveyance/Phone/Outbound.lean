import Conveyance.Phone.BleActor
import Conveyance.Phone.SessionStart

/-!
# Sending over a live session (android, session/PhoneSession.kt, ble/BleActor.kt)

`send` encrypts, numbers and frames a message under `sendMutex` and then writes one frame
after the other. A write crosses to the dispatcher of the link and back, so that the caller
may be cancelled and the link may change in the middle of a message, when the nonce of the
Noise session and the sequence number have been taken.

`Outbound` is a live session with its callers and the actor of its link. The rest of the
session runs beside it as in `Host`. `sendFramed` ends the session when the link is closed
under a message. It does not when the caller is cancelled or a frame no longer fits the
link: a step is `Uncut` if it is neither of the two in a live session.
-/

namespace Conveyance.Phone

open Lib Framing
open Conveyance.Core (SessionState EndReason TimerEvent)

/-! ## The callers -/

/-- Where a caller of `send` is. -/
inductive SendPc where
  /-- On the way to the dispatcher, or to the lock. -/
  | waiting (plaintext : Bytes)
  /-- In `link.send`, in front of the GATT server. -/
  | writing (frame : List Int8) (rest : List (List Int8))
  /-- The server has the frame. -/
  | notified (rest : List (List Int8))
  /-- `link.send` has returned, and the caller is on the way back. -/
  | accepted (rest : List (List Int8))
  /-- A `LinkClosedException` is on the way back. -/
  | closing (left : List (List Int8)) (reason : LinkTeardown)
  /-- An `IllegalArgumentException` is. -/
  | failing (left : List (List Int8))
  | finished (result : SendResult)
deriving DecidableEq

namespace SendPc

/-- With `sendMutex`. -/
def holds : SendPc → Bool
  | .waiting _ => false
  | .finished _ => false
  | _ => true

/-- The frames that have not been put on the link. -/
def left : SendPc → List (List Int8)
  | .writing frame rest => frame :: rest
  | .notified rest => rest
  | .accepted rest => rest
  | .closing left _ => left
  | .failing left => left
  | _ => []

/-- Some frame of the message is still to be accepted. -/
def midway : SendPc → Bool
  | .writing _ _ => true
  | .notified _ => true
  | .accepted (_ :: _) => true
  | _ => false

def stopped : SendPc → Bool
  | .finished (.stopped _) => true
  | _ => false

/-- A refused frame is reported. -/
def refused : SendPc → Bool
  | .failing _ => true
  | _ => false

/-- The caller is cancelled. An exception that is on its way arrives all the same. -/
def cancel : SendPc → SendPc
  | .waiting _ => .finished .cancelled
  | .writing _ _ => .finished (.stopped .cancelled)
  | .notified _ => .finished (.stopped .cancelled)
  | .accepted [] => .finished .cancelled
  | .accepted (_ :: _) => .finished (.stopped .cancelled)
  | .closing left reason => .closing left reason
  | .failing left => .failing left
  | .finished result => .finished result

end SendPc

/-- A live session, its callers and its link. -/
structure Outbound (E : Endpoint) where
  host : Host E
  actor : BleActor
  sends : List SendPc
  /-- What `encrypt` has returned. -/
  messages : List Bytes

inductive OutboundStep where
  /-- The link. -/
  | post (event : ConnectionStateMachine.Event)
  | process
  /-- The rest of the session. -/
  | host (step : HostStep)
  /-- The callers. -/
  | call (plaintext : Bytes)
  | cancel (i : Nat)
  | acquire (i : Nat)
  | notify (i : Nat) (taken : Bool)
  | acknowledge (i : Nat) (delivered : Bool)
  | resume (i : Nat)

namespace Outbound

variable {E : Endpoint}

variable (o : Outbound E)

/-- The frames on the link. -/
def wire : List (List Int8) := o.actor.notified

def session : PhoneSession E := o.host.session

/-- The session goes on. A session that is left shuts its link down. -/
def onHost (host : Host E) : Outbound E :=
  { o with
    host
    actor := if host.session.linkDown ∧ ¬ o.session.linkDown then
      o.actor.onEvent .shutdownRequested else o.actor }

def onSession (session : PhoneSession E) : Outbound E :=
  o.onHost { o.host with session }

def setSend (i : Nat) (pc : SendPc) : Outbound E :=
  { o with sends := o.sends.set i pc }

/-- `sendMutex` is taken. -/
def locked : Bool := o.sends.any SendPc.holds

/-- The next frame, or the end of `send`. -/
def writeNext (i : Nat) : List (List Int8) → Outbound E
  | [] => (o.onSession o.session.recordActivity).setSend i (.finished .returned)
  | frame :: rest => o.setSend i (.writing frame rest)

/-- `sendFramed` up to its first write. -/
def sendFramed (i : Nat) (message : Bytes) : Outbound E :=
  match split (octets message) o.actor.currentMaxWriteLen (Int32.ofNat o.session.txSeq) with
  | .error _ => o.setSend i (.finished (.stopped .unsplit))
  | .ok result =>
    (o.onSession { o.session with txSeq := result.nextSeq.toNatClampNeg }).writeNext i result.frames

/-- `send` with the lock. -/
def acquire (i : Nat) (plaintext : Bytes) : Outbound E :=
  if ¬ isLive o.session.state then o.setSend i (.finished (.rejected .notActive))
  else
    match o.session.noise with
    -- a live session has its Noise session
    | none => o
    | some noise =>
      match E.encrypt noise plaintext with
      | .error e =>
        (o.onSession (o.session.endFor .protocolViolation)).setSend i (.finished (.rejected e))
      | .ok (noise, message) =>
        { o.onSession { o.session with noise := some noise } with
          messages := o.messages ++ [message] }.sendFramed i message

/-- `link.send` in front of the GATT server. -/
def notify (i : Nat) (frame : List Int8) (rest : List (List Int8))
    (taken : Bool) : Outbound E :=
  match o.actor.notifyOnce frame taken with
  | (actor, .waiting) => { o with actor }.setSend i (.notified rest)
  | (actor, .closed reason) => { o with actor }.setSend i (.closing (frame :: rest) reason)
  | (actor, .refused) => { o with actor }.setSend i (.failing (frame :: rest))

/-- `link.send` behind its wait. -/
def acknowledge (i : Nat) (rest : List (List Int8)) (delivered : Bool) :
    Outbound E :=
  match o.actor.acknowledge delivered with
  | (actor, none) => { o with actor }.setSend i (.accepted rest)
  | (actor, some reason) => { o with actor }.setSend i (.closing rest reason)

/-- Back on the dispatcher of the session. -/
def resume (i : Nat) : SendPc → Outbound E
  | .accepted rest => o.writeNext i rest
  | .closing _ reason =>
    match o.session.linkClosed reason with
    | (session, e) => (o.onSession session).setSend i (.finished (.stopped (.closed e)))
  | .failing _ => o.setSend i (.finished (.stopped .refused))
  | _ => o

/-- One step. A step that is not enabled does nothing. -/
def step : OutboundStep → Outbound E
  | .post event => { o with actor := o.actor.onEvent event }
  | .process => { o with actor := o.actor.process }
  | .host step => if step.besides then o.onHost (o.host.step step) else o
  | .call plaintext => { o with sends := o.sends ++ [.waiting plaintext] }
  | .cancel i =>
    match o.sends[i]? with
    | some pc => o.setSend i pc.cancel
    | none => o
  | .acquire i =>
    match o.sends[i]? with
    | some (.waiting plaintext) => if o.locked then o else o.acquire i plaintext
    | _ => o
  | .notify i taken =>
    match o.sends[i]? with
    | some (.writing frame rest) => o.notify i frame rest taken
    | _ => o
  | .acknowledge i delivered =>
    match o.sends[i]? with
    | some (.notified rest) => o.acknowledge i rest delivered
    | _ => o
  | .resume i =>
    match o.sends[i]? with
    | some pc => o.resume i pc
    | none => o

def run (steps : List OutboundStep) : Outbound E := steps.foldl step o

/-- What the send with the lock has still to put on the link. -/
def left : List (List Int8) := o.sends.flatMap SendPc.left

end Outbound

/-! ## The rest of the session -/

section Besides

variable {E : Endpoint} {s : PhoneSession E} {h : Host E}

theorem begun_of_live {state : SessionState} (h : isLive state = true) : Begun state :=
  ⟨(isLive_ne h).2.1, (isLive_ne h).1⟩

theorem Begun.ended {state : SessionState} (h : Begun state) (hlive : isLive state = false) :
    state = .ended := by
  obtain ⟨hhandshaking, hnone⟩ := h
  cases state <;> simp_all [isLive]

theorem SessionChange.begun {c c' : SessionCore} (h : SessionChange c c') (hc : Begun c.state) :
    Begun c'.state := by
  by_cases hlive : isLive c.state = true
  · exact h.live_stays hlive
  · have hended := hc.ended (by simpa using hlive)
    rw [h.ended_stays hended]
    exact ⟨by decide, by decide⟩

theorem txSeq_closeNoise : s.closeNoise.txSeq = s.txSeq := by
  unfold PhoneSession.closeNoise
  split_ifs <;> rfl

theorem txSeq_applyEvent (event : Core.Event) : (s.applyEvent event).1.txSeq = s.txSeq := by
  unfold PhoneSession.applyEvent
  cases SessionStateMachine.step s.state event <;> rfl

theorem txSeq_terminate (event : Core.Event) (reason : EndReason) :
    (s.terminate event reason).txSeq = s.txSeq := by
  cases htarget : SessionStateMachine.target s.state event with
  | none => rw [terminate_illegal htarget]
  | some target =>
    rw [terminate_moved htarget]
    exact txSeq_closeNoise

/-- Out of a session there is no way back into its handshake. -/
theorem Act.txSeq {s' : PhoneSession E} (h : Act s s') (hbegun : Begun s.state) :
    s'.txSeq = s.txSeq := by
  cases h with
  | keep => rfl
  | claimed =>
    unfold PhoneSession.claim
    split_ifs <;> rfl
  | aborted _ hstate | promoted hstate => exact absurd hstate hbegun.1
  | lived => exact txSeq_applyEvent _
  | terminated reason => exact txSeq_terminate _ reason

theorem failStart_begun (hbegun : Begun h.session.state) (e : SessionException) :
    (h.failStart e).session = h.session := by
  unfold Host.failStart PhoneSession.abortHandshake
  rw [if_neg (not_or.mpr hbegun)]

/-- **What runs beside `send`** does not revive a session, and keeps the numbering. -/
theorem step_besides (hbegun : Begun h.session.state) {l : HostStep} (hl : l.besides = true) :
    SessionChange h.session.core (h.step l).session.core ∧
      (h.step l).session.txSeq = h.session.txSeq := by
  have hacts : ∀ {s'}, Act h.session s' →
      SessionChange h.session.core s'.core ∧ s'.txSeq = h.session.txSeq :=
    fun hact => ⟨hact.change, hact.txSeq hbegun⟩
  by_cases hback : l.background = true
  · obtain ⟨hstill, hact⟩ := (step_beside hback).does
    rw [Begun, ← show _ = h.session.state from congrArg SessionCore.state hstill.core] at hbegun
    exact ⟨(Does.mk hstill hact).change, (hact.txSeq hbegun).trans (hstill.txSeq hl)⟩
  cases l with
  | call =>
    rw [Host.step]
    split_ifs
    · exact hacts .claimed
    · exact hacts .keep
    · exact hacts .keep
  | resumeTimeout =>
    rw [Host.step]
    split_ifs
    · rw [failStart_begun hbegun]
      exact hacts .keep
    · exact hacts .keep
  | clean =>
    rw [Host.step]
    split_ifs
    · obtain ⟨s', hstop, hact⟩ := stop_act (fun s => s.endFor .userEnded)
        (endFor_act _)
      rw [hstop]
      exact hacts hact
    · exact hacts .keep
  | enter | frame | lateFrame => cases hl
  -- the other steps of `start` leave the session alone
  | enterCancelled | resumeDone | resumeCancelled | leave | leaveCancelled =>
    rw [Host.step]
    split <;> exact hacts .keep
  | _ => exact absurd rfl hback

end Besides

/-! ## Messages in order -/

/-- Messages in frames, one behind the other, each at a write length of its own. The numbers
run on from `first`. -/
inductive Framed (first : UInt16) : List Bytes → List (List Int8) → UInt16 → Prop where
  | nil : Framed first [] [] first
  | snoc {messages : List Bytes} {frames more : List (List Int8)} {next last : UInt16}
      {message : Bytes} {maxPayload : Int32} :
      Framed first messages frames next →
      split (octets message) maxPayload (word next) = .ok ⟨more, word last⟩ →
      Framed first (messages ++ [message]) (frames ++ more) last

variable {first : UInt16} {E : Endpoint} {o : Outbound E}

/-- The frames of all messages are numbered consecutively. -/
theorem Framed.numbered {next : UInt16} {messages : List Bytes} {frames : List (List Int8)}
    (h : Framed first messages frames next) :
    next = first + UInt16.ofNat frames.length ∧
      ∀ k frame, frames[k]? = some frame → seqOf frame = word (first + UInt16.ofNat k) := by
  induction h with
  | nil => exact ⟨(UInt16.add_zero first).symm, by simp⟩
  | @snoc messages frames more next last message maxPayload _ hsplit ih =>
    obtain ⟨hnext, hnumbered⟩ := ih
    obtain ⟨hlast, hmore⟩ := split_numbered hsplit
    refine ⟨?_, fun k frame hframe => ?_⟩
    · rw [word_inj.mp hlast, hnext, List.length_append, UInt16.ofNat_add, UInt16.add_assoc]
    · by_cases hk : k < frames.length
      · rw [List.getElem?_append_left hk] at hframe
        exact hnumbered k frame hframe
      · have hk : frames.length ≤ k := Nat.le_of_not_lt hk
        rw [List.getElem?_append_right hk] at hframe
        rw [hmore _ frame hframe, hnext, UInt16.add_assoc, ← UInt16.ofNat_add,
          Nat.add_sub_cancel' hk]

/-- What `send` keeps, seen from the link. -/
structure AllOrNothing {E : Endpoint} (first : UInt16) (o : Outbound E) : Prop where
  /-- The link has the messages in the order of their encryption. While the session is live,
  it lacks only what the send with the lock has left. -/
  inOrder : ∃ frames next, Framed first o.messages frames next ∧ o.wire <+: frames ∧
    (isLive o.session.state = true → o.wire ++ o.left = frames)
  /-- Only the last message may be cut off. -/
  complete : ∀ earlier last, o.messages = earlier ++ [last] →
    ∃ frames next, Framed first earlier frames next ∧ frames <+: o.wire
  numbered : ∀ k frame, o.wire[k]? = some frame → seqOf frame = word (first + UInt16.ofNat k)
  /-- A send that stops ends the session, and no frame follows. -/
  last : (∃ pc ∈ o.sends, pc.stopped = true) →
    o.session.state = .ended ∧ ∀ more, (o.run more).wire = o.wire

/-- While the session is live, no caller is cancelled in the middle of a message, and none
learns that the link has refused a frame. -/
def Uncut {E : Endpoint} (o : Outbound E) : OutboundStep → Prop
  | .cancel i => o.sends[i]?.any SendPc.midway = true → isLive o.session.state = false
  | .resume i => o.sends[i]?.any SendPc.refused = true → isLive o.session.state = false
  | _ => True

instance decidableUncut {E : Endpoint} (o : Outbound E) : ∀ l, Decidable (Uncut o l)
  | .cancel _ => inferInstanceAs (Decidable (_ → _))
  | .resume _ => inferInstanceAs (Decidable (_ → _))
  | .post _ => .isTrue trivial
  | .process => .isTrue trivial
  | .host _ => .isTrue trivial
  | .call _ => .isTrue trivial
  | .acquire _ => .isTrue trivial
  | .notify _ _ => .isTrue trivial
  | .acknowledge _ _ => .isTrue trivial

/-! ## The lock -/

section Lock

variable {sends : List SendPc} {i : Nat} {pc pc' : SendPc}

def Free (sends : List SendPc) : Prop := ∀ pc ∈ sends, pc.holds = false

def Unstopped (sends : List SendPc) : Prop := ∀ pc ∈ sends, pc.stopped = false

/-- At most one caller has `sendMutex`. -/
def Alone (sends : List SendPc) : Prop := sends.countP SendPc.holds ≤ 1

theorem countP_eq_zero : sends.countP SendPc.holds = 0 ↔ Free sends := by
  simp [List.countP_eq_zero, Free]

/-- A caller and the others. -/
structure At (sends : List SendPc) (i : Nat) (pc : SendPc) (before after : List SendPc) :
    Prop where
  eq : sends = before ++ pc :: after
  set : ∀ pc', sends.set i pc' = before ++ pc' :: after

theorem exists_at (hi : sends[i]? = some pc) : ∃ before after, At sends i pc before after := by
  obtain ⟨hlt, rfl⟩ := List.getElem?_eq_some_iff.mp hi
  have hset : ∀ pc', sends.set i pc' = sends.take i ++ pc' :: sends.drop (i + 1) := by
    intro pc'
    rw [List.set_eq_take_append_cons_drop, if_pos hlt]
  exact ⟨_, _, (List.set_getElem_self hlt).symm.trans (hset _), hset⟩

theorem holds_of_left (h : pc.holds = false) : pc.left = [] := by
  cases pc <;> first | rfl | cases h

theorem left_of_free (h : Free sends) : sends.flatMap SendPc.left = [] :=
  List.flatMap_eq_nil_iff.mpr fun pc hpc => holds_of_left (h pc hpc)

theorem free_of_unlocked (h : sends.any SendPc.holds = false) : Free sends := by
  simpa [Free] using h

variable {before after : List SendPc}

section

variable (h : At sends i pc before after)

include h

theorem At.countP (pc' : SendPc) :
    (sends.set i pc').countP SendPc.holds =
      before.countP SendPc.holds + after.countP SendPc.holds + pc'.holds.toNat := by
  rw [h.set, List.countP_append, List.countP_cons]
  cases pc'.holds <;> simp
  omega

theorem At.set_self : sends.set i pc = sends :=
  (h.set pc).trans h.eq.symm

/-- What the one caller has left is all that is left. -/
theorem At.left (hbefore : Free before) (hafter : Free after)
    (pc' : SendPc) : (sends.set i pc').flatMap SendPc.left = pc'.left := by
  rw [h.set, List.flatMap_append, List.flatMap_cons, left_of_free hbefore, left_of_free hafter,
    List.append_nil, List.nil_append]

/-- Nobody but caller `i` has it. -/
structure FreeBut (sends : List SendPc) (i : Nat) : Prop where
  alone : ∀ pc', Alone (sends.set i pc')
  free : ∀ {pc'}, pc'.holds = false → Free (sends.set i pc')
  left : ∀ pc', (sends.set i pc').flatMap SendPc.left = pc'.left

theorem At.freeBut
    (hothers : before.countP SendPc.holds + after.countP SendPc.holds = 0) : FreeBut sends i := by
  obtain ⟨hbefore, hafter⟩ := Nat.add_eq_zero_iff.mp hothers
  refine ⟨fun pc' => ?_, fun {pc'} hpc => ?_,
    h.left (countP_eq_zero.mp hbefore) (countP_eq_zero.mp hafter)⟩
  · rw [Alone, h.countP, hothers, Nat.zero_add]
    exact Bool.toNat_le _
  · rw [← countP_eq_zero, h.countP, hothers, hpc]
    rfl

end

theorem Alone.others (h : Alone sends) (hi : sends[i]? = some pc) (hpc : pc.holds = true) :
    FreeBut sends i := by
  obtain ⟨before, after, hat⟩ := exists_at hi
  refine hat.freeBut ?_
  rw [Alone, ← hat.set_self, hat.countP, hpc, Bool.toNat_true] at h
  omega

theorem Free.others (h : Free sends) (hi : sends[i]? = some pc) : FreeBut sends i := by
  obtain ⟨before, after, hat⟩ := exists_at hi
  refine hat.freeBut ?_
  rw [← countP_eq_zero, ← hat.set_self, hat.countP] at h
  omega

theorem Alone.set (h : Alone sends) (hi : sends[i]? = some pc)
    (hpc : pc'.holds = true → pc.holds = true) : Alone (sends.set i pc') := by
  obtain ⟨before, after, hat⟩ := exists_at hi
  rw [Alone, ← hat.set_self, hat.countP] at h
  rw [Alone, hat.countP]
  have hle : pc'.holds.toNat ≤ pc.holds.toNat := Bool.toNat_le_toNat hpc
  omega

end Lock

/-! ## The invariant -/

section Invariant

variable {E : Endpoint} {first : UInt16} {o : Outbound E} {i : Nat} {pc pc' : SendPc}

/-- What the steps keep. Frames are lost only behind a send that has stopped. -/
structure OutboundInv (first : UInt16) (o : Outbound E) : Prop where
  synced : o.actor.Synced
  begun : Begun o.session.state
  alone : Alone o.sends
  stopped : (∃ pc ∈ o.sends, pc.stopped = true) → o.session.state = .ended ∧ Free o.sends
  framed : ∃ frames next, Framed first o.messages frames next ∧ o.session.txSeq = next.toNat ∧
    o.wire <+: frames ∧ (Unstopped o.sends → o.wire ++ o.left = frames)
  complete : ∀ earlier last, o.messages = earlier ++ [last] →
    ∃ frames next, Framed first earlier frames next ∧ frames <+: o.wire

theorem unstopped_of_not (h : ¬ ∃ pc ∈ o.sends, pc.stopped = true) : Unstopped o.sends := by
  intro pc hpc
  by_contra hstopped
  exact h ⟨pc, hpc, by simpa using hstopped⟩

/-- A caller that has not stopped is put among others that have not. -/
theorem Unstopped.set {sends : List SendPc} (h : Unstopped sends) (hpc : pc.stopped = false) :
    ¬ ∃ pc' ∈ sends.set i pc, pc'.stopped = true := by
  rintro ⟨other, hmem, hother⟩
  rcases List.mem_or_eq_of_mem_set hmem with hmem | rfl
  · exact absurd (h other hmem) (by simp [hother])
  · exact absurd hother (by simp [hpc])

variable (hinv : OutboundInv first o)

include hinv

/-- In a live session nothing is lost. -/
theorem OutboundInv.unstopped_of_live (hlive : isLive o.session.state = true) : Unstopped o.sends :=
  unstopped_of_not fun h => (isLive_ne hlive).2.2 (hinv.stopped h).1

/-- Nor while a caller has the lock. -/
theorem OutboundInv.unstopped_of_holds (hi : o.sends[i]? = some pc)
    (hholds : pc.holds = true) : Unstopped o.sends :=
  unstopped_of_not fun h =>
    absurd ((hinv.stopped h).2 pc (List.mem_of_getElem? hi)) (by simp [hholds])

theorem OutboundInv.internal {actor : BleActor}
    (h : BleActor.Internal o.actor actor) : OutboundInv first { o with actor } := by
  have hwire : Outbound.wire { o with actor } = o.wire := h.notified
  refine { hinv with synced := h.synced hinv.synced, framed := ?_, complete := ?_ }
  · rw [hwire]
    exact hinv.framed
  · rw [hwire]
    exact hinv.complete

/-- The session's own steps. -/
theorem OutboundInv.onHost {host : Host E}
    (hchange : SessionChange o.session.core host.session.core)
    (hseq : host.session.txSeq = o.session.txSeq) : OutboundInv first (o.onHost host) := by
  have hinternal : BleActor.Internal o.actor (o.onHost host).actor := by
    show BleActor.Internal _ (ite _ _ _)
    split_ifs
    · exact BleActor.onEvent_internal _
    · exact .refl _
  have hmoved := hinv.internal hinternal
  obtain ⟨frames, next, hframed, hnext, hrest⟩ := hmoved.framed
  exact { hmoved with
    begun := hchange.begun hinv.begun
    stopped := fun h => (hinv.stopped h).imp_left hchange.ended_stays
    framed := ⟨frames, next, hframed, hseq.trans hnext, hrest⟩ }

theorem OutboundInv.act {session : PhoneSession E}
    (hact : Act o.session session) : OutboundInv first (o.onSession session) :=
  hinv.onHost hact.change (hact.txSeq hinv.begun)

/-- A caller moves on with the frames it has left. -/
theorem OutboundInv.set (hi : o.sends[i]? = some pc)
    (hleft : pc'.left = pc.left) (hholds : pc'.holds = true → pc.holds = true)
    (hstops : pc'.stopped = false) (hpc : pc.stopped = false) :
    OutboundInv first (o.setSend i pc') := by
  obtain ⟨frames, next, hframed, hnext, hwire, hall⟩ := hinv.framed
  refine ⟨hinv.synced, hinv.begun, hinv.alone.set hi hholds, ?_,
    ⟨frames, next, hframed, hnext, hwire, fun hunstopped => ?_⟩, hinv.complete⟩
  · rintro ⟨other, hmem, hother⟩
    rcases List.mem_or_eq_of_mem_set hmem with hmem | rfl
    · obtain ⟨hended, hfree⟩ := hinv.stopped ⟨other, hmem, hother⟩
      refine ⟨hended, (hfree.others hi).free ?_⟩
      by_contra hnot
      exact absurd (hfree pc (List.mem_of_getElem? hi)) (by simp [hholds (by simpa using hnot)])
    · exact absurd hother (by simp [hstops])
  · obtain ⟨before, after, hat⟩ := exists_at hi
    have hunstopped : Unstopped (o.sends.set i pc') := hunstopped
    have hkept : Unstopped o.sends := by
      rw [Unstopped, hat.set] at hunstopped
      rw [Unstopped, hat.eq]
      -- who else has stopped is still there
      simp only [List.forall_mem_append, List.forall_mem_cons] at hunstopped ⊢
      exact ⟨hunstopped.1, hpc, hunstopped.2.2⟩
    rw [← hall hkept]
    show o.wire ++ (o.sends.set i pc').flatMap SendPc.left = o.wire ++ o.sends.flatMap _
    rw [hat.set, hat.eq, List.flatMap_append, List.flatMap_append, List.flatMap_cons,
      List.flatMap_cons, hleft]

/-- A caller stops in an ended session. -/
theorem OutboundInv.stop (hi : o.sends[i]? = some pc)
    (hholds : pc.holds = true) (hended : o.session.state = .ended) (cause : Stop) :
    OutboundInv first (o.setSend i (.finished (.stopped cause))) := by
  have hbut := hinv.alone.others hi hholds
  obtain ⟨frames, next, hframed, hnext, hwire, -⟩ := hinv.framed
  refine ⟨hinv.synced, hinv.begun, hbut.alone _, fun _ => ⟨hended, hbut.free rfl⟩,
    ⟨frames, next, hframed, hnext, hwire, ?_⟩, hinv.complete⟩
  intro hunstopped
  -- the send that stops is among them
  have hmem := List.mem_set (List.getElem?_eq_some_iff.mp hi).1 (.finished (.stopped cause))
  exact absurd (hunstopped _ hmem) (by simp [SendPc.stopped])

/-- The next frame of the one that has the lock is put on the link. -/
theorem OutboundInv.put {frame : List Int8}
    {rest : List (List Int8)} (hi : o.sends[i]? = some (.writing frame rest)) {actor : BleActor}
    (hsynced : actor.Synced) (hnotified : actor.notified = o.actor.notified ++ [frame]) :
    OutboundInv first ({ o with actor }.setSend i (.notified rest)) := by
  have hbut := hinv.alone.others hi rfl
  have hunstopped := hinv.unstopped_of_holds hi rfl
  obtain ⟨frames, next, hframed, hnext, -, hall⟩ := hinv.framed
  have hwire : Outbound.wire ({ o with actor }.setSend i (.notified rest)) = o.wire ++ [frame] :=
    hnotified
  -- what is on the link and what is left still make up all frames
  have hmoved : (o.wire ++ [frame]) ++ rest = frames := by
    have hbefore : o.left = frame :: rest := by
      obtain ⟨before, after, hat⟩ := exists_at hi
      rw [Outbound.left, ← hat.set_self]
      exact hbut.left _
    rw [← hall hunstopped, hbefore]
    simp
  refine ⟨hsynced, hinv.begun, hbut.alone _, fun hstopped => absurd hstopped (hunstopped.set rfl),
    ⟨frames, next, hframed, hnext, ?_, fun _ => ?_⟩, fun earlier last hmessages => ?_⟩
  · rw [hwire]
    exact ⟨rest, hmoved⟩
  · rw [hwire]
    exact (congrArg (_ ++ ·) (hbut.left _)).trans hmoved
  · obtain ⟨whole, next', hwhole, hbefore⟩ := hinv.complete earlier last hmessages
    refine ⟨whole, next', hwhole, ?_⟩
    rw [hwire]
    exact hbefore.trans (List.prefix_append _ _)

/-- A message is framed behind the others. -/
theorem OutboundInv.extend (hlive : isLive o.session.state = true)
    (hfree : Free o.sends) (hi : o.sends[i]? = some pc) {message : Bytes} {maxPayload : Int32}
    {last : UInt16} (pc' : SendPc)
    (hsplit : split (octets message) maxPayload (Int32.ofNat o.session.txSeq) =
      .ok ⟨pc'.left, word last⟩) (hstops : pc'.stopped = false) {o' : Outbound E}
    (hactor : o'.actor = o.actor) (hsends : o'.sends = o.sends.set i pc')
    (hmessages : o'.messages = o.messages ++ [message])
    (hchange : SessionChange o.session.core o'.session.core)
    (hseq : o'.session.txSeq = last.toNat) : OutboundInv first o' := by
  obtain ⟨host, actor, sends, messages⟩ := o'
  subst hactor hsends hmessages
  have hunstopped := hinv.unstopped_of_live hlive
  obtain ⟨frames, next, hframed, hnext, -, hall⟩ := hinv.framed
  have hwhole : o.wire = frames := by
    rw [← hall hunstopped, Outbound.left, left_of_free hfree, List.append_nil]
  rw [hnext] at hsplit
  refine ⟨hinv.synced, hchange.begun hinv.begun, (hfree.others hi).alone _,
    fun hstopped => absurd hstopped (hunstopped.set hstops),
    ⟨frames ++ pc'.left, last, hframed.snoc hsplit, hseq, ?_, fun _ => ?_⟩,
    fun earlier message' hmessages => ?_⟩
  · show o.wire <+: _
    rw [hwhole]
    exact List.prefix_append _ _
  · exact congrArg₂ (· ++ ·) hwhole ((hfree.others hi).left pc')
  · -- the messages before it are complete
    have hearlier : o.messages = earlier := List.append_inj_left' hmessages rfl
    refine ⟨frames, next, hearlier ▸ hframed, ?_⟩
    exact hwhole ▸ List.prefix_rfl

end Invariant

/-! ## The steps -/

/-- A Noise message has at most 65535 bytes. -/
def NoiseBounded (E : Endpoint) : Prop :=
  ∀ noise plaintext noise' message, E.encrypt noise plaintext = .ok (noise', message) →
    message.length ≤ 65535

section Steps

variable {E : Endpoint} {first : UInt16} {o : Outbound E} {i : Nat}

theorem onSession_actor {session : PhoneSession E}
    (hlink : session.linkDown = o.session.linkDown) : (o.onSession session).actor = o.actor := by
  show (if session.linkDown = true ∧ ¬ o.session.linkDown = true then _ else _) = _
  rw [hlink, if_neg (fun h => h.2 h.1)]

variable {s : PhoneSession E} {rest : List (List Int8)} {message plaintext : Bytes} {pc : SendPc}

theorem recordActivity_linkDown : s.recordActivity.linkDown = s.linkDown := by
  unfold PhoneSession.recordActivity PhoneSession.applyEvent
  cases SessionStateMachine.step s.state .activity <;> rfl

/-- The end of a write, or of a message. -/
theorem writeNext_inv (hinv : OutboundInv first o) (hi : o.sends[i]? = some (.accepted rest)) :
    OutboundInv first (o.writeNext i rest) := by
  cases rest with
  | nil =>
    have hrecorded := hinv.act (.lived lively_activity)
    have hi : (o.onSession o.session.recordActivity).sends[i]? = some (.accepted []) := hi
    exact hrecorded.set hi rfl (fun _ => rfl) rfl rfl
  | cons frame rest => exact hinv.set hi rfl (fun _ => rfl) rfl rfl

theorem sendFramed_ok {result : SplitResult}
    (h : split (octets message) o.actor.currentMaxWriteLen (Int32.ofNat o.session.txSeq) =
      .ok result) :
    o.sendFramed i message =
      (o.onSession { o.session with txSeq := result.nextSeq.toNatClampNeg }).writeNext i
        result.frames := by
  unfold Outbound.sendFramed
  rw [h]

/-- A message that was encrypted in a live session is split and numbered behind the others. -/
theorem sendFramed_inv (hinv : OutboundInv first o) (hlive : isLive o.session.state = true)
    (hfree : Free o.sends) (hi : o.sends[i]? = some (.waiting plaintext))
    (hlen : message.length ≤ 65535) :
    OutboundInv first ({ o with messages := o.messages ++ [message] }.sendFramed i message) := by
  obtain ⟨frames, next, -, hnext, -⟩ := hinv.framed
  have hword : Int32.ofNat o.session.txSeq = word next := by
    rw [hnext]
    rfl
  obtain ⟨result, hsplit⟩ := split_ok next hlen hinv.synced.pos
  obtain ⟨hlast, -⟩ := split_numbered hsplit
  rw [← hword] at hsplit
  have hseq : result.nextSeq.toNatClampNeg = (next + UInt16.ofNat result.frames.length).toNat := by
    rw [hlast]
    exact Int32.toNatClampNeg_ofNat_of_lt
      (by have := (next + UInt16.ofNat result.frames.length).toNat_lt; omega)
  have hsplit' : split (octets message) o.actor.currentMaxWriteLen
      (Int32.ofNat o.session.txSeq) =
        .ok ⟨result.frames, word (next + UInt16.ofNat result.frames.length)⟩ := by
    rw [hsplit, ← hlast]
  rw [sendFramed_ok (o := { o with messages := o.messages ++ [message] }) hsplit]
  generalize next + UInt16.ofNat result.frames.length = last at hseq hsplit'
  have hsame : (Outbound.onSession { o with messages := o.messages ++ [message] }
      { o.session with txSeq := result.nextSeq.toNatClampNeg }).actor = o.actor :=
    onSession_actor rfl
  cases hframes : result.frames with
  | nil =>
    rw [hframes] at hsplit'
    have hrecorded : SessionChange o.session.core (PhoneSession.recordActivity
        { o.session with txSeq := result.nextSeq.toNatClampNeg }).core :=
      applyEvent_lived (s := { o.session with txSeq := result.nextSeq.toNatClampNeg })
        lively_activity
    exact hinv.extend hlive hfree hi (.finished .returned) hsplit' rfl
      ((onSession_actor recordActivity_linkDown).trans hsame) rfl rfl hrecorded
      ((txSeq_applyEvent _).trans hseq)
  | cons frame rest =>
    rw [hframes] at hsplit'
    exact hinv.extend hlive hfree hi (.writing frame rest) hsplit' rfl hsame rfl rfl .keep hseq

theorem acquire_inv (hnoise : NoiseBounded E) (hinv : OutboundInv first o) (hfree : Free o.sends)
    (hi : o.sends[i]? = some (.waiting plaintext)) : OutboundInv first (o.acquire i plaintext) := by
  have hreject : ∀ {o' : Outbound E} (e : SessionException), OutboundInv first o' →
      o'.sends[i]? = some (.waiting plaintext) →
      OutboundInv first (o'.setSend i (.finished (.rejected e))) := by
    intro o' e hinv' hi'
    refine hinv'.set hi' rfl (fun h => ?_) rfl rfl
    cases h
  unfold Outbound.acquire
  by_cases hlive : ¬ isLive o.session.state = true
  · rw [if_pos hlive]
    exact hreject _ hinv hi
  rw [if_neg hlive]
  cases hsession : o.session.noise with
  | none => exact hinv
  | some noise =>
    dsimp only
    cases hencrypt : E.encrypt noise plaintext with
    | error e => exact hreject e (hinv.act (endFor_act _)) hi
    | ok result =>
      exact sendFramed_inv
        (hinv.onHost .keep rfl) (not_not.mp hlive) hfree hi
        (hnoise noise plaintext result.1 result.2 hencrypt)

theorem notify_inv (hinv : OutboundInv first o) {frame : List Int8}
    (hi : o.sends[i]? = some (.writing frame rest)) (taken : Bool) :
    OutboundInv first (o.notify i frame rest taken) := by
  obtain ⟨heffect, hsynced⟩ := BleActor.notifyOnce_effect frame taken
  unfold Outbound.notify
  rcases hnotify : o.actor.notifyOnce frame taken with ⟨actor, outcome⟩
  rw [hnotify] at heffect hsynced
  dsimp only at heffect hsynced
  have hinternal : actor.notified = o.actor.notified → OutboundInv first { o with actor } :=
    fun h => hinv.internal ⟨hsynced, h⟩
  rcases heffect with ⟨rfl, hput⟩ | ⟨⟨reason, rfl⟩, hsame⟩ | ⟨⟨rfl, -⟩, hsame⟩
  · exact hinv.put hi (hsynced hinv.synced) hput
  · exact (hinternal hsame).set hi rfl (fun _ => rfl) rfl rfl
  · exact (hinternal hsame).set hi rfl (fun _ => rfl) rfl rfl

theorem acknowledge_inv (hinv : OutboundInv first o) (hi : o.sends[i]? = some (.notified rest))
    (delivered : Bool) : OutboundInv first (o.acknowledge i rest delivered) := by
  have hinternal := hinv.internal (BleActor.acknowledge_internal delivered)
  unfold Outbound.acknowledge
  rcases hack : o.actor.acknowledge delivered with ⟨actor, _ | reason⟩
  · rw [hack] at hinternal
    exact hinternal.set hi rfl (fun _ => rfl) rfl rfl
  · rw [hack] at hinternal
    exact hinternal.set hi rfl (fun _ => rfl) rfl rfl

/-- A closed link ends the session it is found out in. -/
theorem linkClosed_ended (hbegun : Begun s.state) (reason : LinkTeardown) :
    (s.linkClosed reason).1.state = .ended := by
  unfold PhoneSession.linkClosed
  rw [if_neg hbegun.1]
  split_ifs with hlive
  · exact endFromTeardown_live hlive reason
  · exact hbegun.ended (by simpa using hlive)

theorem resumed_inv (hinv : OutboundInv first o) (hi : o.sends[i]? = some pc)
    (huncut : pc.refused = true → isLive o.session.state = false) :
    OutboundInv first (o.resume i pc) := by
  cases pc with
  | accepted rest => exact writeNext_inv hinv hi
  | closing left reason =>
    have hended := linkClosed_ended hinv.begun reason
    exact (hinv.act (linkClosed_act reason)).stop (by exact hi) rfl hended _
  | failing left => exact hinv.stop hi rfl (hinv.begun.ended (huncut rfl)) _
  | waiting | writing | notified | finished => exact hinv

theorem setSend_same (hi : o.sends[i]? = some pc) : o.setSend i pc = o := by
  obtain ⟨hlt, rfl⟩ := List.getElem?_eq_some_iff.mp hi
  unfold Outbound.setSend
  rw [List.set_getElem_self]

theorem cancel_inv (hinv : OutboundInv first o) (hi : o.sends[i]? = some pc)
    (huncut : pc.midway = true → isLive o.session.state = false) :
    OutboundInv first (o.setSend i pc.cancel) := by
  have hended : pc.midway = true → o.session.state = .ended :=
    fun hmidway => hinv.begun.ended (huncut hmidway)
  -- without the lock, or behind the last frame
  have hleave : pc.left = [] → pc.stopped = false →
      OutboundInv first (o.setSend i (.finished .cancelled)) := by
    intro hleft hstopped
    refine hinv.set hi hleft.symm (fun h => ?_) rfl hstopped
    cases h
  cases pc with
  | waiting plaintext => exact hleave rfl rfl
  | writing | notified => exact hinv.stop hi rfl (hended rfl) _
  | accepted rest =>
    cases rest with
    | nil => exact hleave rfl rfl
    | cons frame rest => exact hinv.stop hi rfl (hended rfl) _
  | closing | failing | finished => exact (setSend_same hi).symm ▸ hinv

theorem call_inv (hinv : OutboundInv first o) (plaintext : Bytes) :
    OutboundInv first { o with sends := o.sends ++ [.waiting plaintext] } := by
  obtain ⟨frames, next, hframed, hnext, hwire, hall⟩ := hinv.framed
  refine ⟨hinv.synced, hinv.begun, ?_, ?_,
    ⟨frames, next, hframed, hnext, hwire, fun hunstopped => ?_⟩, hinv.complete⟩
  · rw [Alone, List.countP_append]
    exact hinv.alone
  · rintro ⟨pc, hmem, hstopped⟩
    rcases List.mem_append.mp hmem with hmem | hmem
    · obtain ⟨hended, hfree⟩ := hinv.stopped ⟨pc, hmem, hstopped⟩
      exact ⟨hended, List.forall_mem_append.mpr ⟨hfree, List.forall_mem_singleton.mpr rfl⟩⟩
    · rw [List.mem_singleton.mp hmem] at hstopped
      cases hstopped
  · have hleft : (o.sends ++ [SendPc.waiting plaintext]).flatMap SendPc.left = o.left := by
      rw [List.flatMap_append]
      exact List.append_nil _
    rw [← hall (List.forall_mem_append.mp hunstopped).1]
    exact congrArg (o.wire ++ ·) hleft

/-- **Every uncut step keeps the frames in order.** -/
theorem outbound_step_inv (hnoise : NoiseBounded E) (hinv : OutboundInv first o)
    (l : OutboundStep) (huncut : Uncut o l) : OutboundInv first (o.step l) := by
  cases l with
  | post event => exact hinv.internal (BleActor.onEvent_internal event)
  | process => exact hinv.internal BleActor.process_internal
  | host step =>
    rw [Outbound.step]
    split_ifs with hbesides
    · obtain ⟨hchange, hseq⟩ := step_besides hinv.begun hbesides
      exact hinv.onHost hchange hseq
    · exact hinv
  | call plaintext => exact call_inv hinv plaintext
  | cancel i =>
    rw [Outbound.step]
    cases hi : o.sends[i]? with
    | none => exact hinv
    | some pc =>
      refine cancel_inv hinv hi fun hmidway => huncut ?_
      rw [hi]
      exact hmidway
  | acquire i =>
    rw [Outbound.step]
    split
    next plaintext hi =>
      split_ifs with hlocked
      · exact hinv
      · have hfree : Free o.sends := free_of_unlocked (by simpa [Outbound.locked] using hlocked)
        exact acquire_inv hnoise hinv hfree hi
    · exact hinv
  | notify i taken =>
    rw [Outbound.step]
    split
    next frame rest hi => exact notify_inv hinv hi taken
    · exact hinv
  | acknowledge i delivered =>
    rw [Outbound.step]
    split
    next rest hi => exact acknowledge_inv hinv hi delivered
    · exact hinv
  | resume i =>
    rw [Outbound.step]
    cases hi : o.sends[i]? with
    | none => exact hinv
    | some pc =>
      refine resumed_inv hinv hi fun hrefused => huncut ?_
      rw [hi]
      exact hrefused

end Steps

/-! ## Behind the end -/

section Quiet

variable {E : Endpoint} {o : Outbound E}

/-- The session has ended and nobody is writing. -/
structure Quiet (o : Outbound E) : Prop where
  ended : o.session.state = .ended
  free : Free o.sends

theorem Quiet.set (h : Quiet o) (i : Nat) {pc : SendPc} (hpc : pc.holds = false) :
    Quiet (o.setSend i pc) := by
  refine ⟨h.ended, fun other hmem => ?_⟩
  rcases List.mem_or_eq_of_mem_set hmem with hmem | rfl
  · exact h.free other hmem
  · exact hpc

/-- Nobody starts to write any more. -/
theorem step_quiet (h : Quiet o) (l : OutboundStep) :
    Quiet (o.step l) ∧ (o.step l).wire = o.wire := by
  have hidle : ∀ {i : Nat} {pc : SendPc}, o.sends[i]? = some pc → pc.holds = false :=
    fun hi => h.free _ (List.mem_of_getElem? hi)
  cases l with
  | post event => exact ⟨⟨h.ended, h.free⟩, (BleActor.onEvent_internal event).notified⟩
  | process => exact ⟨⟨h.ended, h.free⟩, BleActor.process_internal.notified⟩
  | host step =>
    rw [Outbound.step]
    split_ifs with hbesides
    · have hbegun : Begun o.host.session.state := by
        rw [show o.host.session.state = .ended from h.ended]
        exact ⟨by decide, by decide⟩
      refine ⟨⟨(step_besides hbegun hbesides).1.ended_stays h.ended, h.free⟩, ?_⟩
      show BleActor.notified (ite _ _ _) = _
      split_ifs
      · exact (BleActor.onEvent_internal _).notified
      · rfl
    · exact ⟨h, rfl⟩
  | call plaintext =>
    exact ⟨⟨h.ended, List.forall_mem_append.mpr ⟨h.free, List.forall_mem_singleton.mpr rfl⟩⟩, rfl⟩
  | cancel i =>
    rw [Outbound.step]
    cases hi : o.sends[i]? with
    | none => exact ⟨h, rfl⟩
    | some pc =>
      refine ⟨h.set i ?_, rfl⟩
      have hholds := hidle hi
      cases pc <;> first | rfl | cases hholds
  | acquire i =>
    rw [Outbound.step]
    split
    · split_ifs
      · exact ⟨h, rfl⟩
      · have hdead : ¬ isLive o.session.state = true := by
          rw [h.ended]
          decide
        rw [Outbound.acquire, if_pos hdead]
        exact ⟨h.set i rfl, rfl⟩
    · exact ⟨h, rfl⟩
  | notify | acknowledge =>
    rw [Outbound.step]
    split
    next hi => cases hidle hi
    · exact ⟨h, rfl⟩
  | resume i =>
    rw [Outbound.step]
    cases hi : o.sends[i]? with
    | none => exact ⟨h, rfl⟩
    | some pc =>
      have hholds := hidle hi
      cases pc <;> first | exact ⟨h, rfl⟩ | cases hholds

theorem run_quiet (h : Quiet o) (steps : List OutboundStep) : (o.run steps).wire = o.wire := by
  induction steps generalizing o with
  | nil => rfl
  | cons l steps ih =>
    obtain ⟨hnext, hsame⟩ := step_quiet h l
    exact (ih hnext).trans hsame

end Quiet

/-! ## Whole messages -/

/-- A session that is live, with its numbering and its link. -/
structure Established (E : Endpoint) where
  host : Host E
  actor : BleActor
  first : UInt16
  live : isLive host.session.state = true
  numbered : host.session.txSeq = first.toNat
  synced : actor.Synced

/-- Nothing has been sent over it. -/
def Established.outbound {E : Endpoint} (e : Established E) : Outbound E :=
  ⟨e.host, { e.actor with notified := [] }, [], []⟩

theorem established_inv (e : Established E) : OutboundInv e.first e.outbound := by
  refine ⟨e.synced, begun_of_live e.live, Nat.zero_le 1, ?_,
    ⟨[], e.first, .nil, e.numbered, List.prefix_rfl, fun _ => rfl⟩, ?_⟩
  · simp [Established.outbound]
  · simp [Established.outbound]

theorem OutboundInv.allOrNothing (hinv : OutboundInv first o) : AllOrNothing first o := by
  obtain ⟨frames, next, hframed, -, hwire, hall⟩ := hinv.framed
  refine ⟨⟨frames, next, hframed, hwire, fun hlive => hall (hinv.unstopped_of_live hlive)⟩,
    hinv.complete, fun k frame hframe => ?_, fun hstopped => ?_⟩
  · obtain ⟨rest, hrest⟩ := hwire
    have hlt : k < o.wire.length := (List.getElem?_eq_some_iff.mp hframe).1
    refine hframed.numbered.2 k frame ?_
    rw [← hrest, List.getElem?_append_left hlt]
    exact hframe
  · obtain ⟨hended, hfree⟩ := hinv.stopped hstopped
    exact ⟨hended, run_quiet ⟨hended, hfree⟩⟩

/-- A step that is not uncut stops a send in a session that stays live. -/
theorem AllOrNothing.uncut {l : OutboundStep} (h : AllOrNothing first (o.step l)) : Uncut o l := by
  -- the send is among those that have stopped
  have hstopped : ∀ {i : Nat} {pc : SendPc} (cause : Stop), o.sends[i]? = some pc →
      o.step l = o.setSend i (.finished (.stopped cause)) → isLive o.session.state = false := by
    intro i pc cause hi hstep
    have hmem := List.mem_set (List.getElem?_eq_some_iff.mp hi).1 (.finished (.stopped cause))
    rw [hstep] at h
    have hended : o.session.state = .ended := (h.last ⟨_, hmem, rfl⟩).1
    rw [hended]
    rfl
  cases l with
  | cancel i =>
    intro hmidway
    cases hi : o.sends[i]? with
    | none =>
      rw [hi] at hmidway
      cases hmidway
    | some pc =>
      rw [hi] at hmidway
      have hstep : o.step (.cancel i) = o.setSend i pc.cancel := by
        rw [Outbound.step, hi]
      have hcancel : pc.cancel = .finished (.stopped .cancelled) := by
        cases pc with
        | accepted rest =>
          cases rest with
          | nil => cases hmidway
          | cons frame rest => rfl
        | writing | notified => rfl
        | _ => cases hmidway
      exact hstopped .cancelled hi (hstep.trans (congrArg _ hcancel))
  | resume i =>
    intro hrefused
    cases hi : o.sends[i]? with
    | none =>
      rw [hi] at hrefused
      cases hrefused
    | some pc =>
      rw [hi] at hrefused
      cases pc with
      | failing left =>
        refine hstopped .refused hi ?_
        rw [Outbound.step, hi]
        rfl
      | _ => cases hrefused
  | _ => trivial

/-- **Sending is all or nothing exactly where no send is cut off in a live session.** In
every interleaving of the callers of `send`, their cancellations, the link and the rest of
the session: at every point the frames on the link are those of the messages in the order of
their encryption, with consecutive numbers, and all but the last message are complete, and a
send that has stopped leaves an ended session and a link that no frame is put on any more,
exactly if no caller is cancelled in the middle of a message, and none learns that a frame
was refused, while the session is live. -/
theorem sends_are_all_or_nothing_iff {E : Endpoint} (hnoise : NoiseBounded E) (e : Established E)
    (steps : List OutboundStep) :
    (∀ done, done <+: steps → AllOrNothing e.first (e.outbound.run done)) ↔
      Along Outbound.step Uncut e.outbound steps := by
  have hinv := established_inv e
  generalize e.outbound = o at hinv
  constructor
  · intro h
    induction steps generalizing o with
    | nil => trivial
    | cons l steps ih =>
      have huncut : Uncut o l := (h [l] ⟨steps, rfl⟩).uncut
      refine ⟨huncut, ih _ (outbound_step_inv hnoise hinv l huncut) fun done hdone => ?_⟩
      exact h (l :: done) (List.cons_prefix_cons.mpr ⟨rfl, hdone⟩)
  · rintro huncut done ⟨more, rfl⟩
    have hdone := (along_append.mp huncut).1
    have hall : OutboundInv e.first (o.run done) :=
      hdone.invariant (OutboundInv e.first) hinv
        fun o l hinv huncut => outbound_step_inv hnoise hinv l huncut
    exact hall.allOrNothing

namespace OutboundSample

/-- A cipher that changes nothing, up to the size of a Noise message. -/
def endpoint : Endpoint :=
  { Sample.endpoint with
    encrypt := fun noise plaintext =>
      if plaintext.length ≤ 65535 then .ok (noise, plaintext) else .error .sessionEnded }

theorem bounded : NoiseBounded endpoint := by
  intro noise plaintext noise' message hencrypt
  by_cases hlen : plaintext.length ≤ 65535
  · have hok : endpoint.encrypt noise plaintext = .ok (noise, plaintext) := if_pos hlen
    rw [hok] at hencrypt
    cases hencrypt
    exact hlen
  · have herror : endpoint.encrypt noise plaintext = .error .sessionEnded := if_neg hlen
    rw [herror] at hencrypt
    cases hencrypt

/-- A connection with the least MTU. -/
def actor : BleActor :=
  ((BleActor.new.attachServer.onEvent .centralConnected).onEvent .subscribed).process.process

def established : Established endpoint where
  host := (Host.new endpoint).run [.call, .enter 20, .frame .accepted, .event (.chunk [2])]
  actor := actor
  first := 1
  live := rfl
  numbered := rfl
  synced := rfl

/-- Two frames at the least MTU. -/
def long : Bytes := List.replicate 15 7

end OutboundSample

/-- Two sends at a time and a third one that is cancelled as it waits. The MTU grows in the
middle of the first message, and the link fails under the second. -/
theorem concurrent_sends_are_whole :
    (OutboundSample.established.outbound.run [.call OutboundSample.long,
        .call OutboundSample.long, .call [5], .acquire 0, .notify 0 true, .acquire 1,
        .acknowledge 0 true, .resume 0, .post (.mtuChanged 30), .process, .notify 0 true,
        .acknowledge 0 true, .cancel 2, .resume 0, .acquire 1, .notify 1 true,
        .acknowledge 1 false, .resume 1]).session.state = .ended ∧
      AllOrNothing 1 (OutboundSample.established.outbound.run [.call OutboundSample.long,
        .call OutboundSample.long, .call [5], .acquire 0, .notify 0 true, .acquire 1,
        .acknowledge 0 true, .resume 0, .post (.mtuChanged 30), .process, .notify 0 true,
        .acknowledge 0 true, .cancel 2, .resume 0, .acquire 1, .notify 1 true,
        .acknowledge 1 false, .resume 1]) := by
  refine ⟨by decide +kernel, ?_⟩
  exact (sends_are_all_or_nothing_iff OutboundSample.bounded OutboundSample.established _).mpr
    (by decide +kernel) _ List.prefix_rfl

/-- A caller that is cancelled between two frames, or a frame that no longer fits the link,
leaves a live session with the rest of its message missing: the next message follows the
gap. -/
theorem cut_message_is_followed :
    (isLive (OutboundSample.established.outbound.run [.call OutboundSample.long, .acquire 0,
        .notify 0 true, .acknowledge 0 true, .cancel 0, .call [9], .acquire 1,
        .notify 1 true]).session.state = true ∧
      ¬ AllOrNothing 1 (OutboundSample.established.outbound.run [.call OutboundSample.long,
        .acquire 0, .notify 0 true, .acknowledge 0 true, .cancel 0, .call [9], .acquire 1,
        .notify 1 true])) ∧
    isLive (OutboundSample.established.outbound.run [.post (.mtuChanged 24), .process,
        .call OutboundSample.long, .acquire 0, .post (.mtuChanged 23), .process, .notify 0 true,
        .resume 0, .call [9], .acquire 1, .notify 1 true]).session.state = true ∧
      ¬ AllOrNothing 1 (OutboundSample.established.outbound.run [.post (.mtuChanged 24), .process,
        .call OutboundSample.long, .acquire 0, .post (.mtuChanged 23), .process, .notify 0 true,
        .resume 0, .call [9], .acquire 1, .notify 1 true]) := by
  refine ⟨⟨by decide +kernel, fun h => ?_⟩, by decide +kernel, fun h => ?_⟩
  · exact absurd (h.numbered 1 [0, 1, 0, 3, 3, 0, 9] (by decide +kernel)) (by decide +kernel)
  · exact absurd (h.numbered 0 [0, 1, 0, 2, 3, 0, 9] (by decide +kernel)) (by decide +kernel)

end Conveyance.Phone
