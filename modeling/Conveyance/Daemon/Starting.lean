import Conveyance.Lib.Awaited
import Conveyance.Daemon.Owner

/-!
# How long a session start takes (conveyance-daemon, session.rs)

`begin_session` and `responder_handshake` with their clock. What they wait for is the dialer, the
link's chunks and the link's writes; everything between two awaits takes no time, and timers are
exact. A `none` for a time is an await that never ends. Times are nanoseconds since the call.

A chunk that is there wins over a deadline that is due: `timeout_at` polls what it guards first.
-/

namespace Conveyance.Daemon.Starting

open Lib Conveyance.Core Wire

def handshakeTotalBudget : Nat := 30 * 1000000000

/-! ## The handshake -/

/-- What snow makes of the keys: whether a handshake can be built, message 1 read, message 2
written and the transport taken. -/
structure Noise where
  builds : Bool
  reads : Bytes → Bool
  reply : Option Bytes
  transports : Bool

/-- Whose move it is. KK has two messages. -/
inductive Turn where
  | reading
  | writing
  | finished
deriving DecidableEq

/-- `SessionHandshake`, as responder. -/
structure SessionHandshake where
  noise : Noise
  turn : Turn

namespace SessionHandshake

def new (noise : Noise) : Option SessionHandshake :=
  if noise.builds then some ⟨noise, .reading⟩ else none

def needsWrite (hs : SessionHandshake) : Bool := hs.turn = .writing

def isFinished (hs : SessionHandshake) : Bool := hs.turn = .finished

def readMessage (hs : SessionHandshake) (message : Bytes) : Option SessionHandshake :=
  if hs.turn = .reading ∧ hs.noise.reads message then some { hs with turn := .writing } else none

def writeMessage (hs : SessionHandshake) : Option (Bytes × SessionHandshake) :=
  if hs.turn = .writing then hs.noise.reply.map fun reply => (reply, { hs with turn := .finished })
  else none

end SessionHandshake

/-! ## Links and dialers -/

/-- The results of `recv`, each with the time it is there. -/
abbrev Arrivals := List (Nat × Except TransportError Bytes)

structure PhoneLink where
  link : Link
  arrivals : Arrivals
  /-- How long `send` takes and its result, by the number of writes before it and the frame. -/
  sends : Nat → Bytes → Option (Nat × Except TransportError Unit)

/-- What `begin_session` depends on. -/
structure SessionDeps where
  /-- `store.list()`. -/
  pairings : Except String (List PairingRow)
  /-- How long `dial` takes with a timeout, and its result. -/
  dial : Nat → Nat × Except TransportError PhoneLink
  /-- The handshake with a peer's static key. -/
  noise : Octets 32 → Noise
  /-- `IdentityPublicKey::from_bytes`. -/
  parsesKey : Octets 32 → Bool

/-! ## `responder_handshake` -/

abbrev Call (α : Type) := Awaited OpError α

/-- The local variables of the loop, without the assembler. -/
structure Exchange where
  hs : SessionHandshake
  txSeq : UInt16
  /-- The writes so far. -/
  sent : Nat

variable (phone : PhoneLink)

/-- The writes of a message's frames. They have no deadline. -/
def sendFrames : List Bytes → Nat → Nat → Call Nat
  | [], sent, now => .done now sent
  | frame :: frames, sent, now =>
    match phone.sends sent frame with
    | none => .never
    | some (delay, .error _) =>
      .failed (now + delay) (.phoneUnreachable "write failed mid-handshake")
    | some (delay, .ok ()) => sendFrames frames (sent + 1) (now + delay)

/-- The reply, if it is our move. -/
def reply (s : Exchange) (now : Nat) : Call Exchange :=
  if s.hs.needsWrite then
    match s.hs.writeMessage with
    | none => .failed now .handshakeFailed
    | some (message, hs) =>
      match splitMessage message phone.link.maxWriteLen s.txSeq with
      | .error _ => .failed now .handshakeFailed
      | .ok (frames, next) =>
        (sendFrames phone frames s.sent now).andThen fun sent now => .done now ⟨hs, next, sent⟩
  else .done now s

/-- The messages of a chunk. -/
def onMessages : List Bytes → Exchange → Nat → Call Exchange
  | [], s, now => .done now s
  | message :: messages, s, now =>
    match s.hs.readMessage message with
    | none => .failed now .handshakeFailed
    | some hs =>
      (reply phone { s with hs } now).andThen fun s now =>
        if s.hs.isFinished then .done now s else onMessages messages s now

/-- `establish`, with what the caller goes on with. -/
def establish (s : Exchange) (assembler : InboundAssembler) (now : Nat) :
    Call (UInt16 × InboundAssembler) :=
  if s.hs.noise.transports then .done now (s.txSeq, assembler) else .failed now .handshakeFailed

def stalled : OpError := .phoneUnreachable "handshake stalled"

def lost (e : TransportError) : OpError :=
  .phoneUnreachable (if e = .disconnected then "peer vanished mid-handshake" else "transport error")

/-- The loop. A `recv` is over when its result is there, or at the deadline. -/
def handshakeLoop (deadline : Nat) (arrivals : Arrivals)
    (assembler : InboundAssembler) (s : Exchange) (now : Nat) :
    Call (UInt16 × InboundAssembler) :=
  if s.hs.isFinished then establish s assembler now
  else
    match arrivals with
    | [] => .failed (max now deadline) stalled
    | (arrival, chunk) :: rest =>
      if max now deadline < arrival then .failed (max now deadline) stalled
      else
        match chunk with
        | .error e => .failed (max now arrival) (lost e)
        | .ok bytes =>
          match assembler.ingest bytes with
          | (_, .error _) => .failed (max now arrival) .handshakeFailed
          | (assembler, .ok messages) =>
            (onMessages phone messages s (max now arrival)).andThen fun s now =>
              handshakeLoop deadline rest assembler s now

/-- `responder_handshake`, called at some time. The deadline is counted from then. -/
def responderHandshake (noise : Noise) (now : Nat) : Call (UInt16 × InboundAssembler) :=
  match SessionHandshake.new noise with
  | none => .failed now .handshakeFailed
  | some hs => handshakeLoop phone (now + handshakeTotalBudget) phone.arrivals .new ⟨hs, 0, 0⟩ now

/-- `begin_session`: what the caller's parts are made of, besides the link. -/
def beginSession (deps : SessionDeps) : Call (UInt16 × InboundAssembler × Octets 32) :=
  match deps.pairings with
  | .error e => .failed 0 (.internal ("pairings database unreadable: " ++ e))
  | .ok pairings =>
    match pairings.getLast? with
    | none => .failed 0 .noPairing
    | some peer =>
      match deps.dial handshakeTotalBudget with
      | (now, .error .timeout) => .failed now (.phoneUnreachable "not advertising within 30 s")
      | (now, .error e) => .failed now (.phoneUnreachable e.text)
      | (now, .ok phone) =>
        (responderHandshake phone (deps.noise peer.dhPub) now).andThen fun parts now =>
          if deps.parsesKey peer.idPub then .done now (parts.1, parts.2, peer.idPub)
          else .failed now (.internal "stored pairing holds a malformed identity key")

/-! ## What ends the wait -/

/-- What the handshake does not wait any longer after. -/
inductive Heard where
  | lost (e : TransportError)
  /-- Bytes that are no frames. -/
  | broken
  /-- The first message, with the assembler as its chunk leaves it. -/
  | message (message : Bytes) (assembler : InboundAssembler)

/-- What ends the wait and when it is there, if nobody looks at a deadline. -/
def heard (now : Nat) (assembler : InboundAssembler) : Arrivals → Option (Nat × Heard)
  | [] => none
  | (arrival, .error e) :: _ => some (max now arrival, .lost e)
  | (arrival, .ok bytes) :: rest =>
    match assembler.ingest bytes with
    | (_, .error _) => some (max now arrival, .broken)
    | (assembler, .ok []) => heard (max now arrival) assembler rest
    | (assembler, .ok (message :: _)) => some (max now arrival, .message message assembler)

/-- The frames of message 2 and the next sequence number, if message 1 can be read. -/
def replyFrames (noise : Noise) (message : Bytes) : Option (List Bytes × UInt16) :=
  if noise.reads message then
    noise.reply.bind fun reply => (splitMessage reply phone.link.maxWriteLen 0).toOption
  else none

/-- Message 1 is answered. -/
def answer (noise : Noise) (message : Bytes) (now : Nat) : Call Exchange :=
  match replyFrames phone noise message with
  | none => .failed now .handshakeFailed
  | some (frames, next) =>
    (sendFrames phone frames 0 now).andThen fun sent now =>
      .done now ⟨⟨noise, .finished⟩, next, sent⟩

/-- What becomes of it. -/
def settle (noise : Noise) (now : Nat) : Heard → Call (UInt16 × InboundAssembler)
  | .lost e => .failed now (lost e)
  | .broken => .failed now .handshakeFailed
  | .message message assembler =>
    (answer phone noise message now).andThen fun s now => establish s assembler now

/-- A wait with a deadline. -/
def waited (noise : Noise) (deadline : Nat) :
    Option (Nat × Heard) → Call (UInt16 × InboundAssembler)
  | none => .failed deadline stalled
  | some (t, h) => if t ≤ deadline then settle phone noise t h else .failed deadline stalled

variable {phone} {noise : Noise} {now deadline : Nat} {assembler : InboundAssembler}

/-- The next result ends the wait, or it is passed over. -/
theorem heard_cons (arrival : Nat) (chunk : Except TransportError Bytes) (rest : Arrivals) :
    (∃ h, heard now assembler ((arrival, chunk) :: rest) = some (max now arrival, h)) ∨
      ∃ next, heard now assembler ((arrival, chunk) :: rest) =
        heard (max now arrival) next rest := by
  cases chunk with
  | error e => exact .inl ⟨_, rfl⟩
  | ok bytes =>
    rw [heard]
    rcases assembler.ingest bytes with ⟨next, e | messages⟩
    · exact .inl ⟨_, rfl⟩
    · cases messages with
      | nil => exact .inr ⟨next, rfl⟩
      | cons message messages => exact .inl ⟨_, rfl⟩

variable {t limit dialed : Nat} {h : Heard} {deps : SessionDeps} {row : PairingRow}

/-- What ends the wait is not there before it is asked for, nor before the next result is. -/
theorem le_of_heard {arrivals : Arrivals} (hheard : heard now assembler arrivals = some (t, h)) :
    now ≤ t ∧ ∀ first ∈ arrivals.head?, first.1 ≤ t := by
  induction arrivals generalizing now assembler with
  | nil => cases hheard
  | cons first rest ih =>
    have hmax : max now first.1 ≤ t := by
      rcases heard_cons first.1 first.2 rest with ⟨h', hfirst⟩ | ⟨next, hpassed⟩
      · exact (Prod.mk.inj (Option.some.inj (hfirst.symm.trans hheard))).1.le
      · exact (ih (hpassed.symm.trans hheard)).1
    exact ⟨le_of_max_le_left hmax, by simpa using le_of_max_le_right hmax⟩

/-- Before the first message. -/
def opened (noise : Noise) : Exchange := ⟨⟨noise, .reading⟩, 0, 0⟩

/-- The first message is the last: once it is answered, the handshake is over. -/
theorem onMessages_opened (message : Bytes) (messages : List Bytes) :
    onMessages phone (message :: messages) (opened noise) now = answer phone noise message now := by
  unfold answer replyFrames
  cases hreads : noise.reads message with
  | false => simp [onMessages, opened, SessionHandshake.readMessage, hreads]
  | true =>
    have hread : (opened noise).hs.readMessage message = some ⟨noise, .writing⟩ := by
      simp [opened, SessionHandshake.readMessage, hreads]
    have hneeds : (⟨noise, .writing⟩ : SessionHandshake).needsWrite = true := rfl
    have hwrite : (⟨noise, .writing⟩ : SessionHandshake).writeMessage =
        noise.reply.map fun reply => (reply, ⟨noise, .finished⟩) := rfl
    rw [onMessages, hread, if_pos rfl]
    dsimp only [opened]
    rw [reply, if_pos hneeds, hwrite]
    cases noise.reply with
    | none => rfl
    | some message =>
      dsimp only [Option.map_some, Option.bind_some]
      cases splitMessage message phone.link.maxWriteLen 0 with
      | error e => rfl
      | ok split =>
        dsimp only [Except.toOption]
        rw [Awaited.andThen_assoc]
        rfl

/-- Behind the answer the loop does not go round again. -/
theorem answer_andThen_loop (message : Bytes) (rest : Arrivals) :
    ((answer phone noise message now).andThen fun s now =>
        handshakeLoop phone deadline rest assembler s now) =
      settle phone noise now (.message message assembler) := by
  have hfinished : ∀ (next : UInt16) (sent now : Nat),
      handshakeLoop phone deadline rest assembler ⟨⟨noise, .finished⟩, next, sent⟩ now =
        establish ⟨⟨noise, .finished⟩, next, sent⟩ assembler now := by
    intro next sent now
    rw [handshakeLoop.eq_def]
    exact if_pos rfl
  rw [settle, answer]
  cases replyFrames phone noise message with
  | none => rfl
  | some split =>
    rw [Awaited.andThen_assoc, Awaited.andThen_assoc]
    simp only [Awaited.done_andThen, hfinished]

/-- **What the loop comes to.** It waits for what ends the wait, and for nothing longer than to
its deadline. -/
theorem handshakeLoop_eq (arrivals : Arrivals) (hnow : now ≤ deadline) :
    handshakeLoop phone deadline arrivals assembler (opened noise) now =
      waited phone noise deadline (heard now assembler arrivals) := by
  have hopen : ¬(opened noise).hs.isFinished = true := Bool.false_ne_true
  induction arrivals generalizing now assembler with
  | nil =>
    rw [handshakeLoop.eq_def, if_neg hopen, max_eq_right hnow]
    rfl
  | cons arrival rest ih =>
    obtain ⟨arrival, chunk⟩ := arrival
    rw [handshakeLoop.eq_def, if_neg hopen, max_eq_right hnow]
    dsimp only
    split_ifs with hlate
    · cases hheard : heard now assembler ((arrival, chunk) :: rest) with
      | none => rfl
      | some found =>
        obtain ⟨t, h⟩ := found
        have harrival : arrival ≤ t := (le_of_heard hheard).2 _ rfl
        exact (if_neg (not_le.mpr (lt_of_lt_of_le hlate harrival))).symm
    · have hmax : max now arrival ≤ deadline := max_le hnow (not_lt.mp hlate)
      cases chunk with
      | error e => exact (if_pos hmax).symm
      | ok bytes =>
        dsimp only
        unfold heard
        rcases hingest : assembler.ingest bytes with ⟨next, e | messages⟩
        · exact (if_pos hmax).symm
        · cases messages with
          | nil => exact ih hmax
          | cons message messages =>
            dsimp only
            rw [onMessages_opened, answer_andThen_loop]
            exact (if_pos hmax).symm

/-! ## In time -/

/-- The link leaves a handshake that is begun at some time enough of the budget: if the dial has
used up some of it, what ends the wait is there before the rest is used up, too; and so are the
ends of the writes. -/
structure InTime (phone : PhoneLink) (noise : Noise) (dialed : Nat) : Prop where
  settled : 0 < dialed →
    ∃ t h, heard dialed .new phone.arrivals = some (t, h) ∧ t ≤ handshakeTotalBudget
  answered : ∀ t message assembler frames next,
    heard dialed .new phone.arrivals = some (t, .message message assembler) →
    t ≤ dialed + handshakeTotalBudget → replyFrames phone noise message = some (frames, next) →
      (sendFrames phone frames 0 t).EndsBy handshakeTotalBudget

theorem le_of_sendFrames {frames : List Bytes} {sent : Nat} {result : Except OpError Nat}
    (h : sendFrames phone frames sent now = some (t, result)) : now ≤ t := by
  induction frames generalizing sent now with
  | nil => exact (Prod.mk.inj (Option.some.inj h)).1.le
  | cons frame frames ih =>
    rw [sendFrames] at h
    rcases hsend : phone.sends sent frame with _ | ⟨delay, e | _⟩
    · rw [hsend] at h
      cases h
    · rw [hsend] at h
      have hdelay : now + delay = t := (Prod.mk.inj (Option.some.inj h)).1
      exact hdelay ▸ Nat.le_add_right now delay
    · rw [hsend] at h
      exact le_trans (Nat.le_add_right now delay) (ih h)

/-- Message 1 is answered by the time its writes are over. -/
theorem endsBy_settle_message {message : Bytes} :
    (settle phone noise now (.message message assembler)).EndsBy limit ↔
      now ≤ limit ∧ ∀ frames next, replyFrames phone noise message = some (frames, next) →
        (sendFrames phone frames 0 now).EndsBy limit := by
  have hestablish : ∀ (s : Exchange) (now : Nat), ∃ result,
      establish s assembler now = some (now, result) := by
    intro s now
    unfold establish
    split_ifs <;> exact ⟨_, rfl⟩
  rw [settle, Awaited.endsBy_andThen_iff hestablish, answer]
  cases replyFrames phone noise message with
  | none => simp
  | some split =>
    obtain ⟨frames, next⟩ := split
    refine Iff.trans (Awaited.endsBy_andThen_iff fun sent now => ⟨_, rfl⟩) ?_
    constructor
    · intro hends
      obtain ⟨t, result, hsent, ht⟩ := hends
      refine ⟨le_trans (le_of_sendFrames hsent) ht, fun frames' next' heq => ?_⟩
      obtain ⟨rfl, -⟩ := Prod.mk.inj (Option.some.inj heq)
      exact ⟨t, result, hsent, ht⟩
    · exact fun h => h.2 frames next rfl

/-- Whatever ended the wait, the call is not over before. -/
theorem le_of_endsBy_settle (hends : (settle phone noise now h).EndsBy limit) : now ≤ limit := by
  cases h with
  | lost | broken => exact Awaited.endsBy_failed.mp hends
  | message message assembler => exact (endsBy_settle_message.mp hends).1

/-- A wait whose deadline is counted from the dial. -/
theorem waited_endsBy_iff (found : Option (Nat × Heard)) :
    (waited phone noise (dialed + limit) found).EndsBy limit ↔
      (0 < dialed → ∃ t h, found = some (t, h) ∧ t ≤ limit) ∧
        ∀ t h, found = some (t, h) → t ≤ dialed + limit →
          (settle phone noise t h).EndsBy limit := by
  cases found with
  | none => simp [waited]
  | some found =>
    obtain ⟨t, h⟩ := found
    rw [waited]
    split_ifs with ht
    · constructor
      · intro hends
        refine ⟨fun _ => ⟨t, h, rfl, le_of_endsBy_settle hends⟩, ?_⟩
        rintro _ _ ⟨⟩ _
        exact hends
      · exact fun hall => hall.2 t h rfl ht
    · rw [Awaited.endsBy_failed]
      constructor
      · refine fun hle => ⟨by omega, ?_⟩
        rintro _ _ ⟨⟩ ht'
        exact absurd ht' ht
      · rintro ⟨hfirst, -⟩
        by_contra hle
        obtain ⟨_, _, ⟨⟩, ht'⟩ := hfirst (by omega)
        omega

theorem responderHandshake_endsBy_iff (hbuilds : noise.builds = true) (dialed : Nat) :
    (responderHandshake phone noise dialed).EndsBy handshakeTotalBudget ↔
      InTime phone noise dialed := by
  have hloop : responderHandshake phone noise dialed =
      waited phone noise (dialed + handshakeTotalBudget) (heard dialed .new phone.arrivals) := by
    rw [responderHandshake, SessionHandshake.new, if_pos hbuilds]
    exact handshakeLoop_eq phone.arrivals (Nat.le_add_right _ _)
  rw [hloop, waited_endsBy_iff]
  constructor
  · rintro ⟨hsettled, hends⟩
    refine ⟨hsettled, fun t message assembler frames next hheard ht hframes => ?_⟩
    exact (endsBy_settle_message.mp (hends t _ hheard ht)).2 frames next hframes
  · rintro ⟨hsettled, hanswered⟩
    refine ⟨hsettled, fun t h hheard ht => ?_⟩
    have hlimit : t ≤ handshakeTotalBudget := by
      rcases Nat.eq_zero_or_pos dialed with rfl | hdialed
      · rwa [Nat.zero_add] at ht
      · obtain ⟨t', h', hsome, ht'⟩ := hsettled hdialed
        obtain ⟨rfl, -⟩ := Prod.mk.inj (Option.some.inj (hheard.symm.trans hsome))
        exact ht'
    cases h with
    | lost | broken => exact Awaited.endsBy_failed.mpr hlimit
    | message message assembler =>
      refine endsBy_settle_message.mpr ⟨hlimit, fun frames next hframes => ?_⟩
      exact hanswered t message assembler frames next hheard ht hframes

/-- The handshake a start gets to: over which link, with which keys, and when. -/
def handshakeOf (deps : SessionDeps) : Option (PhoneLink × Noise × Nat) :=
  match deps.pairings with
  | .error _ => none
  | .ok pairings =>
    match pairings.getLast?, deps.dial handshakeTotalBudget with
    | some peer, (dialed, .ok phone) =>
      if (deps.noise peer.dhPub).builds then some (phone, deps.noise peer.dhPub, dialed) else none
    | _, _ => none

/-- Behind the handshake nothing is awaited. -/
theorem endsBy_opened_iff {x : Call (UInt16 × InboundAssembler)} :
    (x.andThen fun parts now =>
        if deps.parsesKey row.idPub then .done now (parts.1, parts.2, row.idPub)
        else .failed now (.internal "stored pairing holds a malformed identity key")).EndsBy limit ↔
      x.EndsBy limit := by
  refine Awaited.endsBy_andThen_iff fun parts now => ?_
  split_ifs <;> exact ⟨_, rfl⟩

/-- **How long a start takes.** Every dialer keeps to its timeout; then `begin_session` is over
within its budget exactly if the handshake it gets to is in time. -/
theorem begin_session_within_budget_iff (deps : SessionDeps)
    (hdialer : ∀ timeout, (deps.dial timeout).1 ≤ timeout) :
    (beginSession deps).EndsBy handshakeTotalBudget ↔
      ∀ phone noise dialed, handshakeOf deps = some (phone, noise, dialed) →
        InTime phone noise dialed := by
  have hdial := hdialer handshakeTotalBudget
  unfold beginSession handshakeOf
  cases deps.pairings with
  | error e => exact iff_of_true (Awaited.endsBy_failed.mpr (Nat.zero_le _)) (by simp)
  | ok rows =>
    dsimp only
    cases rows.getLast? with
    | none => exact iff_of_true (Awaited.endsBy_failed.mpr (Nat.zero_le _)) (by simp)
    | some row =>
      dsimp only
      rcases hcall : deps.dial handshakeTotalBudget with ⟨dialed, e | phone⟩
      · rw [hcall] at hdial
        refine iff_of_true ?_ (by simp)
        cases e <;> exact Awaited.endsBy_failed.mpr hdial
      · rw [hcall] at hdial
        refine endsBy_opened_iff.trans ?_
        cases hbuilds : (deps.noise row.dhPub).builds with
        | false =>
          refine iff_of_true ?_ (by simp [hbuilds])
          rw [responderHandshake, SessionHandshake.new, hbuilds]
          exact Awaited.endsBy_failed.mpr hdial
        | true =>
          rw [responderHandshake_endsBy_iff hbuilds]
          simp [hbuilds]

/-! ### One phone -/

def second : Nat := 1000000000

/-- A handshake in which every message is good. -/
def easyNoise : Noise := ⟨true, fun _ => true, some [5], true⟩

/-- One paired phone, which is reached after some time. -/
def onePhone (reached : Nat) (arrivals : Arrivals)
    (sends : Option (Nat × Except TransportError Unit)) : SessionDeps where
  pairings := .ok [⟨.replicate 32 1, .replicate 32 2⟩]
  dial timeout := (min timeout reached, .ok ⟨⟨14⟩, arrivals, fun _ _ => sends⟩)
  noise _ := easyNoise
  parsesKey _ := true

/-- A frame with a message of one byte, after some time. -/
def messageAt (t : Nat) : Arrivals := [(t, .ok [0, 1, 0, 0, 3, 0, 9])]

theorem quick_phone_is_in_time :
    (beginSession (onePhone second (messageAt (2 * second)) (some (second, .ok ())))).EndsBy
        handshakeTotalBudget ∧
      ∀ phone noise dialed,
        handshakeOf (onePhone second (messageAt (2 * second)) (some (second, .ok ()))) =
          some (phone, noise, dialed) → InTime phone noise dialed := by
  have hends : (beginSession (onePhone second (messageAt (2 * second))
      (some (second, .ok ())))).EndsBy handshakeTotalBudget :=
    ⟨3 * second, _, rfl, by decide⟩
  exact ⟨hends, (begin_session_within_budget_iff _ fun _ => min_le_left _ _).mp hends⟩

/-- A phone that is reached after a second and then says nothing; and one that sends its message
and does not take the answer. -/
theorem begin_session_overruns :
    ((∀ timeout, ((onePhone second [] none).dial timeout).1 ≤ timeout) ∧
      beginSession (onePhone second [] none) = .failed (31 * second) stalled) ∧
    (∀ timeout, ((onePhone 0 (messageAt second) none).dial timeout).1 ≤ timeout) ∧
      beginSession (onePhone 0 (messageAt second) none) = .never :=
  ⟨⟨fun _ => min_le_left _ _, rfl⟩, fun _ => min_le_left _ _, rfl⟩

/-! ## The owner's view

The owner takes dialing and the handshake as answers it is given. -/

/-- **With these answers**, what `begin_session` returns is what the owner goes on with. -/
theorem beginSession_owner {env : Env} {w : World}
    {result : Except OpError (UInt16 × InboundAssembler × Octets 32)}
    (hpairings : env.pairings w.starts = deps.pairings)
    (hdial : env.dial w.starts = (deps.dial handshakeTotalBudget).2.map PhoneLink.link)
    (hhandshake : ∀ key phone dialed t result,
      deps.dial handshakeTotalBudget = (dialed, .ok phone) →
      responderHandshake phone (deps.noise key) dialed = some (t, result) →
        env.handshake w.starts key = result) (hkey : env.parsesKey = deps.parsesKey)
    (h : beginSession deps = some (t, result)) :
    (Daemon.beginSession env w).2.map (fun p => (p.txSeq, p.assembler, p.phoneIdPub)) = result := by
  unfold beginSession at h
  unfold Daemon.beginSession
  dsimp only
  rw [hpairings]
  cases hrows : deps.pairings with
  | error e =>
    rw [hrows] at h
    exact (Prod.mk.inj (Option.some.inj h)).2
  | ok rows =>
    rw [hrows] at h
    dsimp only at h ⊢
    cases hrow : rows.getLast? with
    | none =>
      rw [hrow] at h
      exact (Prod.mk.inj (Option.some.inj h)).2
    | some row =>
      rw [hrow] at h
      dsimp only at h ⊢
      rw [hdial]
      rcases hcall : deps.dial handshakeTotalBudget with ⟨dialed, e | phone⟩
      · rw [hcall] at h
        cases e <;> exact (Prod.mk.inj (Option.some.inj h)).2
      · rw [hcall] at h
        dsimp only [Except.map] at h ⊢
        rcases hresult : responderHandshake phone (deps.noise row.dhPub) dialed with
          _ | ⟨t', e | parts⟩
        · rw [hresult] at h
          cases h
        · rw [hresult] at h
          rw [hhandshake row.dhPub phone dialed t' _ hcall hresult]
          exact (Prod.mk.inj (Option.some.inj h)).2
        · rw [hresult] at h
          rw [hhandshake row.dhPub phone dialed t' _ hcall hresult, hkey]
          have hparts : (if deps.parsesKey row.idPub then
              .done t' (parts.1, parts.2, row.idPub)
            else .failed t' (.internal "stored pairing holds a malformed identity key") :
              Call (UInt16 × InboundAssembler × Octets 32)) = some (t, result) := h
          split_ifs at hparts ⊢
          · exact (Prod.mk.inj (Option.some.inj hparts)).2
          · exact (Prod.mk.inj (Option.some.inj hparts)).2

end Conveyance.Daemon.Starting
