import Conveyance.Core.Link
import Conveyance.Pairing.Messages
import Conveyance.Storage.Pairings

/-!
# The pairing ceremony (conveyance-core, pairing/)

The PC's state machine, its replay gate, and the driver that walks the machine over a
transport: show one QR, connect within its window, receive one confirm, answer it, store
the peer.

Time is in nanoseconds. A connect attempt is how long it would take and what it would
give; the driver drops it at the next tick. What comes in over the link has its times
(`Core.Inbound`), and the receive loop goes through it chunk by chunk.

Failures are of two kinds (`Halt`): an error the caller gets, and a crash. A crash is a
transition the machine does not have (`expect`), or one of the decoder or the framing.

The bloom filter, the clocks, entropy, CBOR, Ed25519 and the database's own failures are
in `Env`.
-/

namespace Conveyance.Pairing

open Lib Crypto Protocol Wire Storage

/-! ## The state machine -/

inductive PairingState where
  | unpaired
  | qrDisplayed
  | connecting
  | awaitingConfirm
  | ackSent
  | paired
deriving DecidableEq

inductive Event where
  | beginPairing
  | qrExpired
  | advertisementSeen
  | connectFailed
  | gattConnected
  | confirmTimeout
  | invalidConfirm
  | validConfirmReceived
  | ackWriteFailed
  | ackWrittenOk
  | userAborted
deriving DecidableEq

inductive TransitionError where
  | illegal (state : PairingState) (event : Event)
deriving DecidableEq

def step : PairingState → Event → Except TransitionError PairingState
  | .unpaired, .beginPairing => .ok .qrDisplayed
  | .qrDisplayed, .advertisementSeen => .ok .connecting
  | .qrDisplayed, .qrExpired => .ok .unpaired
  | .qrDisplayed, .userAborted => .ok .unpaired
  | .connecting, .connectFailed => .ok .qrDisplayed
  | .connecting, .gattConnected => .ok .awaitingConfirm
  | .connecting, .userAborted => .ok .unpaired
  | .awaitingConfirm, .validConfirmReceived => .ok .ackSent
  | .awaitingConfirm, .invalidConfirm => .ok .unpaired
  | .awaitingConfirm, .confirmTimeout => .ok .unpaired
  | .awaitingConfirm, .userAborted => .ok .unpaired
  | .ackSent, .ackWrittenOk => .ok .paired
  | .ackSent, .ackWriteFailed => .ok .unpaired
  | state, event => .error (.illegal state event)

/-! ## The replay gate -/

/-- A bloom filter for nonces. -/
structure Bloom where
  Filter : Type
  fresh : Filter
  check : Filter → Octets 32 → Bool
  set : Filter → Octets 32 → Filter

/-- 48 hours. -/
def retention : Nat := 48 * 3600 * 1000000000

/-- `NonceGuard`, in memory. A file that cannot be written is only reported. -/
structure NonceGuard (bloom : Bloom) where
  filter : bloom.Filter
  createdAt : Nat

namespace NonceGuard

variable {bloom : Bloom}

/-- A filter past its retention is replaced. A clock that went back counts as none. -/
def maybeRotate (self : NonceGuard bloom) (now : Nat) : NonceGuard bloom :=
  if retention < now - self.createdAt then ⟨bloom.fresh, now⟩ else self

/-- `record_and_check`: whether the nonce was there already. -/
def recordAndCheck (self : NonceGuard bloom) (now : Nat) (nonce : Octets 32) :
    Bool × NonceGuard bloom :=
  let self := self.maybeRotate now
  (bloom.check self.filter nonce, { self with filter := bloom.set self.filter nonce })

end NonceGuard

/-! ## What the driver is given -/

inductive PairingError where
  | genericFailed
  | versionMismatch (found expected : UInt16)
  | qrExpired
  | confirmTimedOut
  | replayedNonce
  | pcNameTooLong (length : Nat)
  | qrEncode (text : String)
  | qrCorrupt
  | protocol (e : ProtocolError)
  | sharedProtocol (e : SharedError)
  | crypto (e : CryptoError)
  | storage (e : StorageError)
  | transport (text : String)
deriving DecidableEq

/-- Why the driver does not return. -/
inductive Crash where
  | illegalTransition
  | decoder
  | framing
deriving DecidableEq

inductive Halt where
  | err (e : PairingError)
  | crash (c : Crash)
deriving DecidableEq

/-- The durations the driver reads. -/
structure CeremonyLimits where
  qrTtl : Nat
  confirmTimeout : Nat

def CeremonyLimits.spec : CeremonyLimits := ⟨60 * 1000000000, 10 * 1000000000⟩

/-- A connected link. -/
structure Link where
  maxWriteLen : Nat
  inbound : Core.Inbound
  /-- The answer to the `n`-th write. -/
  send : Nat → Except Core.TransportError Unit

/-- A connect attempt that is left alone. -/
structure Attempt where
  /-- After how long it is through, if ever. -/
  delay : Option Nat
  outcome : Except Core.TransportError Link

structure Env where
  bloom : Bloom
  entropy : Except CryptoError (Octets 32)
  pcIdPub : Octets 32
  pcDhPub : Octets 32
  pcName : String
  serviceUuid : Octets 16
  sign : Bytes → Octets 64
  verify : Octets 32 → Bytes → Octets 64 → Bool
  parsesKey : Octets 32 → Bool
  probe : Octets 32 → Octets 32
  /-- The `n`-th attempt, and the time it is given. -/
  connect : Nat → Nat → Attempt
  reader : Bytes → Reading Question Question.Answer String (PairingWireMessage × Nat)
  intoWriter : WireMessage → Except String Bytes
  sha256 : Bytes → Octets 32
  /-- The clocks at the QR, at the replay gate and at the end. -/
  shownAt : Int64
  gateAt : Nat
  pairedAt : Int64
  storeBroken : Bool

structure PairedPeer where
  phoneIdPub : Octets 32
  phoneDhPub : Octets 32
deriving DecidableEq

/-- What the driver does, in order. -/
inductive Obs where
  | displayed (qr : PairingQr)
  /-- A link is up, this long after the start. -/
  | connected (elapsed : Nat)
  /-- All that was taken from the link. -/
  | received (bytes : Bytes)
  | recorded (nonce : Octets 32) (seen : Bool)
  /-- A write, which the link may report as failed. -/
  | sent (frame : Bytes)

structure Ceremony (bloom : Bloom) where
  state : PairingState
  nonces : NonceGuard bloom
  store : PairingsDb
  trace : List Obs

/-! ## Connecting -/

/-- How long an attempt is polled before it is dropped. -/
def sweepTick : Nat := 250 * 1000000

/-- The loop of CONNECTING: `left` of the QR window remains. A failed attempt takes at
least a nanosecond, so as many rounds as there are nanoseconds are enough. -/
def connectLoop (connect : Nat → Nat → Attempt) : (fuel left round : Nat) → Option (Link × Nat)
  | 0, _, _ => none
  | fuel + 1, left, round =>
    if left = 0 then none
    else
      let attempt := connect round left
      match attempt.delay.filter (· ≤ min left sweepTick), attempt.outcome with
      | some delay, .ok link => some (link, left - delay)
      -- a BLE hiccup
      | some delay, .error _ => connectLoop connect fuel (left - max 1 delay) (round + 1)
      -- the tick: the attempt is dropped, wherever it was
      | none, _ => connectLoop connect fuel (left - min left sweepTick) (round + 1)

/-! ## Receiving -/

inductive ConfirmReceiveError where
  | timedOut
  | invalid
  | invalidAfterMessage
deriving DecidableEq

def maxQueuedChunksToDrain : Nat := 64

/-- Nothing is queued any more: the message stands if it came alone. -/
def settle (assembler : InboundAssembler) (confirm : Bytes) : Except ConfirmReceiveError Bytes :=
  if assembler.isIdle then .ok confirm else .error .invalidAfterMessage

/-- The loop of `receive_pairing_confirm`, with what has been taken from the link. Without a
message it waits for the next chunk, with one it takes what is queued. -/
def receiveLoop (timeout : Nat) (closesAt : Option Nat) :
    List (Nat × Bytes) → (now : Nat) → InboundAssembler → Option Bytes → (drained : Nat) → Bytes →
      Bytes × Except ConfirmReceiveError Bytes
  | [], now, _, none, _, got =>
    -- the link fails, or the window closes first
    (got, .error (if closesAt.any (max now · ≤ timeout) then .invalid else .timedOut))
  | [], now, assembler, some confirm, _, got =>
    (got, if closesAt.any (· ≤ now) then .error .invalidAfterMessage else settle assembler confirm)
  | (arrival, chunk) :: rest, now, assembler, none, drained, got =>
    if timeout < max now arrival then (got, .error .timedOut)
    else
      match assembler.ingest chunk with
      | (_, .error _) => (got ++ chunk, .error .invalid)
      | (next, .ok []) =>
        receiveLoop timeout closesAt rest (max now arrival) next none drained (got ++ chunk)
      | (next, .ok [message]) =>
        receiveLoop timeout closesAt rest (max now arrival) next (some message) drained
          (got ++ chunk)
      | (_, .ok _) => (got ++ chunk, .error .invalidAfterMessage)
  | (arrival, chunk) :: rest, now, assembler, some confirm, drained, got =>
    if now < arrival then (got, settle assembler confirm)
    else if maxQueuedChunksToDrain < drained + 1 then (got ++ chunk, .error .invalidAfterMessage)
    else
      match assembler.ingest chunk with
      | (next, .ok []) =>
        receiveLoop timeout closesAt rest now next (some confirm) (drained + 1) (got ++ chunk)
      | _ => (got ++ chunk, .error .invalidAfterMessage)

def receivePairingConfirm (inbound : Core.Inbound) (timeout : Nat) :
    Bytes × Except ConfirmReceiveError Bytes :=
  receiveLoop timeout inbound.closesAt inbound.arrivals 0 .new none 0 []

/-! ## The driver -/

section Driver

variable {bloom : Bloom}

abbrev Outcome (bloom : Bloom) := Ceremony bloom × Except Halt PairedPeer

variable (c : Ceremony bloom)

def Ceremony.emit (o : Obs) : Ceremony bloom :=
  { c with trace := c.trace ++ [o] }

/-- `machine::step(state, event).expect(…)`, and on. -/
def Ceremony.advance (event : Event) (next : Ceremony bloom → Outcome bloom) :
    Outcome bloom :=
  match step c.state event with
  | .error _ => (c, .error (.crash .illegalTransition))
  | .ok state => next { c with state }

/-- `fail_via!`: back to UNPAIRED, with an error. -/
def Ceremony.failVia (event : Event) (e : PairingError) : Outcome bloom :=
  c.advance event fun c =>
    if c.state ≠ .unpaired then (c, .error (.crash .illegalTransition)) else (c, .error (.err e))

/-- The replay gate: the nonce is burned, and a replay ends the ceremony. -/
def Ceremony.gate (now : Nat) (nonce : Octets 32)
    (next : Ceremony bloom → Outcome bloom) : Outcome bloom :=
  match c.nonces.recordAndCheck now nonce with
  | (seen, nonces) =>
    let c := { c with nonces }.emit (.recorded nonce seen)
    if seen then c.failVia .invalidConfirm .replayedNonce else next c

end Driver

section Run

variable (env : Env)

/-- The `for` loop over the Ack's frames, the `n`-th write first. -/
def sendFrames (link : Link) :
    Ceremony env.bloom → Nat → List Bytes → Ceremony env.bloom × Option Core.TransportError
  | c, _, [] => (c, none)
  | c, n, frame :: frames =>
    match link.send n with
    | .error e => (c.emit (.sent frame), some e)
    | .ok () => sendFrames link (c.emit (.sent frame)) (n + 1) frames

section

variable (c : Ceremony env.bloom)

/-- PAIRED: the peer is stored. -/
def persist (confirm : PairingConfirm) : Outcome env.bloom :=
  c.advance .ackWrittenOk fun c =>
    if c.state ≠ .paired then (c, .error (.crash .illegalTransition))
    else
      match PairingsDb.record env.sha256 env.storeBroken c.store confirm.phoneIdPub
          confirm.phoneDhPub env.pairedAt with
      | (store, .error e) => ({ c with store }, .error (.err (.storage e)))
      | (store, .ok record) => ({ c with store }, .ok ⟨record.idPub, record.dhPub⟩)

/-- ACK_SENT: the answer goes out. -/
def acknowledge (link : Link) (nonce : Octets 32)
    (confirm : PairingConfirm) : Outcome env.bloom :=
  c.advance .validConfirmReceived fun c =>
    let ack := signAck env.sign nonce env.pcIdPub confirm.phoneIdPub confirm.phoneDhPub
    match encode env.intoWriter (.pairingAck ack) with
    | .error e => (c, .error (.err (.protocol e)))
    | .ok bytes =>
      match splitMessage bytes link.maxWriteLen 0 with
      | .error .panic => (c, .error (.crash .framing))
      | .error (.err _) => c.failVia .ackWriteFailed .genericFailed
      | .ok (frames, _) =>
        match sendFrames env link c 0 frames with
        | (c, some e) => c.failVia .ackWriteFailed (.transport e.text)
        | (c, none) => persist env c confirm

/-- From a complete message on: the replay gate first, then the signature. -/
def judge (link : Link) (nonce : Octets 32) (message : Bytes) :
    Outcome env.bloom :=
  c.gate env.gateAt nonce fun c =>
    match decodeConfirmMessage env.reader message with
    | .error .panic => (c, .error (.crash .decoder))
    | .error (.err _) => c.failVia .invalidConfirm .genericFailed
    | .ok confirm =>
      if ¬ env.parsesKey confirm.phoneIdPub then c.failVia .invalidConfirm .genericFailed
      else
        match verifyConfirm env.verify confirm confirm.phoneIdPub env.pcIdPub nonce with
        | .error _ => c.failVia .invalidConfirm .genericFailed
        | .ok _ => acknowledge env c link nonce confirm

/-- AWAITING_CONFIRM. -/
def awaitConfirm (limits : CeremonyLimits) (link : Link)
    (nonce : Octets 32) : Outcome env.bloom :=
  match receivePairingConfirm link.inbound limits.confirmTimeout with
  | (got, received) =>
    let c := c.emit (.received got)
    match received with
    | .error .timedOut => c.failVia .confirmTimeout .confirmTimedOut
    | .error .invalid => c.failVia .invalidConfirm .genericFailed
    | .error .invalidAfterMessage =>
      -- a complete message came in, so the nonce is burned all the same
      c.gate env.gateAt nonce fun c => c.failVia .invalidConfirm .genericFailed
    | .ok message => judge env c link nonce message

end

def runPairing (limits : CeremonyLimits) (nonces : NonceGuard env.bloom) (store : PairingsDb) :
    Outcome env.bloom :=
  let c : Ceremony env.bloom := ⟨.unpaired, nonces, store, []⟩
  match env.entropy with
  | .error e => (c, .error (.err (.crypto e)))
  | .ok nonce =>
    match PairingQr.new env.parsesKey env.probe env.shownAt env.pcIdPub env.pcDhPub nonce env.pcName
        env.serviceUuid with
    | .error e => (c, .error (.err (.sharedProtocol e)))
    | .ok qr =>
      (c.emit (.displayed qr)).advance .beginPairing fun c =>
        match connectLoop env.connect limits.qrTtl limits.qrTtl 0 with
        | none => (c, .error (.err .qrExpired))
        | some (link, left) =>
          c.advance .advertisementSeen fun c =>
            c.advance .gattConnected fun c =>
              awaitConfirm env (c.emit (.connected (limits.qrTtl - left))) limits link nonce

end Run

end Conveyance.Pairing
