import Conveyance.Pairing.Messages
import Conveyance.Phone.Framing
import Conveyance.Phone.Session

/-!
# Pairing on the phone (android, pairing/, and conveyance-crypto-ffi, pairing.rs)

`PairingCoordinator.pair`: parse the scanned code, sign a confirm, wait for the PC, send
the confirm, take one message, verify it as the PC's Ack, save the PC. The QR handle and
its checks are the FFI's.

Whatever the platform throws into the coroutine is a `Thrown`, and `catches` is what the
`catch` clauses make of it. Clocks, the radio, CBOR, Ed25519 and the phone's database are
in `Device`. A write to the database may have landed though its call throws.
-/

namespace Conveyance.Pairing

open Lib Crypto Protocol
open Conveyance.Phone (LinkEvent)

/-! ## The QR handle -/

structure PhoneIdentity where
  idPub : Octets 32
  dhPub : Octets 32
  sign : Bytes → Octets 64

structure PairingConfirmPayload where
  phoneIdPub : Octets 32
  phoneDhPub : Octets 32
  wireMessage : Bytes
deriving DecidableEq

inductive PairingPhase where
  | ready
  | confirmSent (payload : PairingConfirmPayload)
  | paired

/-- A validated QR and its one-shot protocol state. -/
structure PendingPairing where
  qr : PairingQr
  phase : PairingPhase

def encodeConfirmMessage (intoWriter : PairingWireMessage → Option Bytes)
    (confirm : PairingConfirm) : Except SharedError Bytes :=
  match intoWriter (.pairingConfirm confirm) with
  | none => .error .pairingFailed
  | some encoded =>
    if maxPairingMessageBytes < encoded.length then .error .pairingFailed else .ok encoded

/-- A handle creates one confirm. -/
def PendingPairing.createConfirm (intoWriter : PairingWireMessage → Option Bytes)
    (self : PendingPairing) (identity : PhoneIdentity) :
    Except SharedError (PendingPairing × PairingConfirmPayload) :=
  match self.phase with
  | .ready =>
    let payload := pairingPayload self.qr.pcIdPub self.qr.nonce identity.idPub identity.dhPub
    match encodeConfirmMessage intoWriter
        ⟨identity.idPub, identity.dhPub, identity.sign payload⟩ with
    | .error e => .error e
    | .ok wireMessage =>
      let result := ⟨identity.idPub, identity.dhPub, wireMessage⟩
      .ok ({ self with phase := .confirmSent result }, result)
  | _ => .error .pairingFailed

section Verify

variable (parsesKey : Octets 32 → Bool) (verify : Octets 32 → Bytes → Octets 64 → Bool)
  (reader : Bytes → Reading Question Question.Answer String (PairingWireMessage × Nat))

/-- `PairingAck::verify`. -/
def verifyAckSignature (ack : PairingAck) (pcPublic : Octets 32) : Except SharedError Unit :=
  if verify pcPublic (pairingPayload ack.pcIdPub ack.nonce ack.phoneIdPub ack.phoneDhPub)
      ack.signature then .ok ()
  else .error .pairingFailed

def verifyAckFields (qr : PairingQr) (confirm : PairingConfirmPayload) (ack : PairingAck) :
    Except SharedError Unit :=
  if ack.nonce ≠ qr.nonce ∨ ack.pcIdPub ≠ qr.pcIdPub ∨ ack.phoneIdPub ≠ confirm.phoneIdPub ∨
      ack.phoneDhPub ≠ confirm.phoneDhPub then .error .pairingFailed
  else if ¬ parsesKey qr.pcIdPub then .error .pairingFailed
  else verifyAckSignature verify ack qr.pcIdPub

/-- `verify_ack`, which consumes the handle. -/
def PendingPairing.verifyAck (self : PendingPairing) (wireMessage : Bytes) :
    Except (Fault SharedError) PendingPairing :=
  match self.phase with
  | .confirmSent confirm =>
    match decodeAckMessage reader wireMessage with
    | .error e => .error e
    | .ok ack =>
      match verifyAckFields parsesKey verify self.qr confirm ack with
      | .error e => .error (.err e)
      | .ok () => .ok { self with phase := .paired }
  | _ => .error (.err .pairingFailed)

/-- A verified Ack is for the keys of the confirm. -/
theorem verifyAckFields_ok {qr : PairingQr} {confirm : PairingConfirmPayload} {ack : PairingAck}
    (h : verifyAckFields parsesKey verify qr confirm ack = .ok ()) :
    ack.phoneIdPub = confirm.phoneIdPub ∧ ack.phoneDhPub = confirm.phoneDhPub := by
  unfold verifyAckFields at h
  by_cases hfields : ack.nonce ≠ qr.nonce ∨ ack.pcIdPub ≠ qr.pcIdPub ∨
      ack.phoneIdPub ≠ confirm.phoneIdPub ∨ ack.phoneDhPub ≠ confirm.phoneDhPub
  · rw [if_pos hfields] at h
    cases h
  · simp only [not_or, not_not] at hfields
    exact ⟨hfields.2.2.1, hfields.2.2.2⟩

end Verify

/-! ## The coordinator -/

/-- `PairingProtocolException`, by its kind. -/
inductive PairingProtocolException where
  | expired
  | incompatibleVersion (found expected : UInt16)
  | failed
deriving DecidableEq

/-- What a call throws into the coroutine. -/
inductive Thrown where
  | timeout
  | cancelled
  | protocol (e : PairingProtocolException)
  | other
deriving DecidableEq

inductive PairFailure where
  | cancelled
  | protocol (e : PairingProtocolException)
deriving DecidableEq

/-- The `catch` clauses of `pair`, in their order. -/
def catches : Thrown → PairFailure
  | .timeout => .protocol .failed
  | .cancelled => .cancelled
  | .protocol e => .protocol e
  | .other => .protocol .failed

/-- The link of the radio. -/
structure PhoneLink where
  maxWriteLen : Int32
  /-- The answer to the `n`-th write. -/
  send : Nat → Except Thrown Unit
  /-- When the collector is resumed, in milliseconds, and with what. -/
  events : List (Nat × Except Thrown LinkEvent)

/-- A paired PC. -/
structure PairingEntity where
  pcIdPub : Octets 32
  pcDhPub : Octets 32
  pcName : String
  firstPairedAt : Int64
  lastSessionAt : Option Int64
deriving DecidableEq

abbrev PairingStore := List PairingEntity

def PairingStore.get (store : PairingStore) (pcIdPub : Octets 32) : Option PairingEntity :=
  store.find? (·.pcIdPub = pcIdPub)

/-- `OnConflictStrategy.REPLACE` on the PC's identity key. -/
def PairingStore.save (store : PairingStore) (pairing : PairingEntity) : PairingStore :=
  store.filter (·.pcIdPub ≠ pairing.pcIdPub) ++ [pairing]

structure Device where
  parsesKey : Octets 32 → Bool
  probe : Octets 32 → Octets 32
  base64 : String → Option Bytes
  readValue : Bytes → Option (Value × Nat)
  readQr : Bytes → Option (PairingQr × Nat)
  reader : Bytes → Reading Question Question.Answer String (PairingWireMessage × Nat)
  intoWriter : PairingWireMessage → Option Bytes
  verify : Octets 32 → Bytes → Octets 64 → Bool
  /-- The unlocked identity, if it is one of the FFI's. -/
  identity : Option PhoneIdentity
  /-- The clock at the parse, before connecting and at the end. -/
  parsedAt : Int64
  connectsAt : Int64
  pairedAt : Int64
  /-- The radio, for the milliseconds it is given. -/
  connect : Int64 → Except Thrown PhoneLink
  getThrows : Option Thrown
  saveLands : Bool
  saveThrows : Option Thrown

def ackTimeoutMs : Nat := 10000

def qrConnectWindowMs : Int64 := 60000

def connectTimeoutMillis (expires now : Int64) : Int64 :=
  min (max (expires - now) 0 * 1000) qrConnectWindowMs

/-- The frames go out one by one, the `n`-th write first. -/
def PhoneLink.sendAll (link : PhoneLink) : Nat → List (List Int8) → Except Thrown Unit
  | _, [] => .ok ()
  | n, _ :: frames =>
    match link.send n with
    | .error t => .error t
    | .ok () => link.sendAll (n + 1) frames

def PhoneLink.sendFramed (link : PhoneLink) (message : Bytes) : Except Thrown Unit :=
  match Phone.Framing.split (octets message) link.maxWriteLen 0 with
  | .error _ => .error .other
  | .ok split => link.sendAll 0 split.frames

/-- The collector of `receiveOneMessage`: the first message ends it. -/
def receiveOneMessage :
    List (Nat × Except Thrown LinkEvent) → Phone.Framing.InboundAssembler →
      Except Thrown (List Int8)
  | [], _ => .error (.protocol .failed)
  | (arrival, event) :: events, assembler =>
    if ackTimeoutMs < arrival then .error (.protocol .failed)
    else
      match event with
      | .error .timeout => .error (.protocol .failed)
      | .error t => .error t
      | .ok (.torn _) => .error (.protocol .failed)
      | .ok (.chunk bytes) =>
        match assembler.ingest (octets bytes) with
        | (_, .error _) => .error .other
        | (next, .ok []) => receiveOneMessage events next
        | (_, .ok [message]) => .ok message
        | (_, .ok _) => .error (.protocol .failed)

/-- What a run leaves: the store, the row it wrote, and what `pair` returns. -/
structure PairOutcome where
  store : PairingStore
  wrote : Option PairingEntity
  result : Except PairFailure PairingEntity

namespace Device

variable (d : Device)

def parse (encoded : String) : Except PairingProtocolException PendingPairing :=
  match PairingQr.parse d.parsesKey d.probe d.base64 d.readValue d.readQr encoded d.parsedAt with
  | .ok qr => .ok ⟨qr, .ready⟩
  | .error .qrExpired => .error .expired
  | .error (.versionMismatch found expected) => .error (.incompatibleVersion found expected)
  | .error _ => .error .failed

def createConfirm (request : PendingPairing) :
    Except PairingProtocolException (PendingPairing × PairingConfirmPayload) :=
  match d.identity with
  | none => .error .failed
  | some identity =>
    match request.createConfirm d.intoWriter identity with
    | .error _ => .error .failed
    | .ok confirmed => .ok confirmed

/-- From the connected radio to the verified Ack. -/
def exchange (request : PendingPairing) (confirm : PairingConfirmPayload) (timeout : Int64) :
    Except Thrown PendingPairing :=
  match d.connect timeout with
  | .error t => .error t
  | .ok link =>
    match link.sendFramed confirm.wireMessage with
    | .error t => .error t
    | .ok () =>
      match receiveOneMessage link.events .new with
      | .error t => .error t
      | .ok ack =>
        match request.verifyAck d.parsesKey d.verify d.reader (ack.map Int8.toUInt8) with
        | .error (.err _) => .error (.protocol .failed)
        -- a panic crosses the FFI as another exception
        | .error .panic => .error .other
        | .ok request => .ok request

/-- The PC is saved, with the times of the row it replaces. -/
def keep (qr : PairingQr) (store : PairingStore) : PairOutcome :=
  match d.getThrows with
  | some t => ⟨store, none, .error (catches t)⟩
  | none =>
    let prior := store.get qr.pcIdPub
    let paired : PairingEntity := ⟨qr.pcIdPub, qr.pcDhPub, qr.pcName,
      (prior.map (·.firstPairedAt)).getD d.pairedAt, prior.bind (·.lastSessionAt)⟩
    let store := if d.saveLands then store.save paired else store
    let wrote := if d.saveLands then some paired else none
    match d.saveThrows with
    | some t => ⟨store, wrote, .error (catches t)⟩
    | none => ⟨store, wrote, .ok paired⟩

def pair (encodedQr : String) (store : PairingStore) : PairOutcome :=
  match d.parse encodedQr with
  | .error e => ⟨store, none, .error (.protocol e)⟩
  | .ok request =>
    match d.createConfirm request with
    | .error e => ⟨store, none, .error (.protocol e)⟩
    | .ok (request, confirm) =>
      let timeout := connectTimeoutMillis request.qr.expires d.connectsAt
      if timeout ≤ 0 then ⟨store, none, .error (.protocol .expired)⟩
      else
        match d.exchange request confirm timeout with
        | .error t => ⟨store, none, .error (catches t)⟩
        | .ok request => d.keep request.qr store

variable {d}

variable {request request' : PendingPairing} {confirm : PairingConfirmPayload}

theorem createConfirm_ok (h : d.createConfirm request = .ok (request', confirm)) :
    ∃ identity, d.identity = some identity ∧ confirm.phoneIdPub = identity.idPub ∧
      confirm.phoneDhPub = identity.dhPub ∧ request'.phase = .confirmSent confirm := by
  unfold createConfirm at h
  split at h
  next => cases h
  next identity hidentity =>
    refine ⟨identity, hidentity, ?_⟩
    unfold PendingPairing.createConfirm at h
    cases hphase : request.phase with
    | ready =>
      rw [hphase] at h
      dsimp only at h
      generalize encodeConfirmMessage d.intoWriter _ = encoded at h
      cases encoded with
      | error e => cases h
      | ok wireMessage =>
        cases h
        exact ⟨rfl, rfl, rfl⟩
    | confirmSent | paired =>
      rw [hphase] at h
      cases h

/-- A verified exchange received one message, and it is an Ack for the keys of the confirm. -/
theorem exchange_ok {timeout : Int64} (hphase : request.phase = .confirmSent confirm)
    (h : d.exchange request confirm timeout = .ok request') :
    ∃ link message ack, d.connect timeout = .ok link ∧
      receiveOneMessage link.events .new = .ok message ∧
      decodeAckMessage d.reader (message.map Int8.toUInt8) = .ok ack ∧
      ack.phoneIdPub = confirm.phoneIdPub ∧ ack.phoneDhPub = confirm.phoneDhPub := by
  unfold exchange at h
  split at h
  next => cases h
  next link hconnect =>
    split at h
    next => cases h
    next hsent =>
      split at h
      next => cases h
      next message hreceived =>
        unfold PendingPairing.verifyAck at h
        rw [hphase] at h
        dsimp only at h
        cases hdecode : decodeAckMessage d.reader (message.map Int8.toUInt8) with
        | error e =>
          rw [hdecode] at h
          cases e <;> cases h
        | ok ack =>
          rw [hdecode] at h
          dsimp only at h
          cases hfields : verifyAckFields d.parsesKey d.verify request.qr confirm ack with
          | error e =>
            rw [hfields] at h
            cases h
          | ok =>
            exact ⟨link, message, ack, hconnect, hreceived, hdecode, verifyAckFields_ok _ _ hfields⟩

/-- Where a row was written, an Ack for this phone's keys was received. -/
theorem pair_wrote {encodedQr : String} {store : PairingStore} {entity : PairingEntity}
    (h : (d.pair encodedQr store).wrote = some entity) :
    ∃ identity timeout link message ack, d.identity = some identity ∧
      d.connect timeout = .ok link ∧ receiveOneMessage link.events .new = .ok message ∧
      decodeAckMessage d.reader (message.map Int8.toUInt8) = .ok ack ∧
      ack.phoneIdPub = identity.idPub ∧ ack.phoneDhPub = identity.dhPub := by
  unfold pair at h
  split at h
  next => cases h
  next request hparse =>
    split at h
    next => cases h
    next request confirm hconfirm =>
      obtain ⟨identity, hidentity, hid, hdh, hphase⟩ := createConfirm_ok hconfirm
      dsimp only at h
      split_ifs at h with hexpired
      split at h
      next => cases h
      next request' hexchange =>
        obtain ⟨link, message, ack, hconnect, hreceived, hdecode, hackId, hackDh⟩ :=
          exchange_ok hphase hexchange
        exact ⟨identity, _, link, message, ack, hidentity, hconnect, hreceived, hdecode,
          hackId.trans hid, hackDh.trans hdh⟩

end Device

end Conveyance.Pairing
