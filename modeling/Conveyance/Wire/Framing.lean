import Conveyance.Lib.Bytes

/-!
# Framing and reassembly (conveyance-wire)

The model of `framing.rs` and `assembler.rs`. A frame is a six-byte header
(big-endian payload length, big-endian sequence number, flags, a zero reserved
byte) followed by its payload:

- `splitMessage` cuts one application message into frames;
- `Framer.ingest` takes one whole frame and puts messages back together;
- `InboundAssembler.ingest` takes raw link bytes, slices frames out of them on
  the declared length and feeds each to its one `Framer`.

Both `ingest` functions return the state they leave behind together with their
result: the source mutates `self` before several of its error returns, and a
caller that keeps going after an error sees those mutations.
-/

namespace Conveyance.Wire

open Lib

/-- `FrameError` (framing.rs:33–53). -/
inductive FrameError where
  | frameTruncated
  | frameLengthMismatch (declared actual : Nat)
  | nonZeroReserved
  | illegalFlags (bits : UInt8)
  | strayMiddleFrame
  | nestedMessage
  | sequenceGap (expected got : UInt16)
  | messageTooLarge (size cap : Nat)
  | invalidSplitSize
deriving DecidableEq

def flagStart : UInt8 := 0b001
def flagEnd : UInt8 := 0b010
def flagAck : UInt8 := 0b100

/-- All valid flag masks: single frame, start, end, middle, ack. -/
def legalFlags : List UInt8 := [flagStart ||| flagEnd, flagStart, flagEnd, 0, flagAck]

def headerLen : Nat := 6

/-- 128 KiB, the reassembly cap of each side. -/
def defaultReassemblyCap : Nat := 128 * 1024

def attPduOverhead : Nat := 3

def minAttMtu : Nat := 23

/-- Largest payload that keeps a whole frame inside one GATT operation. -/
def maxFramePayload (attMtu : UInt16) : Nat :=
  max attMtu.toNat minAttMtu - attPduOverhead - headerLen

/-! ## Sending -/

/-- `encode_frame`. The source asserts that the payload length fits a `u16`. -/
def encodeFrame (seq : UInt16) (flags : UInt8) (payload : Bytes) :
    Except (Fault FrameError) Bytes :=
  if payload.length ≤ 65535 then
    .ok (u16ToBe (UInt16.ofNat payload.length) ++ u16ToBe seq ++ [flags, 0] ++ payload)
  else
    .error .panic

/-- `encode_ack`: an empty frame that echoes the sequence it acknowledges. -/
def encodeAck (ackedSeq : UInt16) : Bytes :=
  u16ToBe 0 ++ u16ToBe ackedSeq ++ [flagAck, 0]

/-- The flags of frame `i` of `count`. -/
def frameFlags (count i : Nat) : UInt8 :=
  if i = 0 then
    if count = 1 then flagStart ||| flagEnd else flagStart
  else if i = count - 1 then flagEnd
  else 0

/-- The `for i in 0..count` loop of `split_message`: `left` iterations remain
and `offset` bytes of the message are already in frames. -/
def splitLoop (message : Bytes) (maxPayload : Nat) (startSeq : UInt16) (count : Nat) :
    Nat → Nat → Except (Fault FrameError) (List Bytes)
  | 0, _ => .ok []
  | left + 1, offset => do
    let i := count - (left + 1)
    let stop := min (offset + maxPayload) message.length
    let payload := (message.drop offset).take (stop - offset)
    let frame ← encodeFrame (startSeq + UInt16.ofNat i) (frameFlags count i) payload
    let rest ← splitLoop message maxPayload startSeq count left stop
    return frame :: rest

/-- `message.len().div_ceil(max_payload).max(1)`. -/
def frameCount (message : Bytes) (maxPayload : Nat) : Nat :=
  max ((message.length + maxPayload - 1) / maxPayload) 1

/-- `split_message`: the encoded frames in order and the next free sequence. -/
def splitMessage (message : Bytes) (maxPayload : Nat) (startSeq : UInt16) :
    Except (Fault FrameError) (List Bytes × UInt16) :=
  if maxPayload = 0 then .error (.err .invalidSplitSize)
  else do
    let count := frameCount message maxPayload
    let frames ← splitLoop message maxPayload startSeq count count 0
    return (frames, startSeq + UInt16.ofNat count)

theorem splitLoop_ok {message : Bytes} (maxPayload count : Nat) (start : UInt16)
    (hlen : message.length ≤ 65535) (left offset : Nat) :
    ∃ frames, splitLoop message maxPayload start count left offset = .ok frames := by
  induction left generalizing offset with
  | zero => exact ⟨[], rfl⟩
  | succ left ih =>
    obtain ⟨frames, hframes⟩ := ih (min (offset + maxPayload) message.length)
    have hpayload : ((message.drop offset).take
        (min (offset + maxPayload) message.length - offset)).length ≤ 65535 := by
      rw [List.length_take, List.length_drop]
      omega
    rw [splitLoop, hframes, encodeFrame, if_pos hpayload]
    exact ⟨_, rfl⟩

theorem splitMessage_ok {message : Bytes} {maxPayload : Nat} (start : UInt16)
    (hpos : 1 ≤ maxPayload) (hlen : message.length ≤ 65535) :
    ∃ frames next, splitMessage message maxPayload start = .ok (frames, next) := by
  obtain ⟨frames, hframes⟩ :=
    splitLoop_ok maxPayload (frameCount message maxPayload) start hlen
      (frameCount message maxPayload) 0
  rw [splitMessage, if_neg (by omega)]
  simp only [hframes]
  exact ⟨frames, _, rfl⟩

/-! ## Receiving frames -/

inductive Progress where
  | idle
  | assembling
deriving DecidableEq

/-- `Framer`: the reassembly half of one connection. -/
structure Framer where
  cap : Nat
  progress : Progress
  /-- Next expected sequence number; acks skip this. -/
  nextSeq : Option UInt16
  buffer : Bytes
deriving DecidableEq

namespace Framer

def withCap (cap : Nat) : Framer := ⟨cap, .idle, none, []⟩

def new : Framer := withCap defaultReassemblyCap

variable (self : Framer)

/-- No application message is being reassembled. -/
def isIdle : Bool :=
  self.progress = .idle ∧ self.buffer = []

def checkCap : Except FrameError Unit :=
  if self.buffer.length > self.cap then
    .error (.messageTooLarge self.buffer.length self.cap)
  else .ok ()

/-- `check_cap()?; Ok(out)` on the state the frame has already changed. -/
def capped (out : Option Bytes) (done : Framer) :
    Framer × Except FrameError (Option Bytes) :=
  match self.checkCap with
  | .error e => (self, .error e)
  | .ok () => (done, .ok out)

/-- The last `match flags` of `ingest`, once the sequence has been accepted. -/
def accept (seq : UInt16) (flags : UInt8) (payload : Bytes) :
    Framer × Except FrameError (Option Bytes) :=
  if flags = flagStart ||| flagEnd then (self, .ok (some payload))
  else if flags = flagStart then
    let next := { self with buffer := payload, progress := .assembling }
    next.capped none next
  else if flags = 0 then
    let next := { self with buffer := self.buffer ++ payload }
    next.capped none next
  else if self.progress = .idle then
    -- a bare END: its START vanished
    (self, .error (.sequenceGap (seq - 1) seq))
  else
    let next := { self with buffer := self.buffer ++ payload }
    next.capped (some next.buffer) { next with progress := .idle, buffer := [] }

/-- The sequence check, which runs after the shape checks and before anything
is buffered. -/
def checkSeq (seq : UInt16) : Except FrameError Framer :=
  match self.nextSeq with
  | some expected =>
    if seq ≠ expected then .error (.sequenceGap expected seq)
    else .ok { self with nextSeq := some (expected + 1) }
  | none => .ok { self with nextSeq := some (seq + 1) }

/-- `Framer::ingest`: one frame in, a message out when its END arrived. -/
def ingest (frameBytes : Bytes) :
    Framer × Except FrameError (Option Bytes) :=
  match frameBytes with
  | l₀ :: l₁ :: s₀ :: s₁ :: flags :: reserved :: payload =>
    let declared := (u16OfBe l₀ l₁).toNat
    let seq := u16OfBe s₀ s₁
    if reserved ≠ 0 then (self, .error .nonZeroReserved)
    else if flags ∉ legalFlags then (self, .error (.illegalFlags flags))
    else if payload.length ≠ declared then
      (self, .error (.frameLengthMismatch declared payload.length))
    else if flags = flagAck then
      if payload ≠ [] then (self, .error (.illegalFlags flags)) else (self, .ok none)
    else if flags &&& flagStart ≠ 0 ∧ self.progress ≠ .idle then
      (self, .error .nestedMessage)
    else if flags = 0 ∧ self.progress = .idle then
      (self, .error .strayMiddleFrame)
    else
      match self.checkSeq seq with
      | .error e => (self, .error e)
      | .ok next => next.accept seq flags payload
  | _ => (self, .error .frameTruncated)

end Framer

/-! ## Receiving bytes -/

/-- `InboundAssembler`: unframed bytes in front of one persistent `Framer`. -/
structure InboundAssembler where
  buffer : Bytes
  framer : Framer
deriving DecidableEq

namespace InboundAssembler

def new : InboundAssembler := ⟨[], .new⟩

/-- The byte stream ends at an application-message boundary. -/
def isIdle (self : InboundAssembler) : Bool :=
  self.buffer = [] ∧ self.framer.isIdle

/-- The frame at the front of the buffer: `none` when it is not complete yet,
otherwise the frame and what follows it. -/
def nextFrame (buffer : Bytes) : Except FrameError (Option (Bytes × Bytes)) :=
  match buffer with
  | l₀ :: l₁ :: _ =>
    if buffer.length < headerLen then .ok none
    else
      let declared := (u16OfBe l₀ l₁).toNat
      if declared > defaultReassemblyCap then
        .error (.messageTooLarge declared defaultReassemblyCap)
      else
        let total := headerLen + declared
        if buffer.length < total then .ok none
        else .ok (some (buffer.take total, buffer.drop total))
  | _ => .ok none

/-- The `loop` of `ingest`. Each round takes at least a header off the buffer,
so as many rounds as there are bytes are enough (`drain_of_feeds`). -/
def drain : Nat → InboundAssembler → List Bytes →
    InboundAssembler × Except FrameError (List Bytes)
  | 0, self, messages => (self, .ok messages)
  | fuel + 1, self, messages =>
    match nextFrame self.buffer with
    | .error e => (self, .error e)
    | .ok none => (self, .ok messages)
    | .ok (some (frame, rest)) =>
      match self.framer.ingest frame with
      | (framer, .error e) => (⟨rest, framer⟩, .error e)
      | (framer, .ok none) => drain fuel ⟨rest, framer⟩ messages
      | (framer, .ok (some message)) => drain fuel ⟨rest, framer⟩ (messages ++ [message])

/-- `InboundAssembler::ingest`: every message that completed on this call. -/
def ingest (self : InboundAssembler) (bytes : Bytes) :
    InboundAssembler × Except FrameError (List Bytes) :=
  let self := { self with buffer := self.buffer ++ bytes }
  if self.buffer.length > defaultReassemblyCap then
    (self, .error (.messageTooLarge self.buffer.length defaultReassemblyCap))
  else drain self.buffer.length self []

end InboundAssembler

end Conveyance.Wire
