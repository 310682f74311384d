import Conveyance.Lib.Signed
import Conveyance.Lib.Transition
import Conveyance.Wire.Framing

/-!
# Framing on the phone

The model of `Frame.kt`, `Framer.kt`, `InboundAssembler.kt` and
`MessageSplitter.kt`, and its agreement with the desktop's framing in
`Wire.Framing`. The two are separate programs: the phone's octets are signed, its
header fields and sequence numbers are 32-bit signed integers that are masked by
hand, and its errors are exceptions thrown out of a half-finished update.

The sizes of arrays are read as plain integers in the receiving half: an array
that outgrew an `Int` could not be allocated. The splitter computes with sizes,
so there they are the 32-bit integers the source has.

`Framer.ofWire` and `InboundAssembler.ofWire` carry a desktop state over to the
phone. Each `ingest` commutes with them, also when it fails: the state left
behind after an error is again the image of the desktop's.
-/

namespace Conveyance.Phone.Framing

open Lib

/-- `FramingException`, the mirror of `Wire.FrameError`. -/
inductive FramingException where
  | frameTruncated
  | frameLengthMismatch (declared actual : Int)
  | nonZeroReserved
  | illegalFlags (bits : Int32)
  | strayMiddleFrame
  | nestedMessage
  | sequenceGap (expected got : Int32)
  | messageTooLarge (size cap : Int)
  | invalidSplitSize
deriving DecidableEq

/-! ## `Frame` -/

def headerLen : Nat := 6

def flagStart : Int32 := 0b001
def flagEnd : Int32 := 0b010
def flagAck : Int32 := 0b100

def legalFlags : List Int32 := [flagStart ||| flagEnd, flagStart, flagEnd, 0, flagAck]

def defaultReassemblyCap : Int := 128 * 1024

/-- What an ATT write or notification spends before its value. -/
def attPduOverhead : Int32 := 3

/-- The least ATT MTU, assumed before an exchange. -/
def minAttMtu : Int32 := 23

/-- The payload budget of a frame that fits one operation. -/
def maxFramePayload (attMtu : Int32) : Int32 :=
  max attMtu minAttMtu - attPduOverhead - Int32.ofNat headerLen

def u16 (hi lo : Int8) : Int32 := ((hi.toInt32 &&& 0xFF) <<< 8) ||| (lo.toInt32 &&& 0xFF)

/-- `u16` addition with wraparound. -/
def wrappingAddU16 (a b : Int32) : Int32 := (a + b) &&& 0xFFFF

/-- The size of an array, an `Int` of the platform. -/
def size (array : List Int8) : Int32 := Int32.ofNat array.length

/-- `Frame.encode`: the source requires the payload length to fit 16 bits. -/
def encode (seq flags : Int32) (payload : List Int8) :
    Except (Fault FramingException) (List Int8) :=
  if size payload ≤ 0xFFFF then
    .ok ([(ushr (size payload) 8 &&& 0xFF).toInt8, (size payload &&& 0xFF).toInt8,
      (ushr seq 8 &&& 0xFF).toInt8, (seq &&& 0xFF).toInt8, (flags &&& 0xFF).toInt8, 0] ++ payload)
  else
    .error .panic

theorem maxFramePayload_pos (attMtu : Int32) : 0 < (maxFramePayload attMtu).toInt := by
  have hmax : 23 ≤ (max attMtu minAttMtu).toInt := by
    rw [toInt_max]
    exact Int.le_max_right _ 23
  have hlt := Int32.toInt_lt (max attMtu minAttMtu)
  have hoverhead : attPduOverhead.toInt = 3 := by decide
  have hheader : (Int32.ofNat headerLen).toInt = 6 := by decide
  rw [maxFramePayload, Int32.toInt_sub, Int32.toInt_sub, hoverhead, hheader]
  simp only [Int.bmod_def]
  split_ifs <;> omega

/-! ### Octets and words of the desktop -/

/-- A 16-bit word as the phone holds it. -/
def word (x : UInt16) : Int32 := Int32.ofNat x.toNat

/-- An unsigned octet as the phone computes with it. -/
def octet (x : UInt8) : Int32 := Int32.ofNat x.toNat

theorem toInt_word (x : UInt16) : (word x).toInt = x.toNat :=
  Int32.toInt_ofNat_of_lt (by have := x.toNat_lt; omega)

theorem word_inj {x y : UInt16} : word x = word y ↔ x = y := by
  have hx := x.toNat_lt
  have hy := y.toNat_lt
  rw [word, word, int32_ofNat_inj (by omega) (by omega), UInt16.toNat_inj]

variable {x : UInt8}

theorem octet_inj {y : UInt8} : octet x = octet y ↔ x = y := by
  have hx := x.toNat_lt
  have hy := y.toNat_lt
  rw [octet, octet, int32_ofNat_inj (by omega) (by omega), UInt8.toNat_inj]

theorem octet_eq_single : octet x = flagStart ||| flagEnd ↔ x = Wire.flagStart ||| Wire.flagEnd :=
  octet_inj (y := Wire.flagStart ||| Wire.flagEnd)

theorem octet_eq_start : octet x = flagStart ↔ x = Wire.flagStart :=
  octet_inj (y := Wire.flagStart)

theorem octet_eq_zero : octet x = 0 ↔ x = 0 := octet_inj (y := 0)

theorem octet_eq_end : octet x = flagEnd ↔ x = Wire.flagEnd :=
  octet_inj (y := Wire.flagEnd)

theorem octet_eq_ack : octet x = flagAck ↔ x = Wire.flagAck :=
  octet_inj (y := Wire.flagAck)

theorem octet_and (x y : UInt8) : octet x &&& octet y = octet (x &&& y) := by
  rw [octet, octet, int32_and_ofNat, octet, UInt8.toNat_and]

theorem u16_octets (hi lo : UInt8) : u16 hi.toInt8 lo.toInt8 = word (u16OfBe hi lo) := by
  rw [u16, toInt32_and_ff, toInt32_and_ff]
  exact shl_or_octets hi lo

theorem u16_nonneg (hi lo : Int8) : 0 ≤ (u16 hi lo).toInt := by
  have hword : u16 hi lo = word (u16OfBe hi.toUInt8 lo.toUInt8) :=
    u16_octets hi.toUInt8 lo.toUInt8
  rw [hword, toInt_word]
  exact Int.natCast_nonneg _

theorem wrappingAddU16_word (x : UInt16) (n : Nat) :
    wrappingAddU16 (word x) (Int32.ofNat n) = word (x + UInt16.ofNat n) := add_and_ffff x n

theorem octet_mem_legalFlags (x : UInt8) : octet x ∈ legalFlags ↔ x ∈ Wire.legalFlags := by
  have himage : legalFlags = Wire.legalFlags.map octet := by decide
  rw [himage, List.mem_map]
  exact ⟨fun ⟨y, hy, heq⟩ => octet_inj.1 heq ▸ hy, fun h => ⟨x, h, rfl⟩⟩

/-! ## `Framer` -/

inductive Progress where
  | idle
  | assembling
deriving DecidableEq

structure Framer where
  cap : Int
  progress : Progress
  /-- Next expected sequence number; `null` until the first data frame. -/
  nextSeq : Option Int32
  buffer : List Int8
deriving DecidableEq

namespace Framer

def new (cap : Int) : Framer := ⟨cap, .idle, none, []⟩

/-- `checkCap(); out` on the state the frame has already changed. -/
def checkCap (self : Framer) (out : Option (List Int8)) (done : Framer) :
    Framer × Except (Fault FramingException) (Option (List Int8)) :=
  if (self.buffer.length : Int) > self.cap then
    (self, .error (.err (.messageTooLarge self.buffer.length self.cap)))
  else (done, .ok out)

/-- The `when (flags)` of `ingest`, once the sequence number has been stored. -/
def deliver (self : Framer) (seq flags : Int32) (payload : List Int8) :
    Framer × Except (Fault FramingException) (Option (List Int8)) :=
  if flags = flagStart ||| flagEnd then (self, .ok (some payload))
  else if flags = flagStart then
    let next := { self with buffer := payload, progress := .assembling }
    next.checkCap none next
  else if flags = 0 then
    let next := { self with buffer := self.buffer ++ payload }
    next.checkCap none next
  else if flags = flagEnd then
    if self.progress = .idle then
      -- a bare END: its START vanished
      (self, .error (.err (.sequenceGap (wrappingAddU16 seq 0xFFFF) seq)))
    else
      let next := { self with buffer := self.buffer ++ payload }
      next.checkCap (some next.buffer) { next with progress := .idle, buffer := [] }
  else (self, .error .panic)

/-- The sequence check, and `nextSeq = wrappingAddU16(expected ?: seq, 1)`. -/
def checkSeq (self : Framer) (seq : Int32) : Except (Fault FramingException) Framer :=
  match self.nextSeq with
  | some expected =>
    if seq ≠ expected then .error (.err (.sequenceGap expected seq))
    else .ok { self with nextSeq := some (wrappingAddU16 expected 1) }
  | none => .ok { self with nextSeq := some (wrappingAddU16 seq 1) }

def ingest (self : Framer) (frameBytes : List Int8) :
    Framer × Except (Fault FramingException) (Option (List Int8)) :=
  match frameBytes with
  | l₀ :: l₁ :: s₀ :: s₁ :: f :: r :: payload =>
    let declared := (u16 l₀ l₁).toInt
    let seq := u16 s₀ s₁
    let flags := f.toInt32 &&& 0xFF
    let reserved := r.toInt32 &&& 0xFF
    if reserved ≠ 0 then (self, .error (.err .nonZeroReserved))
    else if flags ∉ legalFlags then (self, .error (.err (.illegalFlags flags)))
    else if (payload.length : Int) ≠ declared then
      (self, .error (.err (.frameLengthMismatch declared payload.length)))
    else if flags = flagAck then
      if payload ≠ [] then (self, .error (.err (.illegalFlags flags))) else (self, .ok none)
    else if flags &&& flagStart ≠ 0 ∧ self.progress ≠ .idle then
      (self, .error (.err .nestedMessage))
    else if flags = 0 ∧ self.progress = .idle then
      (self, .error (.err .strayMiddleFrame))
    else
      match self.checkSeq seq with
      | .error e => (self, .error e)
      | .ok next => next.deliver seq flags payload
  | _ => (self, .error (.err .frameTruncated))

end Framer

/-! ## `InboundAssembler` -/

structure InboundAssembler where
  framer : Framer
  buffer : List Int8
deriving DecidableEq

namespace InboundAssembler

def new : InboundAssembler := ⟨.new defaultReassemblyCap, []⟩

/-- The frame at the front of the buffer: `none` when it is not complete yet,
otherwise the frame and what follows it. -/
def nextFrame (buffer : List Int8) :
    Except (Fault FramingException) (Option (List Int8 × List Int8)) :=
  match buffer with
  | l₀ :: l₁ :: _ =>
    if buffer.length < headerLen then .ok none
    else
      let declared := (u16 l₀ l₁).toInt
      if declared > defaultReassemblyCap then
        .error (.err (.messageTooLarge declared defaultReassemblyCap))
      else
        let total := headerLen + declared
        if (buffer.length : Int) < total then .ok none
        else .ok (some (buffer.take total.toNat, buffer.drop total.toNat))
  | _ => .ok none

theorem nextFrame_rest {buffer frame rest : List Int8}
    (h : nextFrame buffer = .ok (some (frame, rest))) : rest.length < buffer.length := by
  rcases buffer with _ | ⟨l₀, _ | ⟨l₁, buffer⟩⟩
  · cases h
  · cases h
  have hdeclared := u16_nonneg l₀ l₁
  simp only [nextFrame] at h
  split_ifs at h with hheader hcap htotal <;> cases h
  simp only [headerLen, List.length_drop, List.length_cons] at *
  omega

/-- The `while (true)` of `ingest`. -/
def loop (self : InboundAssembler) (messages : List (List Int8)) :
    InboundAssembler × Except (Fault FramingException) (List (List Int8)) :=
  match _h : nextFrame self.buffer with
  | .error e => (self, .error e)
  | .ok none => (self, .ok messages)
  | .ok (some (frame, rest)) =>
    -- the slice is off the buffer before the framer can throw
    match self.framer.ingest frame with
    | (framer, .error e) => (⟨framer, rest⟩, .error e)
    | (framer, .ok message) => loop ⟨framer, rest⟩ (messages ++ message.toList)
termination_by self.buffer.length
decreasing_by exact nextFrame_rest _h

section Rounds

variable {self : InboundAssembler} {messages : List (List Int8)} {frame rest : List Int8}
  {framer : Framer} {e : Fault FramingException} {message : Option (List Int8)}

theorem loop_refused (h : nextFrame self.buffer = .error e) :
    self.loop messages = (self, .error e) := by
  rw [loop]
  split <;> simp_all

theorem loop_stops (h : nextFrame self.buffer = .ok none) :
    self.loop messages = (self, .ok messages) := by
  rw [loop]
  split <;> simp_all

theorem loop_throws (h : nextFrame self.buffer = .ok (some (frame, rest)))
    (hf : self.framer.ingest frame = (framer, .error e)) :
    self.loop messages = (⟨framer, rest⟩, .error e) := by
  rw [loop]
  split <;> simp_all

theorem loop_takes (h : nextFrame self.buffer = .ok (some (frame, rest)))
    (hf : self.framer.ingest frame = (framer, .ok message)) :
    self.loop messages = loop ⟨framer, rest⟩ (messages ++ message.toList) := by
  rw [loop]
  split <;> simp_all

end Rounds

/-- `InboundAssembler.ingest`: every message that completed on this call. -/
def ingest (self : InboundAssembler) (bytes : List Int8) :
    InboundAssembler × Except (Fault FramingException) (List (List Int8)) :=
  let self := { self with buffer := self.buffer ++ bytes }
  if (self.buffer.length : Int) > defaultReassemblyCap then
    (self, .error (.err (.messageTooLarge self.buffer.length defaultReassemblyCap)))
  else self.loop []

end InboundAssembler

/-! ## The states and answers of the desktop -/

/-- The exception that mirrors an error of the desktop. -/
def FramingException.ofWire : Wire.FrameError → FramingException
  | .frameTruncated => .frameTruncated
  | .frameLengthMismatch declared actual => .frameLengthMismatch declared actual
  | .nonZeroReserved => .nonZeroReserved
  | .illegalFlags bits => .illegalFlags (octet bits)
  | .strayMiddleFrame => .strayMiddleFrame
  | .nestedMessage => .nestedMessage
  | .sequenceGap expected got => .sequenceGap (word expected) (word got)
  | .messageTooLarge size cap => .messageTooLarge size cap
  | .invalidSplitSize => .invalidSplitSize

def Progress.ofWire : Wire.Progress → Progress
  | .idle => .idle
  | .assembling => .assembling

def Framer.ofWire (f : Wire.Framer) : Framer :=
  ⟨f.cap, .ofWire f.progress, f.nextSeq.map word, octets f.buffer⟩

def InboundAssembler.ofWire (a : Wire.InboundAssembler) : InboundAssembler :=
  ⟨.ofWire a.framer, octets a.buffer⟩

/-- A result of the desktop as the phone reports it. -/
def carry {α β : Type} (f : α → β) : Except Wire.FrameError α → Except (Fault FramingException) β
  | .ok a => .ok (f a)
  | .error e => .error (.err (.ofWire e))

section Receiving

variable (f : Wire.Framer)

theorem Progress.ofWire_eq_idle {p : Wire.Progress} : ofWire p = .idle ↔ p = .idle := by
  cases p <;> decide

theorem Framer.checkCap_ofWire (out : Option Bytes) (done : Wire.Framer) :
    (ofWire f).checkCap (out.map octets) (ofWire done) =
      (ofWire (f.capped out done).1, carry (.map octets) (f.capped out done).2) := by
  have hlen : (ofWire f).buffer.length = f.buffer.length := octets_length f.buffer
  have hcap : (f.buffer.length : Int) > (ofWire f).cap ↔ f.buffer.length > f.cap := Int.ofNat_lt
  rw [checkCap, Wire.Framer.capped, Wire.Framer.checkCap, hlen]
  by_cases h : f.buffer.length > f.cap
  · rw [if_pos (hcap.2 h), if_pos h]
    rfl
  · rw [if_neg (mt hcap.1 h), if_neg h]
    rfl

theorem Framer.checkSeq_ofWire (seq : UInt16) :
    (ofWire f).checkSeq (word seq) = carry ofWire (f.checkSeq seq) := by
  have hnext (x : UInt16) : wrappingAddU16 (word x) 1 = word (x + 1) := wrappingAddU16_word x 1
  rw [checkSeq, Wire.Framer.checkSeq, ofWire]
  rcases f.nextSeq with _ | expected
  · simp only [Option.map_none, hnext]
    rfl
  · simp only [Option.map_some, ne_eq, word_inj, hnext]
    split_ifs <;> rfl

theorem Framer.deliver_ofWire (seq : UInt16) {flags : UInt8} (payload : Bytes)
    (hlegal : flags ∈ Wire.legalFlags) (hack : flags ≠ Wire.flagAck) :
    (ofWire f).deliver (word seq) (octet flags) (octets payload) =
      (ofWire (f.accept seq flags payload).1,
        carry (.map octets) (f.accept seq flags payload).2) := by
  have happend : (ofWire f).buffer ++ octets payload = octets (f.buffer ++ payload) :=
    (octets_append f.buffer payload).symm
  have hbefore : wrappingAddU16 (word seq) 0xFFFF = word (seq - 1) := by
    rw [show seq - 1 = seq + UInt16.ofNat 0xFFFF by grind]
    exact wrappingAddU16_word seq 0xFFFF
  have hidle : (ofWire f).progress = .idle ↔ f.progress = .idle := Progress.ofWire_eq_idle
  simp only [deliver, Wire.Framer.accept, octet_eq_single, octet_eq_start, octet_eq_zero,
    octet_eq_end, hidle, happend, hbefore]
  split_ifs with hsingle hstart hmiddle hend hprogress hprogress
  · rfl
  · exact checkCap_ofWire { f with buffer := payload, progress := .assembling } none
      { f with buffer := payload, progress := .assembling }
  · exact checkCap_ofWire { f with buffer := f.buffer ++ payload } none
      { f with buffer := f.buffer ++ payload }
  · rfl
  · exact checkCap_ofWire { f with buffer := f.buffer ++ payload } (some (f.buffer ++ payload))
      { f with buffer := [], progress := .idle }
  all_goals simp [Wire.legalFlags, hsingle, hstart, hmiddle, hend, hack] at hlegal

/-- One frame gets the same answer on both sides and leaves corresponding
framers behind. -/
theorem Framer.ingest_ofWire (frame : Bytes) :
    (ofWire f).ingest (octets frame) =
      (ofWire (f.ingest frame).1, carry (.map octets) (f.ingest frame).2) := by
  rcases frame with _ | ⟨l₀, _ | ⟨l₁, _ | ⟨s₀, _ | ⟨s₁, _ | ⟨flags, _ | ⟨reserved, payload⟩⟩⟩⟩⟩⟩
  iterate 6 rfl
  have hnested : octet flags &&& flagStart = 0 ↔ flags &&& Wire.flagStart = 0 := by
    rw [show flagStart = octet Wire.flagStart from rfl, octet_and, octet_eq_zero]
  have hidle : (ofWire f).progress = .idle ↔ f.progress = .idle := Progress.ofWire_eq_idle
  show ingest _ (l₀.toInt8 :: l₁.toInt8 :: s₀.toInt8 :: s₁.toInt8 :: flags.toInt8 ::
    reserved.toInt8 :: octets payload) = _
  simp only [ingest, Wire.Framer.ingest, u16_octets, toInt32_and_ff]
  simp only [← octet.eq_def]
  simp only [ne_eq, octet_eq_zero, octet_mem_legalFlags, toInt_word, octets_length, Int.natCast_inj,
    octet_eq_ack, octets_eq_nil, hnested, hidle]
  -- both sides now ask the same questions in the same order
  split_ifs with _ hlegal _ hack
  iterate 4 rfl
  · rw [checkSeq_ofWire]
    rcases f.checkSeq (u16OfBe s₀ s₁) with e | next
    · rfl
    · exact deliver_ofWire next (u16OfBe s₀ s₁) payload hlegal hack
  iterate 3 rfl

theorem InboundAssembler.nextFrame_ofWire (buffer : Bytes) :
    nextFrame (octets buffer) =
      carry (.map (Prod.map octets octets)) (Wire.InboundAssembler.nextFrame buffer) := by
  rcases buffer with _ | ⟨l₀, _ | ⟨l₁, buffer⟩⟩
  · rfl
  · rfl
  have hlength : (l₀.toInt8 :: l₁.toInt8 :: octets buffer).length = (l₀ :: l₁ :: buffer).length :=
    octets_length (l₀ :: l₁ :: buffer)
  show nextFrame (l₀.toInt8 :: l₁.toInt8 :: octets buffer) = _
  simp only [nextFrame, Wire.InboundAssembler.nextFrame, u16_octets, toInt_word, hlength]
  generalize (u16OfBe l₀ l₁).toNat = declared
  have hcap : (declared : Int) > defaultReassemblyCap ↔ declared > Wire.defaultReassemblyCap :=
    Int.ofNat_lt
  have htotal : (Wire.headerLen : Int) + declared = ((Wire.headerLen + declared : Nat) : Int) :=
    (Int.natCast_add Wire.headerLen declared).symm
  have hheader : headerLen = Wire.headerLen := rfl
  simp only [hcap, htotal, hheader, Int.ofNat_lt, Int.toNat_natCast]
  split_ifs
  iterate 3 rfl
  show Except.ok (some ((octets (l₀ :: l₁ :: buffer)).take (Wire.headerLen + declared),
    (octets (l₀ :: l₁ :: buffer)).drop (Wire.headerLen + declared))) = _
  rw [← octets_take, ← octets_drop]
  rfl

theorem InboundAssembler.loop_ofWire {fuel : Nat} (a : Wire.InboundAssembler)
    (messages : List Bytes) (hfuel : a.buffer.length ≤ fuel) :
    (ofWire a).loop (messages.map octets) =
      (ofWire (Wire.InboundAssembler.drain fuel a messages).1,
        carry (List.map octets) (Wire.InboundAssembler.drain fuel a messages).2) := by
  -- by induction on the rounds the desktop has left: a frame takes off at least a header
  induction fuel generalizing a messages with
  | zero =>
    have hempty : a.buffer = [] := List.length_eq_zero_iff.1 (Nat.le_zero.1 hfuel)
    have hnext : nextFrame (ofWire a).buffer = .ok none := by
      show nextFrame (octets a.buffer) = _
      rw [hempty]
      rfl
    exact loop_stops hnext
  | succ fuel ih =>
    have hnext : nextFrame (ofWire a).buffer = _ := nextFrame_ofWire a.buffer
    rw [Wire.InboundAssembler.drain]
    generalize Wire.InboundAssembler.nextFrame a.buffer = next at hnext ⊢
    rcases next with e | _ | ⟨frame, rest⟩
    · exact loop_refused hnext
    · exact loop_stops hnext
    have hrest : rest.length ≤ fuel := by
      have hlt : (octets rest).length < (octets a.buffer).length := nextFrame_rest hnext
      rw [octets_length, octets_length] at hlt
      omega
    have hingest : (ofWire a).framer.ingest (octets frame) = _ :=
      Framer.ingest_ofWire a.framer frame
    dsimp only
    generalize a.framer.ingest frame = taken at hingest ⊢
    obtain ⟨framer, e | _ | message⟩ := taken
    · exact loop_throws hnext hingest
    · have hround := ih ⟨rest, framer⟩ messages hrest
      rw [loop_takes hnext hingest]
      show loop ⟨_, _⟩ (messages.map octets ++ []) = _
      rw [List.append_nil]
      exact hround
    · have hround := ih ⟨rest, framer⟩ (messages ++ [message]) hrest
      rw [List.map_append] at hround
      rw [loop_takes hnext hingest]
      exact hround

theorem InboundAssembler.ingest_ofWire (a : Wire.InboundAssembler) (chunk : Bytes) :
    (ofWire a).ingest (octets chunk) =
      (ofWire (a.ingest chunk).1, carry (List.map octets) (a.ingest chunk).2) := by
  have happend : (ofWire a).buffer ++ octets chunk = octets (a.buffer ++ chunk) :=
    (octets_append a.buffer chunk).symm
  have hcap : ((a.buffer ++ chunk).length : Int) > defaultReassemblyCap ↔
      (a.buffer ++ chunk).length > Wire.defaultReassemblyCap := Int.ofNat_lt
  simp only [ingest, Wire.InboundAssembler.ingest, happend, octets_length, hcap]
  split_ifs with h
  · rfl
  · exact loop_ofWire ⟨a.buffer ++ chunk, a.framer⟩ [] (Nat.le_refl _)

end Receiving

/-! ## `MessageSplitter` -/

/-- `SplitResult`: the frames in order and the next free sequence number. -/
structure SplitResult where
  frames : List (List Int8)
  nextSeq : Int32
deriving DecidableEq

/-- `copyOfRange(from, to)`, which throws on bounds that are not a range of the array. -/
def copyOfRange (array : List Int8) (start stop : Int32) :
    Except (Fault FramingException) (List Int8) :=
  if 0 ≤ start ∧ start ≤ stop ∧ stop ≤ size array then
    .ok ((array.drop start.toNatClampNeg).take (stop.toNatClampNeg - start.toNatClampNeg))
  else .error .panic

/-- The flags of frame `i` of `count`. -/
def frameFlags (count i : Int32) : Int32 :=
  if i = 0 ∧ count = 1 then flagStart ||| flagEnd
  else if i = 0 then flagStart
  else if i = count - 1 then flagEnd
  else 0

/-- The `for (i in 0 until count)` of `split`, with `left` iterations to go. -/
def splitLoop (message : List Int8) (maxPayload startSeq count : Int32) :
    Nat → Int32 → Int32 → Except (Fault FramingException) (List (List Int8))
  | 0, _, _ => .ok []
  | left + 1, i, offset => do
    let stop := min (offset + maxPayload) (size message)
    let payload ← copyOfRange message offset stop
    let frame ← encode (wrappingAddU16 startSeq i) (frameFlags count i) payload
    let rest ← splitLoop message maxPayload startSeq count left (i + 1) stop
    return frame :: rest

def split (message : List Int8) (maxPayload startSeq : Int32) :
    Except (Fault FramingException) SplitResult :=
  if maxPayload = 0 then .error (.err .invalidSplitSize)
  else do
    let count := max 1 ((size message + maxPayload - 1) / maxPayload)
    let frames ← splitLoop message maxPayload startSeq count count.toNatClampNeg 0 0
    return ⟨frames, wrappingAddU16 startSeq count⟩

section Splitting

theorem encode_ofWire (seq : UInt16) (flags : UInt8) {payload : Bytes}
    (hlen : payload.length ≤ 65535) :
    ∃ frame, Wire.encodeFrame seq flags payload = .ok frame ∧
      encode (word seq) (octet flags) (octets payload) = .ok (octets frame) := by
  have hsize : size (octets payload) = Int32.ofNat payload.length := by rw [size, octets_length]
  have hfits : size (octets payload) ≤ 0xFFFF := by
    rw [hsize]
    exact (Int32.ofNat_le_iff_le (by omega) (by decide)).2 hlen
  have hflags : flags.toNat % 256 = flags.toNat := Nat.mod_eq_of_lt flags.toNat_lt
  refine ⟨_, if_pos hlen, ?_⟩
  rw [encode, if_pos hfits, hsize, word, octet, high_octet, low_octet, high_octet, low_octet,
    low_octet, hflags, UInt8.ofNat_toNat, u16ToBe, u16ToBe, u16OfNat_toNat hlen]
  rfl

theorem frameFlags_ofWire {count i : Nat} (hpos : 1 ≤ count) (hcount : count < 2 ^ 31)
    (hi : i < count) :
    frameFlags (Int32.ofNat count) (Int32.ofNat i) = octet (Wire.frameFlags count i) := by
  have hfirst : Int32.ofNat i = 0 ↔ i = 0 := int32_ofNat_inj (by omega) (by decide)
  have hone : Int32.ofNat count = 1 ↔ count = 1 := int32_ofNat_inj hcount (by decide)
  have hlast : Int32.ofNat i = Int32.ofNat count - 1 ↔ i = count - 1 := by
    rw [← int32_ofNat_inj (by omega) (by omega), Int32.ofNat_sub count 1 hpos]
    rfl
  simp only [frameFlags, Wire.frameFlags, hfirst, hone, hlast]
  split_ifs <;> first | rfl | omega

theorem copyOfRange_ofWire {message : Bytes} {start stop : Nat} (hlen : message.length < 2 ^ 31)
    (hstart : start ≤ stop) (hstop : stop ≤ message.length) :
    copyOfRange (octets message) (Int32.ofNat start) (Int32.ofNat stop) =
      .ok (octets ((message.drop start).take (stop - start))) := by
  have hrange : 0 ≤ Int32.ofNat start ∧ Int32.ofNat start ≤ Int32.ofNat stop ∧
      Int32.ofNat stop ≤ size (octets message) := by
    rw [size, octets_length]
    exact ⟨(Int32.ofNat_le_iff_le (by decide) (by omega)).2 (Nat.zero_le start),
      (Int32.ofNat_le_iff_le (by omega) (by omega)).2 hstart,
      (Int32.ofNat_le_iff_le (by omega) hlen).2 hstop⟩
  rw [copyOfRange, if_pos hrange, Int32.toNatClampNeg_ofNat_of_lt (by omega),
    Int32.toNatClampNeg_ofNat_of_lt (by omega), octets_take, octets_drop]

/-- The two loops cut the same slices: `offset` bytes are in frames already and
`left` of the `count` frames are to come. -/
theorem splitLoop_ofWire {message : Bytes} {maxPayload count : Nat} (startSeq : UInt16)
    (hlen : message.length ≤ 2 ^ 30) (hmax : maxPayload ≤ 65535) (hcount : count < 2 ^ 31)
    {left offset : Nat} (hleft : left ≤ count) (hoffset : offset ≤ message.length) :
    ∃ frames, Wire.splitLoop message maxPayload startSeq count left offset = .ok frames ∧
      splitLoop (octets message) (Int32.ofNat maxPayload) (word startSeq) (Int32.ofNat count) left
        (Int32.ofNat (count - left)) (Int32.ofNat offset) = .ok (frames.map octets) := by
  induction left generalizing offset with
  | zero => exact ⟨[], rfl, rfl⟩
  | succ left ih =>
    have hstop : min (Int32.ofNat offset + Int32.ofNat maxPayload) (size (octets message)) =
        Int32.ofNat (min (offset + maxPayload) message.length) := by
      rw [size, octets_length, ← Int32.ofNat_add, int32_ofNat_min (by omega) (by omega)]
    have hpayload : ((message.drop offset).take
        (min (offset + maxPayload) message.length - offset)).length ≤ 65535 := by
      rw [List.length_take]
      omega
    have hnext : Int32.ofNat (count - (left + 1)) + 1 = Int32.ofNat (count - left) := by
      rw [show count - left = count - (left + 1) + 1 by omega, Int32.ofNat_add]
      rfl
    obtain ⟨frame, hwire, hphone⟩ := encode_ofWire
      (startSeq + UInt16.ofNat (count - (left + 1))) (Wire.frameFlags count (count - (left + 1)))
      hpayload
    obtain ⟨rest, hwireRest, hphoneRest⟩ :=
      @ih (min (offset + maxPayload) message.length) (by omega) (by omega)
    refine ⟨frame :: rest, ?_, ?_⟩
    · rw [Wire.splitLoop, hwire, hwireRest]
      rfl
    · rw [splitLoop, hstop, copyOfRange_ofWire (by omega) (by omega) (by omega), hnext, hphoneRest,
        wrappingAddU16_word, frameFlags_ofWire (by omega) hcount (by omega)]
      show (encode _ _ _ >>= _) = _
      rw [hphone]
      rfl

/-- Messages of up to 2 ^ 30 bytes are split into the same frames. -/
theorem split_ofWire {message : Bytes} {maxPayload : Nat} (startSeq : UInt16)
    (hlen : message.length ≤ 2 ^ 30) (hpos : 1 ≤ maxPayload) (hmax : maxPayload ≤ 65535) :
    ∃ frames next, Wire.splitMessage message maxPayload startSeq = .ok (frames, next) ∧
      split (octets message) (Int32.ofNat maxPayload) (word startSeq) =
        .ok ⟨frames.map octets, word next⟩ := by
  have hcount : Wire.frameCount message maxPayload < 2 ^ 31 := by
    have hquot := Nat.div_le_self (message.length + maxPayload - 1) maxPayload
    rw [Wire.frameCount]
    omega
  have hsame : max 1 ((size (octets message) + Int32.ofNat maxPayload - 1) /
      Int32.ofNat maxPayload) = Int32.ofNat (Wire.frameCount message maxPayload) := by
    have hsum : size (octets message) + Int32.ofNat maxPayload - 1 =
        Int32.ofNat (message.length + maxPayload - 1) := by
      rw [size, octets_length, Int32.ofNat_sub _ 1 (by omega), Int32.ofNat_add]
      rfl
    have hquot := Nat.div_le_self (message.length + maxPayload - 1) maxPayload
    rw [hsum, int32_ofNat_div (by omega) (by omega), Wire.frameCount, Nat.max_comm]
    exact int32_ofNat_max (by decide) (by omega)
  have hnonzero : Int32.ofNat maxPayload ≠ 0 := by
    intro h
    have := (int32_ofNat_inj (b := 0) (by omega) (by decide)).1 h
    omega
  obtain ⟨frames, hwire, hphone⟩ := splitLoop_ofWire startSeq hlen hmax hcount
    (Nat.le_refl (Wire.frameCount message maxPayload)) (Nat.zero_le message.length)
  rw [Nat.sub_self] at hphone
  refine ⟨frames, startSeq + UInt16.ofNat (Wire.frameCount message maxPayload), ?_, ?_⟩
  · rw [Wire.splitMessage, if_neg (by omega)]
    show (Wire.splitLoop _ _ _ _ _ _ >>= _) = _
    rw [hwire]
    rfl
  · have hrounds := Int32.toNatClampNeg_ofNat_of_lt hcount
    simp only [split, if_neg hnonzero, hsame, hrounds, wrappingAddU16_word]
    show (splitLoop _ _ _ _ _ (Int32.ofNat 0) (Int32.ofNat 0) >>= _) = _
    rw [hphone]
    rfl

end Splitting

/-! ## What a split returns -/

section Numbering

/-- The sequence number in the header of a frame. -/
def seqOf : List Int8 → Int32
  | _ :: _ :: s₀ :: s₁ :: _ => u16 s₀ s₁
  | _ => 0

variable {seq : UInt16} {message : List Int8} {maxPayload : Int32}

theorem seqOf_encode {flags : Int32} {payload frame : List Int8}
    (h : encode (word seq) flags payload = .ok frame) : seqOf frame = word seq := by
  unfold encode at h
  by_cases hfits : size payload ≤ 0xFFFF
  · rw [if_pos hfits] at h
    cases h
    show u16 _ _ = _
    rw [word, high_octet, low_octet, u16_octets, u16OfBe_u16ToBe, word]
  · rw [if_neg hfits] at h
    cases h

/-- The frames of the loop are numbered on from the one it is at. -/
theorem splitLoop_numbered {count : Int32} {left i : Nat} {offset : Int32}
    {frames : List (List Int8)}
    (h : splitLoop message maxPayload (word seq) count left (Int32.ofNat i) offset = .ok frames) :
    frames.length = left ∧
      ∀ k frame, frames[k]? = some frame → seqOf frame = word (seq + UInt16.ofNat (i + k)) := by
  induction left generalizing i offset frames with
  | zero =>
    cases h
    exact ⟨rfl, by simp⟩
  | succ left ih =>
    have hnext : Int32.ofNat i + 1 = Int32.ofNat (i + 1) := (Int32.ofNat_add i 1).symm
    rw [splitLoop, bind_eq_ok] at h
    obtain ⟨payload, -, h⟩ := h
    rw [wrappingAddU16_word, bind_eq_ok] at h
    obtain ⟨frame, hencode, h⟩ := h
    rw [hnext, bind_eq_ok] at h
    obtain ⟨rest, hrest, h⟩ := h
    cases h
    obtain ⟨hlength, hnumbered⟩ := ih hrest
    refine ⟨congrArg (· + 1) hlength, fun k other hother => ?_⟩
    cases k with
    | zero =>
      cases hother
      exact seqOf_encode hencode
    | succ k => rw [hnumbered k other hother, Nat.add_right_comm i 1 k, Nat.add_assoc]

/-- A frame count is at least one, whatever the sizes come to. -/
theorem max_one_ofNat (x : Int32) :
    max 1 x = Int32.ofNat (max 1 x).toNatClampNeg ∧ 1 ≤ (max 1 x).toNatClampNeg := by
  have hone : 1 ≤ (max 1 x).toInt := by
    rw [toInt_max]
    exact Int.le_max_left 1 _
  have hlt := Int32.toInt_lt (max 1 x)
  have hclamp : (max 1 x).toNatClampNeg = (max 1 x).toInt.toNat := rfl
  refine ⟨?_, by omega⟩
  rw [← Int32.toInt_inj, Int32.toInt_ofNat_of_lt (by omega)]
  omega

/-- **A split numbers its frames one after the other**, and returns the number behind
them. -/
theorem split_numbered {result : SplitResult}
    (h : split message maxPayload (word seq) = .ok result) :
    result.nextSeq = word (seq + UInt16.ofNat result.frames.length) ∧
      ∀ k frame, result.frames[k]? = some frame → seqOf frame = word (seq + UInt16.ofNat k) := by
  unfold split at h
  by_cases hzero : maxPayload = 0
  · rw [if_pos hzero] at h
    cases h
  · rw [if_neg hzero] at h
    obtain ⟨hcount, -⟩ := max_one_ofNat ((size message + maxPayload - 1) / maxPayload)
    generalize max 1 ((size message + maxPayload - 1) / maxPayload) = count at h hcount
    obtain ⟨frames, hloop, h⟩ := bind_eq_ok.1 h
    cases h
    obtain ⟨hlength, hnumbered⟩ := splitLoop_numbered hloop
    refine ⟨?_, fun k frame hframe => ?_⟩
    · show wrappingAddU16 (word seq) count = _
      rw [hlength, ← wrappingAddU16_word, ← hcount]
    · rw [hnumbered k frame hframe, Nat.zero_add]

/-- A payload size beyond the message makes one frame, even where the sum overflows. -/
theorem frameCount_beyond {length : Nat} (hlen : length ≤ 65535) (hmax : 65535 < maxPayload.toInt) :
    max 1 ((Int32.ofNat length + maxPayload - 1) / maxPayload) = 1 := by
  have hsum : (Int32.ofNat length + maxPayload - 1).toInt ≤ 2 * maxPayload.toInt - 1 := by
    rw [Int32.toInt_sub, Int32.toInt_add, Int32.toInt_ofNat_of_lt (by omega)]
    show (((length : Int) + maxPayload.toInt).bmod (2 ^ 32) - 1).bmod (2 ^ 32) ≤ _
    simp only [Int.bmod_def]
    split_ifs <;> omega
  have hquot : ((Int32.ofNat length + maxPayload - 1) / maxPayload).toInt < 2 := by
    have hsign : maxPayload ≠ -1 := by
      rintro rfl
      exact absurd hmax (by decide)
    rw [Int32.toInt_div_of_ne_right _ _ hsign]
    calc (Int32.ofNat length + maxPayload - 1).toInt.tdiv maxPayload.toInt
        ≤ (2 * maxPayload.toInt - 1).tdiv maxPayload.toInt := Int.tdiv_le_tdiv (by omega) hsum
      _ = (2 * maxPayload.toInt - 1) / maxPayload.toInt :=
          Int.tdiv_eq_ediv_of_nonneg (by omega)
      _ < 2 := Int.ediv_lt_of_lt_mul (by omega) (by omega)
  rw [← Int32.toInt_inj, toInt_max]
  exact Int.max_eq_left (Int.lt_add_one_iff.1 hquot)

theorem split_ok {message : Bytes} (seq : UInt16) (hlen : message.length ≤ 65535)
    (hpos : 0 < maxPayload.toInt) :
    ∃ result, split (octets message) maxPayload (word seq) = .ok result := by
  by_cases hmax : maxPayload.toInt ≤ 65535
  · -- a payload size that fits the length field
    have hnat : maxPayload = Int32.ofNat maxPayload.toInt.toNat := by
      rw [← Int32.toInt_inj, Int32.toInt_ofNat_of_lt (by omega)]
      omega
    obtain ⟨frames, next, -, hsplit⟩ := @split_ofWire message maxPayload.toInt.toNat seq
      (by omega) (by omega) (by omega)
    rw [hnat]
    exact ⟨_, hsplit⟩
  · have hsize : size (octets message) = Int32.ofNat message.length := by rw [size, octets_length]
    have hnonzero : maxPayload ≠ 0 := by
      rintro rfl
      exact absurd hpos (by decide)
    have hstop : min (0 + maxPayload) (size (octets message)) = size (octets message) := by
      show (if 0 + maxPayload ≤ size (octets message) then 0 + maxPayload
        else size (octets message)) = _
      rw [if_neg]
      intro hle
      rw [Int32.zero_add, Int32.le_iff_toInt_le, hsize, Int32.toInt_ofNat_of_lt (by omega)] at hle
      omega
    have hcopy : copyOfRange (octets message) 0 (size (octets message)) = .ok (octets message) := by
      rw [hsize]
      exact (@copyOfRange_ofWire message 0 message.length (by omega) (by omega) (by omega)).trans
        (by simp)
    obtain ⟨frame, -, hframe⟩ := encode_ofWire seq (Wire.flagStart ||| Wire.flagEnd) hlen
    have hencode : encode (wrappingAddU16 (word seq) 0) (frameFlags 1 0) (octets message) =
        .ok (octets frame) := by
      have hseq : wrappingAddU16 (word seq) 0 = word seq :=
        (wrappingAddU16_word seq 0).trans (congrArg word (UInt16.add_zero seq))
      rw [hseq]
      exact hframe
    rw [split, if_neg hnonzero, hsize, frameCount_beyond hlen (by omega)]
    refine ⟨⟨[octets frame], wrappingAddU16 (word seq) 1⟩, ?_⟩
    show (splitLoop (octets message) maxPayload (word seq) 1 1 0 0 >>= _) = _
    rw [splitLoop, hstop, hcopy]
    dsimp only [bind, Except.bind]
    rw [hencode]
    rfl
end Numbering

/-! ## The phone's framing refines the desktop's -/

/-- Given the same frames or the same chunks from the start, the two sides return
the same messages in the same calls and fail in the same calls with corresponding
errors, and they split a message into the same frames. -/
theorem phone_framing_refines_wire :
    (∀ (cap : Nat) (frames : List Bytes),
      answers Framer.ingest (Framer.new cap) (frames.map octets) =
        (answers Wire.Framer.ingest (Wire.Framer.withCap cap) frames).map
          (carry (Option.map octets))) ∧
    (∀ chunks : List Bytes,
      answers InboundAssembler.ingest InboundAssembler.new (chunks.map octets) =
        (answers Wire.InboundAssembler.ingest Wire.InboundAssembler.new chunks).map
          (carry (List.map octets))) ∧
    ∀ (message : Bytes) (maxPayload : Nat) (startSeq : UInt16), message.length ≤ 2 ^ 30 →
      1 ≤ maxPayload → maxPayload ≤ 65535 →
      ∃ frames next, Wire.splitMessage message maxPayload startSeq = .ok (frames, next) ∧
        split (octets message) (Int32.ofNat maxPayload) (word startSeq) =
          .ok ⟨frames.map octets, word next⟩ := by
  refine ⟨?_, ?_, ?_⟩
  · intro cap frames
    exact answers_map Framer.ingest_ofWire (Wire.Framer.withCap cap) frames
  · intro chunks
    exact answers_map InboundAssembler.ingest_ofWire Wire.InboundAssembler.new chunks
  · intro message maxPayload startSeq hlen hpos hmax
    exact split_ofWire startSeq hlen hpos hmax

/-- Three bytes in two frames whose sequence numbers wrap. -/
theorem wrapping_split_agrees :
    ∃ frames next, Wire.splitMessage [0x80, 2, 3] 2 0xFFFF = .ok (frames, next) ∧ next = 1 ∧
      split [-128, 2, 3] 2 0xFFFF = .ok ⟨frames.map octets, 1⟩ := by
  obtain ⟨frames, next, hwire, hphone⟩ := phone_framing_refines_wire.2.2 [0x80, 2, 3] 2 0xFFFF
    (by decide) (by decide) (by decide)
  have hnext : next = 1 := (Prod.mk.inj (Except.ok.inj hwire)).2.symm
  subst hnext
  exact ⟨frames, 1, hwire, rfl, hphone⟩

end Conveyance.Phone.Framing
