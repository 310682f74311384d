import Conveyance.Wire.Chunks

/-!
# Framing round trip

Whatever way the link cuts the bytes of a framed conversation, the receiving
assembler gives back exactly the messages that were split.

The proof has two halves that meet at `Lib.Chunking.Feeds`. The byte half is
`feedAll_of_feeds`: chunk boundaries do not matter to a stream that feeds
without error. The frame half follows one message through the `Framer` from
`Ready` over `Midway` to `Ready`: between two frames of a split the buffer is the
part of the message already sent and the next sequence number is the sender's.
Acks stand outside both: a framer that meets one keeps its state.
-/

namespace Conveyance.Wire

open Lib Lib.Chunking

/-! ## Whole frames -/

/-- The bytes of a frame, as `encode_frame` lays them out. -/
def frameOf (seq : UInt16) (flags : UInt8) (payload : Bytes) : Bytes :=
  u16ToBe (UInt16.ofNat payload.length) ++ u16ToBe seq ++ [flags, 0] ++ payload

variable {payload message : Bytes} {f g : Framer} {seq next start : UInt16} {flags : UInt8}
  {fs ms frames stream : List Bytes} {offset stop maxPayload : Nat}

theorem encodeFrame_eq (h : payload.length ≤ 65535) (seq : UInt16) (flags : UInt8) :
    encodeFrame seq flags payload = .ok (frameOf seq flags payload) :=
  if_pos h

theorem frameOf_length (seq : UInt16) (flags : UInt8) (payload : Bytes) :
    (frameOf seq flags payload).length = headerLen + payload.length := by
  simp only [frameOf, List.length_append, u16ToBe_length, List.length_cons,
    List.length_nil, headerLen]

/-- A frame in front of any bytes is cut off whole. -/
def Whole (frame : Bytes) : Prop :=
  ∀ rest, frameSlicer.cut (frame ++ rest) = some (frame, rest)

theorem whole_frameOf (h : payload.length ≤ 65535)
    (seq : UInt16) (flags : UInt8) : Whole (frameOf seq flags payload) := by
  intro rest
  have hlen := frameOf_length seq flags payload
  have hdecl : (u16OfBe (UInt8.ofNat ((UInt16.ofNat payload.length).toNat / 256))
      (UInt8.ofNat ((UInt16.ofNat payload.length).toNat % 256))).toNat = payload.length := by
    rw [u16OfBe_u16ToBe, u16OfNat_toNat h]
  have hcut : cutFrame (frameOf seq flags payload ++ rest) =
      if (frameOf seq flags payload ++ rest).length < headerLen + payload.length then none
      else some ((frameOf seq flags payload ++ rest).take (headerLen + payload.length),
        (frameOf seq flags payload ++ rest).drop (headerLen + payload.length)) := by
    rw [← hdecl]
    rfl
  rw [frameSlicer_cut, hcut, if_neg (by rw [List.length_append]; omega), ← hlen, List.take_left,
    List.drop_left]

/-! ## The framer, frame by frame -/

/-- A framer that accepts `seq` next: nothing received yet, or `seq` expected. -/
def Expects (f : Framer) (seq : UInt16) : Prop :=
  f.nextSeq = none ∨ f.nextSeq = some seq

theorem ingest_frameOf (hlen : payload.length ≤ 65535) (hlegal : flags ∈ legalFlags)
    (hack : flags ≠ flagAck) (hnest : ¬(flags &&& flagStart ≠ 0 ∧ f.progress ≠ .idle))
    (hstray : ¬(flags = 0 ∧ f.progress = .idle)) (hseq : Expects f seq) :
    f.ingest (frameOf seq flags payload) =
      { f with nextSeq := some (seq + 1) }.accept seq flags payload := by
  have hcheck : f.checkSeq seq = .ok { f with nextSeq := some (seq + 1) } := by
    unfold Framer.checkSeq
    rcases hseq with h | h
    · rw [h]
    · rw [h]
      exact if_neg (fun hne => hne rfl)
  show Framer.ingest f (_ :: _ :: _ :: _ :: flags :: 0 :: payload) = _
  simp only [Framer.ingest, u16OfBe_u16ToBe, hcheck]
  rw [if_neg (fun h => h rfl), if_neg (fun h => h hlegal),
    if_neg (fun h => h (u16OfNat_toNat hlen).symm), if_neg hack, if_neg hnest, if_neg hstray]

theorem ingest_encodeAck (f : Framer) (acked : UInt16) :
    f.ingest (encodeAck acked) = (f, .ok none) := by
  show Framer.ingest f (_ :: _ :: _ :: _ :: flagAck :: 0 :: []) = _
  simp only [Framer.ingest, u16OfBe_u16ToBe]
  rfl

/-- A run of the framer over whole frames without error. -/
inductive Delivers : Framer → List Bytes → List Bytes → Framer → Prop where
  | nil {f : Framer} : Delivers f [] [] f
  | skip {f g h : Framer} {frame : Bytes} {frames ms : List Bytes} :
      f.ingest frame = (g, .ok none) → Delivers g frames ms h →
      Delivers f (frame :: frames) ms h
  | emit {f g h : Framer} {frame m : Bytes} {frames ms : List Bytes} :
      f.ingest frame = (g, .ok (some m)) → Delivers g frames ms h →
      Delivers f (frame :: frames) (m :: ms) h

theorem Delivers.append {h : Framer} {gs ns : List Bytes} (h₁ : Delivers f fs ms g)
    (h₂ : Delivers g gs ns h) : Delivers f (fs ++ gs) (ms ++ ns) h := by
  induction h₁ with
  | nil => exact h₂
  | skip hstep _ ih => exact .skip hstep (ih h₂)
  | emit hstep _ ih => exact .emit hstep (ih h₂)

/-- A run over whole frames is a pass over their concatenated bytes. -/
theorem Delivers.feeds (h : Delivers f fs ms g) (hwhole : ∀ frame ∈ fs, Whole frame) :
    Passes f fs.flatten ms g [] := by
  induction h with
  | nil => exact .stop rfl
  | skip hstep _ ih =>
    rw [List.flatten_cons]
    exact .skip (hwhole _ List.mem_cons_self _) hstep
      (ih fun frame hf => hwhole frame (List.mem_cons_of_mem _ hf))
  | emit hstep _ ih =>
    rw [List.flatten_cons]
    exact .emit (hwhole _ List.mem_cons_self _) hstep
      (ih fun frame hf => hwhole frame (List.mem_cons_of_mem _ hf))

/-! ## Acks between frames -/

/-- `WithAcks frames stream`: `stream` is `frames` with ack frames inserted at
any frame boundaries. -/
inductive WithAcks : List Bytes → List Bytes → Prop where
  | nil : WithAcks [] []
  | data {frame : Bytes} {frames stream : List Bytes} :
      WithAcks frames stream → WithAcks (frame :: frames) (frame :: stream)
  | ack {acked : UInt16} {frames stream : List Bytes} :
      WithAcks frames stream → WithAcks frames (encodeAck acked :: stream)

theorem WithAcks.delivers (h : WithAcks frames stream) :
    ∀ {f g : Framer} {ms : List Bytes}, Delivers f frames ms g → Delivers f stream ms g := by
  induction h with
  | nil => exact fun hd => hd
  | data _ ih =>
    intro f g ms hd
    cases hd with
    | skip hstep hrest => exact .skip hstep (ih hrest)
    | emit hstep hrest => exact .emit hstep (ih hrest)
  | ack _ ih => exact fun hd => .skip (ingest_encodeAck _ _) (ih hd)

theorem WithAcks.whole (h : WithAcks frames stream) (hwhole : ∀ frame ∈ frames, Whole frame) :
    ∀ frame ∈ stream, Whole frame := by
  induction h with
  | nil => exact hwhole
  | data _ ih =>
    intro frame hf
    rcases List.mem_cons.mp hf with rfl | hf
    · exact hwhole _ List.mem_cons_self
    · exact ih (fun x hx => hwhole x (List.mem_cons_of_mem _ hx)) frame hf
  | @ack acked _ _ _ ih =>
    intro frame hf
    rcases List.mem_cons.mp hf with rfl | hf
    · exact @whole_frameOf [] (Nat.zero_le _) acked flagAck
    · exact ih hwhole frame hf

/-! ## One message through the framer -/

/-- Between two messages: nothing buffered, `seq` accepted next. -/
structure Ready (f : Framer) (seq : UInt16) : Prop where
  cap : f.cap = defaultReassemblyCap
  progress : f.progress = .idle
  buffer : f.buffer = []
  expects : Expects f seq

/-- Between two frames of `message`, the first `offset` bytes of which have
arrived. -/
structure Midway (message : Bytes) (f : Framer) (offset : Nat) (seq : UInt16) : Prop where
  cap : f.cap = defaultReassemblyCap
  progress : f.progress = .assembling
  buffer : f.buffer = message.take offset
  expects : Expects f seq

theorem ready_new (seq : UInt16) : Ready .new seq :=
  ⟨rfl, rfl, rfl, .inl rfl⟩

/-- A buffer that holds part of a message within the cap passes the check. -/
theorem capped_take {done : Framer} {n : Nat} {out : Option Bytes}
    (hcap : f.cap = defaultReassemblyCap) (hbuf : f.buffer = message.take n)
    (hlen : message.length ≤ defaultReassemblyCap) : f.capped out done = (done, .ok out) := by
  have hle : ¬ f.buffer.length > f.cap := by
    rw [hbuf, hcap, List.length_take]
    omega
  unfold Framer.capped Framer.checkCap
  rw [if_neg hle]

/-- The payload of the iteration at `offset` extends the part already sent. -/
theorem take_append_payload (message : Bytes) (offset maxPayload : Nat)
    (hoff : offset ≤ message.length) :
    message.take offset ++ (message.drop offset).take
        (min (offset + maxPayload) message.length - offset) =
      message.take (min (offset + maxPayload) message.length) := by
  have hstop : min (offset + maxPayload) message.length =
      offset + (min (offset + maxPayload) message.length - offset) := by omega
  conv_rhs => rw [hstop, List.take_add]

theorem payload_length_le (message : Bytes) (offset maxPayload : Nat) :
    ((message.drop offset).take
      (min (offset + maxPayload) message.length - offset)).length ≤ maxPayload := by
  rw [List.length_take]
  omega

theorem ingest_middle (h : Midway message f offset seq) (hpay : payload.length ≤ 65535)
    (hlen : message.length ≤ defaultReassemblyCap)
    (htake : message.take offset ++ payload = message.take stop) :
    ∃ g, f.ingest (frameOf seq 0 payload) = (g, .ok none) ∧ Midway message g stop (seq + 1) := by
  have hbusy : f.progress ≠ .idle := by rw [h.progress]; exact fun hc => nomatch hc
  rw [ingest_frameOf hpay (by decide) (by decide) (fun hc => hc.1 (by decide))
    (fun hc => hbusy hc.2) h.expects]
  have hbuf : f.buffer ++ payload = message.take stop := by rw [h.buffer, htake]
  refine ⟨{ f with nextSeq := some (seq + 1), buffer := f.buffer ++ payload },
    ?_, ⟨h.cap, h.progress, hbuf, .inr rfl⟩⟩
  unfold Framer.accept
  rw [if_neg (by decide), if_neg (by decide), if_pos rfl]
  exact capped_take h.cap hbuf hlen

theorem ingest_last (h : Midway message f offset seq) (hpay : payload.length ≤ 65535)
    (hlen : message.length ≤ defaultReassemblyCap)
    (htake : message.take offset ++ payload = message) :
    ∃ g, f.ingest (frameOf seq flagEnd payload) = (g, .ok (some message)) ∧ Ready g (seq + 1) := by
  have hbusy : f.progress ≠ .idle := by rw [h.progress]; exact fun hc => nomatch hc
  rw [ingest_frameOf hpay (by decide) (by decide) (fun hc => hc.1 (by decide))
    (fun hc => absurd hc.1 (by decide)) h.expects]
  have hbuf : f.buffer ++ payload = message := by rw [h.buffer, htake]
  refine ⟨{ f with nextSeq := some (seq + 1), progress := .idle, buffer := [] },
    ?_, ⟨h.cap, rfl, rfl, .inr rfl⟩⟩
  unfold Framer.accept
  rw [if_neg (by decide), if_neg (by decide), if_neg (by decide), if_neg hbusy]
  simp only [hbuf]
  exact capped_take h.cap (List.take_length).symm hlen

theorem ingest_first (h : Ready f seq) (hpay : payload.length ≤ 65535)
    (hlen : message.length ≤ defaultReassemblyCap) (htake : payload = message.take stop) :
    ∃ g, f.ingest (frameOf seq flagStart payload) = (g, .ok none) ∧
      Midway message g stop (seq + 1) := by
  rw [ingest_frameOf hpay (by decide) (by decide) (fun hc => hc.2 h.progress)
    (fun hc => absurd hc.1 (by decide)) h.expects]
  refine ⟨{ f with nextSeq := some (seq + 1), progress := .assembling, buffer := payload },
    ?_, ⟨h.cap, rfl, htake, .inr rfl⟩⟩
  unfold Framer.accept
  rw [if_neg (by decide), if_pos rfl]
  exact capped_take h.cap htake hlen

/-- A START|END frame is a message by itself. -/
theorem ingest_single (h : Ready f seq) (hpay : payload.length ≤ 65535) :
    ∃ g, f.ingest (frameOf seq (flagStart ||| flagEnd) payload) = (g, .ok (some payload)) ∧
      Ready g (seq + 1) := by
  rw [ingest_frameOf hpay (by decide) (by decide) (fun hc => hc.2 h.progress)
    (fun hc => absurd hc.1 (by decide)) h.expects]
  exact ⟨{ f with nextSeq := some (seq + 1) }, if_pos rfl,
    ⟨h.cap, h.progress, h.buffer, .inr rfl⟩⟩

/-! ## Splitting and putting back together -/

/-- What a sender's frames are good for: each is cut off whole and fits the
payload budget, and the last of them, and none before it, completes the message. -/
structure Framed (message : Bytes) (maxPayload : Nat) (f : Framer) (frames : List Bytes)
    (next : UInt16) : Prop where
  whole : ∀ frame ∈ frames, Whole frame
  fits : ∀ frame ∈ frames, frame.length ≤ headerLen + maxPayload
  completes : ∃ init last h g, frames = init ++ [last] ∧ Delivers f init [] h ∧
    h.ingest last = (g, .ok (some message)) ∧ Ready g next

theorem Framed.delivers (h : Framed message maxPayload f frames next) :
    ∃ g, Delivers f frames [message] g ∧ Ready g next := by
  obtain ⟨init, last, mid, g, rfl, hinit, hlast, hready⟩ := h.completes
  exact ⟨g, hinit.append (.emit hlast .nil), hready⟩

/-- Put one more frame in front. -/
theorem Framed.cons (hpay : payload.length ≤ maxPayload) (hmax : maxPayload ≤ 65535)
    (hstep : f.ingest (frameOf seq flags payload) = (g, .ok none))
    (h : Framed message maxPayload g frames next) :
    Framed message maxPayload f (frameOf seq flags payload :: frames) next := by
  refine ⟨?_, ?_, ?_⟩
  · intro frame hf
    rcases List.mem_cons.mp hf with rfl | hf
    · exact whole_frameOf (Nat.le_trans hpay hmax) seq flags
    · exact h.whole frame hf
  · intro frame hf
    rcases List.mem_cons.mp hf with rfl | hf
    · rw [frameOf_length]; omega
    · exact h.fits frame hf
  · obtain ⟨init, last, mid, g', rfl, hinit, hlast, hready⟩ := h.completes
    exact ⟨_ :: init, last, mid, g', rfl, .skip hstep hinit, hlast, hready⟩

/-- The frame that completes the message. -/
theorem Framed.last (hpay : payload.length ≤ maxPayload) (hmax : maxPayload ≤ 65535)
    (hstep : f.ingest (frameOf seq flags payload) = (g, .ok (some message))) (h : Ready g next) :
    Framed message maxPayload f [frameOf seq flags payload] next := by
  refine ⟨?_, ?_, ⟨[], _, f, g, rfl, .nil, hstep, h⟩⟩
  · intro frame hf
    rw [List.mem_singleton.mp hf]
    exact whole_frameOf (Nat.le_trans hpay hmax) seq flags
  · intro frame hf
    rw [List.mem_singleton.mp hf, frameOf_length]
    omega

theorem seq_succ (start : UInt16) (i : Nat) :
    start + UInt16.ofNat i + 1 = start + UInt16.ofNat (i + 1) := by
  rw [UInt16.ofNat_add, UInt16.add_assoc]
  rfl

/-- Before the frame with number `i`. -/
def Before (message : Bytes) (f : Framer) (offset i : Nat) (seq : UInt16) : Prop :=
  if i = 0 then offset = 0 ∧ Ready f seq else Midway message f offset seq

/-- Any frame but the last one. -/
theorem Before.opens {count i : Nat} (h : Before message f offset i seq) (hi : i + 1 < count)
    (hpay : payload.length ≤ 65535) (hlen : message.length ≤ defaultReassemblyCap)
    (htake : message.take offset ++ payload = message.take stop) :
    ∃ g, f.ingest (frameOf seq (frameFlags count i) payload) = (g, .ok none) ∧
      Midway message g stop (seq + 1) := by
  unfold Before at h
  unfold frameFlags
  split_ifs at h ⊢ with hfirst
  · omega
  · obtain ⟨rfl, hready⟩ := h
    exact ingest_first hready hpay hlen (by simpa using htake)
  · omega
  · exact ingest_middle h hpay hlen htake

/-- The last frame. -/
theorem Before.closes {count i : Nat} (h : Before message f offset i seq) (hi : i + 1 = count)
    (hpay : payload.length ≤ 65535) (hlen : message.length ≤ defaultReassemblyCap)
    (htake : message.take offset ++ payload = message) :
    ∃ g, f.ingest (frameOf seq (frameFlags count i) payload) = (g, .ok (some message)) ∧
      Ready g (seq + 1) := by
  unfold Before at h
  unfold frameFlags
  split_ifs at h ⊢ with hfirst
  · obtain ⟨rfl, hready⟩ := h
    obtain rfl : payload = message := by simpa using htake
    exact ingest_single hready hpay
  · omega
  · exact ingest_last h hpay hlen htake
  · omega

/-- The loop of `split_message`: from a receiver that has the first `offset` bytes, the
remaining frames complete the message. -/
theorem splitLoop_framed {count : Nat} (hmax : maxPayload ≤ 65535)
    (hlen : message.length ≤ defaultReassemblyCap) :
    ∀ (left offset : Nat) (f : Framer), left + 1 ≤ count → offset ≤ message.length →
      message.length - offset ≤ (left + 1) * maxPayload →
      Before message f offset (count - (left + 1)) (start + UInt16.ofNat (count - (left + 1))) →
      ∃ frames, splitLoop message maxPayload start count (left + 1) offset = .ok frames ∧
        Framed message maxPayload f frames (start + UInt16.ofNat count) := by
  intro left
  induction left with
  | zero =>
    intro offset f hcount hoff hleft hbefore
    have hpay := payload_length_le message offset maxPayload
    have htake := take_append_payload message offset maxPayload hoff
    rw [show min (offset + maxPayload) message.length = message.length by omega] at htake hpay
    rw [List.take_length] at htake
    have hpay' := Nat.le_trans hpay hmax
    have hlast : count - (0 + 1) + 1 = count := by omega
    obtain ⟨g, hstep, hready⟩ := hbefore.closes hlast hpay' hlen htake
    rw [seq_succ, hlast] at hready
    refine ⟨_, ?_, .last hpay hmax hstep hready⟩
    simp only [splitLoop, show min (offset + maxPayload) message.length = message.length by omega,
      encodeFrame_eq hpay']
    rfl
  | succ left ih =>
    intro offset f hcount hoff hleft hbefore
    have hpay := payload_length_le message offset maxPayload
    have htake := take_append_payload message offset maxPayload hoff
    have hpay' := Nat.le_trans hpay hmax
    have hmore : count - (left + 1 + 1) + 1 < count := by omega
    obtain ⟨g, hstep, hnext⟩ := hbefore.opens hmore hpay' hlen htake
    rw [seq_succ, show count - (left + 1 + 1) + 1 = count - (left + 1) by omega] at hnext
    obtain ⟨frames, hloop, hframed⟩ := ih (min (offset + maxPayload) message.length) g
      (by omega) (by omega) (by rw [Nat.add_mul (left + 1) 1] at hleft; omega)
      ((if_neg (by omega)).mpr hnext)
    refine ⟨_, ?_, .cons hpay hmax hstep hframed⟩
    rw [splitLoop]
    simp only [encodeFrame_eq hpay', hloop]
    rfl

/-- The frames a message takes, and that they cover it. -/
theorem length_le_frameCount_mul (message : Bytes) (hpos : 1 ≤ maxPayload) :
    message.length ≤ frameCount message maxPayload * maxPayload := by
  have hdiv := Nat.div_add_mod (message.length + maxPayload - 1) maxPayload
  have hmod := Nat.mod_lt (message.length + maxPayload - 1) hpos
  have hle : (message.length + maxPayload - 1) / maxPayload * maxPayload ≤
      frameCount message maxPayload * maxPayload :=
    Nat.mul_le_mul_right _ (Nat.le_max_left _ _)
  rw [Nat.mul_comm] at hdiv
  omega

/-- **One message round-trips**: splitting succeeds, and its frames take any
receiver that is ready for them across exactly that message. -/
theorem splitMessage_framed (hpos : 1 ≤ maxPayload) (hmax : maxPayload ≤ 65535)
    (hlen : message.length ≤ defaultReassemblyCap) (hready : Ready f start) :
    ∃ frames next, splitMessage message maxPayload start = .ok (frames, next) ∧
      Framed message maxPayload f frames next := by
  have hcover := length_le_frameCount_mul message hpos
  obtain ⟨left, hcount⟩ : ∃ left, frameCount message maxPayload = left + 1 :=
    ⟨frameCount message maxPayload - 1, by rw [frameCount]; omega⟩
  rw [hcount] at hcover
  have hbefore : Before message f 0 (left + 1 - (left + 1))
      (start + UInt16.ofNat (left + 1 - (left + 1))) := by
    rw [Nat.sub_self]
    exact ⟨rfl, (UInt16.add_zero start).symm ▸ hready⟩
  obtain ⟨frames, hloop, hframed⟩ := splitLoop_framed hmax hlen left 0 f (Nat.le_refl _)
    (Nat.zero_le _) hcover hbefore
  refine ⟨frames, _, ?_, hframed⟩
  rw [splitMessage, if_neg (by omega), hcount]
  simp only [hloop]
  rfl

theorem frameCount_one (hpos : 1 ≤ maxPayload) (hfits : message.length ≤ maxPayload) :
    frameCount message maxPayload = 1 := by
  have hdiv : (message.length + maxPayload - 1) / maxPayload < 2 :=
    Nat.div_lt_of_lt_mul (by omega)
  rw [frameCount]
  omega

theorem splitMessage_one (start : UInt16) (hpos : 1 ≤ maxPayload)
    (hfits : message.length ≤ maxPayload) :
    splitMessage message maxPayload start =
      (encodeFrame start (flagStart ||| flagEnd) message).map
        fun frame => ([frame], start + 1) := by
  have hstop : min (0 + maxPayload) message.length = message.length := by omega
  have hseq : start + UInt16.ofNat (1 - (0 + 1)) = start := UInt16.add_zero start
  have hflags : frameFlags 1 (1 - (0 + 1)) = flagStart ||| flagEnd := rfl
  rw [splitMessage, if_neg (by omega), frameCount_one hpos hfits]
  simp only [splitLoop, hstop, Nat.sub_zero, List.drop_zero, List.take_length, hseq, hflags]
  cases encodeFrame start (flagStart ||| flagEnd) message with
  | error | ok => rfl

/-- A payload size beyond the length field is no better than the largest one in it. -/
theorem splitMessage_beyond (hmax : 65535 < maxPayload)
    (hsplit : splitMessage message maxPayload start = .ok (frames, next)) :
    splitMessage message 65535 start = .ok (frames, next) := by
  by_cases hlen : message.length ≤ 65535
  · rw [splitMessage_one start (by omega) (by omega)] at hsplit
    rw [splitMessage_one start (by decide) hlen]
    exact hsplit
  · -- the first payload does not fit its length field
    obtain ⟨left, hcount⟩ : ∃ left, frameCount message maxPayload = left + 1 :=
      ⟨frameCount message maxPayload - 1, by rw [frameCount]; omega⟩
    have hlong : ¬ ((message.drop 0).take (min (0 + maxPayload) message.length - 0)).length ≤
        65535 := by
      rw [List.length_take, List.length_drop]
      omega
    have hloop : splitLoop message maxPayload start (left + 1) (left + 1) 0 = .error .panic := by
      rw [splitLoop, encodeFrame, if_neg hlong]
      rfl
    rw [splitMessage, if_neg (by omega), hcount] at hsplit
    simp only [hloop] at hsplit
    cases hsplit

/-- The frames of one message complete it in a fresh framer with their last byte, at every
payload size at which the split succeeds. -/
theorem splitMessage_completes (hlen : message.length ≤ defaultReassemblyCap)
    (hsplit : splitMessage message maxPayload start = .ok (frames, next)) :
    Completes frameSlicer Framer.ingest .new frames.flatten message ∧
      ∀ frame ∈ frames, Whole frame := by
  by_cases hzero : maxPayload = 0
  · rw [splitMessage, if_pos hzero] at hsplit
    cases hsplit
  · -- within the length field the frames are those of the round trip
    have hsmall : ∃ size, 1 ≤ size ∧ size ≤ 65535 ∧
        splitMessage message size start = .ok (frames, next) := by
      by_cases hmax : maxPayload ≤ 65535
      · exact ⟨maxPayload, by omega, hmax, hsplit⟩
      · exact ⟨65535, by decide, by decide, splitMessage_beyond (by omega) hsplit⟩
    obtain ⟨size, hpos, hmax, hsplit⟩ := hsmall
    obtain ⟨frames', next', hsplit', hframed⟩ :=
      splitMessage_framed hpos hmax hlen (ready_new start)
    rw [hsplit] at hsplit'
    cases hsplit'
    refine ⟨?_, hframed.whole⟩
    obtain ⟨init, last, mid, g, rfl, hinit, hlast, -⟩ := hframed.completes
    have hfeeds := hinit.feeds fun frame hf => hframed.whole frame (List.mem_append_left _ hf)
    have hwhole := hframed.whole last (List.mem_append_right _ List.mem_cons_self)
    exact ⟨init.flatten, last, mid, g, hfeeds, by simpa using hwhole [], hlast, by simp⟩

/-- Split a list of messages, each starting at the sequence number the one
before it returned. -/
def splitAll (maxPayload : Nat) :
    List Bytes → UInt16 → Except (Fault FrameError) (List Bytes × UInt16)
  | [], seq => .ok ([], seq)
  | message :: messages, seq => do
    let (frames, next) ← splitMessage message maxPayload seq
    let (more, last) ← splitAll maxPayload messages next
    return (frames ++ more, last)

theorem splitAll_delivers (hpos : 1 ≤ maxPayload) (hmax : maxPayload ≤ 65535) :
    ∀ (messages : List Bytes) (start : UInt16) (f : Framer),
      (∀ m ∈ messages, m.length ≤ defaultReassemblyCap) → Ready f start →
      ∃ frames next, splitAll maxPayload messages start = .ok (frames, next) ∧
        (∀ frame ∈ frames, Whole frame ∧ frame.length ≤ headerLen + maxPayload) ∧
        ∃ g, Delivers f frames messages g ∧ Ready g next
  | [], start, f, _, hready =>
    ⟨[], start, rfl, fun _ h => absurd h List.not_mem_nil, f, .nil, hready⟩
  | message :: messages, start, f, hlen, hready => by
    obtain ⟨frames, next, hsplit, hframed⟩ :=
      splitMessage_framed hpos hmax (hlen message List.mem_cons_self) hready
    obtain ⟨g, hd, hg⟩ := hframed.delivers
    obtain ⟨more, last, hmore, hwhole, g', hd', hg'⟩ :=
      splitAll_delivers hpos hmax messages next g
        (fun m hm => hlen m (List.mem_cons_of_mem _ hm)) hg
    refine ⟨frames ++ more, last, ?_, ?_, g', hd.append hd', hg'⟩
    · simp only [splitAll, hsplit, hmore, bind, Except.bind, pure, Except.pure]
    · intro frame hf
      rcases List.mem_append.mp hf with hf | hf
      · exact ⟨hframed.whole frame hf, hframed.fits frame hf⟩
      · exact hwhole frame hf

/-- The header and a full payload fit one ATT operation. -/
theorem frame_fits_mtu (mtu : UInt16) :
    headerLen + maxFramePayload mtu = max mtu.toNat minAttMtu - attPduOverhead := by
  have h : minAttMtu ≤ max mtu.toNat minAttMtu := Nat.le_max_right _ _
  unfold maxFramePayload
  simp only [minAttMtu, attPduOverhead, headerLen] at h ⊢
  omega

/-- **Framing round trip.** Messages within the reassembly cap, split at any
payload budget from any sequence number, with acks inserted at any frame
boundaries and the bytes cut into any chunks that keep the buffer within the
cap, come out of a fresh assembler unchanged and in order, and leave it idle.
At the budget derived from an MTU every frame fits one ATT operation. -/
theorem framing_round_trip (messages : List Bytes) (maxPayload : Nat) (start : UInt16)
    (hlen : ∀ m ∈ messages, m.length ≤ defaultReassemblyCap)
    (hpos : 1 ≤ maxPayload) (hmax : maxPayload ≤ 65535) :
    ∃ frames next, splitAll maxPayload messages start = .ok (frames, next) ∧
      (∀ stream chunks, WithAcks frames stream → chunks.flatten = stream.flatten →
        InboundAssembler.Fits .new chunks →
        ∃ asm, InboundAssembler.new.feedAll chunks = (messages, .ok asm) ∧ asm.isIdle = true) ∧
      (∀ mtu : UInt16, maxPayload = maxFramePayload mtu →
        ∀ frame ∈ frames, frame.length ≤ max mtu.toNat 23 - 3) := by
  obtain ⟨frames, next, hsplit, hframes, g, hd, hready⟩ :=
    splitAll_delivers hpos hmax messages start Framer.new hlen (ready_new start)
  refine ⟨frames, next, hsplit, ?_, ?_⟩
  · intro stream chunks hacks hflat hcap
    have hfeeds := (hacks.delivers hd).feeds (hacks.whole fun frame hf => (hframes frame hf).1)
    rw [← hflat] at hfeeds
    refine ⟨⟨[], g⟩, feedAll_of_feeds chunks rfl hcap hfeeds, ?_⟩
    simp [InboundAssembler.isIdle, Framer.isIdle, hready.progress, hready.buffer]
  · intro mtu hmtu frame hf
    have hfit := (hframes frame hf).2
    rw [hmtu, frame_fits_mtu] at hfit
    exact hfit

/-- Two messages at sequence 65535, one of them in two frames and across the
wrap, an ack between its frames, cut inside both headers. -/
theorem framing_round_trip_wraps :
    ∃ asm, InboundAssembler.new.feedAll
        [[0, 2, 255], [255, 1, 0, 7, 8, 0, 0, 0, 3, 4, 0, 0, 1, 0, 0, 2],
          [0, 9, 0, 0, 0, 1, 3, 0]] = ([[7, 8, 9], []], .ok asm) ∧ asm.isIdle = true := by
  obtain ⟨frames, next, hsplit, hround, -⟩ :=
    framing_round_trip [[7, 8, 9], []] 2 65535 (by decide) (by decide) (by decide)
  have hframes : frames = [[0, 2, 255, 255, 1, 0, 7, 8], [0, 1, 0, 0, 2, 0, 9],
      [0, 0, 0, 1, 3, 0]] := by
    have h : splitAll 2 [[7, 8, 9], []] 65535 =
        .ok ([[0, 2, 255, 255, 1, 0, 7, 8], [0, 1, 0, 0, 2, 0, 9], [0, 0, 0, 1, 3, 0]], 2) := by
      decide
    rw [h] at hsplit
    simp only [Except.ok.injEq, Prod.mk.injEq] at hsplit
    exact hsplit.1.symm
  subst hframes
  have hack : WithAcks [[0, 1, 0, 0, 2, 0, 9], [0, 0, 0, 1, 3, 0]]
      [encodeAck 3, [0, 1, 0, 0, 2, 0, 9], [0, 0, 0, 1, 3, 0]] := .ack (.data (.data .nil))
  refine hround _ _ (.data hack) rfl ?_
  rw [fits_cons_ok (by decide) rfl, fits_cons_ok (by decide) rfl, fits_cons_ok (by decide) rfl]
  trivial

end Conveyance.Wire
