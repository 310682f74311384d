import Conveyance.Wire.SingleMessage
import Conveyance.Lib.Transition

/-!
# Memory of a reassembly

How much a `Framer` holds, and how long the messages are that it gives out, over any
frames it is fed, those after a refusal included.

The cap is checked after the buffer has grown, on every path but one. So a message of
several frames never comes out longer than the cap, and the frame that is refused as too
large is still in the buffer: at most one payload above the cap. Two ways lead further. A
whole message in one frame is handed out unchecked. And a message refused as too large
stays open: the next frame is put behind it before it is refused as well.
-/

namespace Conveyance.Wire

open Lib

/-- A frame with a payload, of which the framer asks this sequence number next. -/
structure InTurn (f : Framer) (frame : Bytes) (flags : UInt8) (payload : Bytes) : Prop where
  fits : payload.length ≤ 65535
  framed : ∃ seq, Expects f seq ∧ frame = frameOf seq flags payload

theorem Comes.inTurn {f : Framer} {frame payload : Bytes} {seq : UInt16} {flags : UInt8}
    (h : Comes f frame seq flags payload) : InTurn f frame flags payload :=
  ⟨h.fits, seq, h.expects, h.framed⟩

theorem Framer.capped_cases (f : Framer) (out : Option Bytes) (done : Framer) :
    (f.cap < f.buffer.length ∧ ∃ e, f.capped out done = (f, .error e)) ∨
      (f.buffer.length ≤ f.cap ∧ f.capped out done = (done, .ok out)) := by
  unfold capped checkCap
  split_ifs with h
  · exact .inl ⟨h, _, rfl⟩
  · exact .inr ⟨Nat.le_of_not_lt h, rfl⟩

theorem Framer.capped_none (f : Framer) :
    (f.capped none f).1 = f ∧ ∀ message, (f.capped none f).2 ≠ .ok (some message) := by
  rcases f.capped_cases none f with ⟨-, e, h⟩ | ⟨-, h⟩ <;> simp [h]

/-! ## The bound -/

/-- What feeding one frame should never exceed. -/
structure Bounded (cap : Nat) (f : Framer) (frame : Bytes) : Prop where
  message : ∀ message, (f.ingest frame).2 = .ok (some message) → message.length ≤ cap
  buffer : (f.ingest frame).1.buffer.length ≤ cap + 65535

/-- A whole message in one frame is no longer than the cap; and a frame that goes on with a
message already over the cap adds no more than is left of one payload. -/
structure Contained (cap : Nat) (f : Framer) (frame : Bytes) : Prop where
  whole : ∀ payload, InTurn f frame (flagStart ||| flagEnd) payload → f.progress = .idle →
    payload.length ≤ cap
  excess : ∀ payload, InTurn f frame 0 payload ∨ InTurn f frame flagEnd payload →
    f.progress = .assembling → cap < f.buffer.length →
    f.buffer.length - cap + payload.length ≤ 65535

section Step

variable {f : Framer} {frame payload : Bytes} {flags : UInt8} {cap : Nat}

theorem ingest_of_inTurn (h : InTurn f frame flags payload) (hlegal : flags ∈ legalFlags)
    (hack : flags ≠ flagAck) (hnested : ¬(flags &&& flagStart ≠ 0 ∧ f.progress ≠ .idle))
    (hstray : ¬(flags = 0 ∧ f.progress = .idle)) :
    ∃ seq, f.ingest frame = { f with nextSeq := some (seq + 1) }.accept seq flags payload := by
  obtain ⟨seq, hseq, rfl⟩ := h.framed
  exact ⟨seq, ingest_frameOf h.fits hlegal hack hnested hstray hseq⟩

theorem ingest_of_whole (h : InTurn f frame (flagStart ||| flagEnd) payload)
    (hidle : f.progress = .idle) : (f.ingest frame).2 = .ok (some payload) := by
  obtain ⟨seq, hseq⟩ := ingest_of_inTurn h (by decide) (by decide)
    (fun hnested => hnested.2 hidle) (fun hstray => absurd hstray.1 (by decide))
  rw [hseq]
  rfl

/-- Over the cap a frame is put behind the message and refused. -/
theorem ingest_of_excess (h : InTurn f frame 0 payload ∨ InTurn f frame flagEnd payload)
    (hbusy : f.progress = .assembling) (hexcess : f.cap < f.buffer.length) :
    (f.ingest frame).1.buffer = f.buffer ++ payload := by
  have hbusy' : f.progress ≠ .idle := by
    rw [hbusy]
    decide
  have hstill (seq : UInt16) (out : Option Bytes) (done : Framer) :
      Framer.capped { f with buffer := f.buffer ++ payload, nextSeq := some (seq + 1) } out done =
        ({ f with buffer := f.buffer ++ payload, nextSeq := some (seq + 1) },
          .error (.messageTooLarge (f.buffer ++ payload).length f.cap)) := by
    unfold Framer.capped Framer.checkCap
    have hover : f.cap < (f.buffer ++ payload).length := by
      rw [List.length_append]
      omega
    rw [if_pos hover]
  rcases h with h | h
  · obtain ⟨seq, hseq⟩ := ingest_of_inTurn h (by decide) (by decide)
      (fun hnested => hnested.1 (by decide)) (fun hstray => hbusy' hstray.2)
    rw [hseq, Framer.accept, if_neg (by decide), if_neg (by decide), if_pos rfl]
    rw [hstill]
  · obtain ⟨seq, hseq⟩ := ingest_of_inTurn h (by decide) (by decide)
      (fun hnested => hnested.1 (by decide)) (fun hstray => hbusy' hstray.2)
    rw [hseq, Framer.accept, if_neg (by decide), if_neg (by decide), if_neg (by decide),
      if_neg hbusy']
    rw [hstill]

theorem Bounded.contained (h : Bounded cap f frame) (hcap : f.cap = cap) :
    Contained cap f frame := by
  refine ⟨fun payload hturn hidle => h.message payload (ingest_of_whole hturn hidle), ?_⟩
  intro payload hturn hbusy hexcess
  have hbuffer := h.buffer
  rw [ingest_of_excess hturn hbusy (hcap ▸ hexcess), List.length_append] at hbuffer
  omega

/-- Below the cap one payload is always room enough. -/
theorem Contained.room (h : Contained cap f frame) (hbusy : f.progress = .assembling)
    (hturn : InTurn f frame 0 payload ∨ InTurn f frame flagEnd payload) :
    (f.buffer ++ payload).length ≤ cap + 65535 := by
  have hfits : payload.length ≤ 65535 := hturn.elim (·.fits) (·.fits)
  rw [List.length_append]
  by_cases hexcess : cap < f.buffer.length
  · have hroom := h.excess payload hturn hbusy hexcess
    omega
  · omega

theorem Contained.bounded (h : Contained cap f frame) (hcap : f.cap = cap)
    (hbuffer : f.buffer.length ≤ cap + 65535) : Bounded cap f frame := by
  cases f.ingest_takes frame with
  | refused e _ hsame herror => exact ⟨by simp [herror], hsame ▸ hbuffer⟩
  | ack seq _ heq => exact ⟨by simp [heq], by rwa [heq]⟩
  | single hcomes hidle heq =>
    refine ⟨fun message hout => ?_, by rwa [heq]⟩
    obtain rfl : _ = message := by simpa [heq] using hout
    exact h.whole _ hcomes.inTurn hidle
  | first hcomes _ heq =>
    obtain ⟨hstate, hsilent⟩ := Framer.capped_none ⟨_, _, _, _⟩
    exact ⟨fun message hout => absurd (heq ▸ hout) (hsilent message),
      by rw [heq, hstate]; exact Nat.le_add_left_of_le hcomes.fits⟩
  | middle hcomes hbusy heq =>
    obtain ⟨hstate, hsilent⟩ := Framer.capped_none ⟨_, _, _, _⟩
    exact ⟨fun message hout => absurd (heq ▸ hout) (hsilent message),
      by rw [heq, hstate]; exact h.room hbusy (.inl hcomes.inTurn)⟩
  | @last seq payload hcomes hbusy heq =>
    rcases Framer.capped_cases { f with nextSeq := some (seq + 1), buffer := f.buffer ++ payload }
      (some (f.buffer ++ payload)) ⟨f.cap, .idle, some (seq + 1), []⟩ with ⟨-, e, h'⟩ | ⟨hle, h'⟩
    · exact ⟨by simp [heq, h'], by rw [heq, h']; exact h.room hbusy (.inr hcomes.inTurn)⟩
    · rw [h'] at heq
      refine ⟨fun message hout => ?_, by simp [heq]⟩
      obtain rfl : _ = message := by simpa [heq] using hout
      exact hcap ▸ hle

theorem ingest_cap (f : Framer) (frame : Bytes) : (f.ingest frame).1.cap = f.cap := by
  have hcapped : ∀ {g done : Framer} {out}, g.cap = f.cap → done.cap = f.cap →
      (g.capped out done).1.cap = f.cap := by
    intro g done out hg hdone
    rcases g.capped_cases out done with ⟨-, e, h⟩ | ⟨-, h⟩ <;> rw [h] <;> assumption
  cases f.ingest_takes frame with
  | refused e hcap => exact hcap
  | ack _ _ heq | single _ _ heq => rw [heq]
  | first _ _ heq | middle _ _ heq | last _ _ heq =>
    rw [heq]
    exact hcapped rfl rfl

end Step

/-- Messages and memory stay within the bound in exactly the runs all of whose frames are
contained. -/
theorem reassembly_bounded_iff_contained (cap : Nat) (frames : List Bytes) :
    Along (fun f frame => (f.ingest frame).1) (Bounded cap) (Framer.withCap cap) frames ↔
      Along (fun f frame => (f.ingest frame).1) (Contained cap) (Framer.withCap cap) frames := by
  let inv (f : Framer) : Prop := f.cap = cap ∧ f.buffer.length ≤ cap + 65535
  have hinit : inv (Framer.withCap cap) := ⟨rfl, Nat.zero_le _⟩
  have hkept (f : Framer) (frame : Bytes) (hinv : inv f) (h : Bounded cap f frame) :
      inv (f.ingest frame).1 :=
    ⟨(ingest_cap f frame).trans hinv.1, h.buffer⟩
  constructor
  · intro h
    exact h.transfer inv hinit hkept fun f frame hinv hstep => hstep.contained hinv.1
  · intro h
    exact h.transfer inv hinit
      (fun f frame hinv hstep => hkept f frame hinv (hstep.bounded hinv.1 hinv.2))
      fun f frame hinv hstep => hstep.bounded hinv.1 hinv.2

/-- Three bytes in one frame come out of a framer that is to hold two. -/
theorem whole_frame_passes_the_cap :
    ¬ Along (fun f frame => (f.ingest frame).1) (Bounded 2) (Framer.withCap 2)
      [[0, 3, 0, 0, 3, 0, 7, 8, 9]] := by
  rintro ⟨hstep, -⟩
  exact absurd (hstep.message [7, 8, 9] rfl) (by decide)

end Conveyance.Wire
