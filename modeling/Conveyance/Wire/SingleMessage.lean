import Conveyance.Wire.RoundTrip

/-!
# Streams that carry one message (conveyance-wire)

The round trip says what a receiver makes of the frames of a message. Here is the other
direction: bytes that a fresh receiver takes for exactly one message, with nothing left
over, are the frames of that message, with ack frames in between and around them.
-/

namespace Conveyance.Wire

open Lib Lib.Chunking

/-! ## The frames of a message -/

/-- The frames behind the first one. -/
def tailFrames : UInt16 → List Bytes → List Bytes
  | _, [] => []
  | seq, [last] => [frameOf seq flagEnd last]
  | seq, payload :: payloads => frameOf seq 0 payload :: tailFrames (seq + 1) payloads

/-- A message in one frame, or in several. -/
def messageFrames : UInt16 → List Bytes → List Bytes
  | _, [] => []
  | seq, [payload] => [frameOf seq (flagStart ||| flagEnd) payload]
  | seq, payload :: payloads => frameOf seq flagStart payload :: tailFrames (seq + 1) payloads

/-- The stream is one message, cut into frames in some way, and acks. -/
def CarriesOne (stream message : Bytes) : Prop :=
  ∃ seq payloads frames, payloads ≠ [] ∧ payloads.flatten = message ∧
    WithAcks (messageFrames seq payloads) frames ∧ frames.flatten = stream

/-! ## The frames a framer takes -/

/-- What a framer takes a frame for. -/
inductive Taken (f : Framer) (frame : Bytes) : Framer → Option Bytes → Prop where
  | ack (seq : UInt16) : frame = encodeAck seq → Taken f frame f none
  | single (seq : UInt16) (payload : Bytes) : frame = frameOf seq (flagStart ||| flagEnd) payload →
      f.progress = .idle → Taken f frame { f with nextSeq := some (seq + 1) } (some payload)
  | first (seq : UInt16) (payload : Bytes) : frame = frameOf seq flagStart payload →
      f.progress = .idle →
      Taken f frame ⟨f.cap, .assembling, some (seq + 1), payload⟩ none
  | middle (seq : UInt16) (payload : Bytes) : frame = frameOf seq 0 payload →
      f.progress = .assembling → Expects f seq →
      Taken f frame { f with nextSeq := some (seq + 1), buffer := f.buffer ++ payload } none
  | last (seq : UInt16) (payload : Bytes) : frame = frameOf seq flagEnd payload →
      f.progress = .assembling → Expects f seq →
      Taken f frame ⟨f.cap, .idle, some (seq + 1), []⟩ (some (f.buffer ++ payload))

/-- A frame with a payload and the sequence number that the framer asks for. -/
structure Comes (f : Framer) (frame : Bytes) (seq : UInt16) (flags : UInt8) (payload : Bytes) :
    Prop where
  fits : payload.length ≤ 65535
  expects : Expects f seq
  framed : frame = frameOf seq flags payload

/-- All that a framer does with a frame. -/
inductive Takes (f : Framer) (frame : Bytes) (r : Framer × Except FrameError (Option Bytes)) :
    Prop where
  | refused (e : FrameError) : r.1.cap = f.cap → r.1.buffer = f.buffer → r.2 = .error e →
      Takes f frame r
  | ack (seq : UInt16) : frame = encodeAck seq → r = (f, .ok none) → Takes f frame r
  | single {seq payload} : Comes f frame seq (flagStart ||| flagEnd) payload → f.progress = .idle →
      r = ({ f with nextSeq := some (seq + 1) }, .ok (some payload)) → Takes f frame r
  | first {seq payload} : Comes f frame seq flagStart payload → f.progress = .idle →
      r = Framer.capped ⟨f.cap, .assembling, some (seq + 1), payload⟩ none
        ⟨f.cap, .assembling, some (seq + 1), payload⟩ → Takes f frame r
  | middle {seq payload} : Comes f frame seq 0 payload → f.progress = .assembling →
      r = { f with nextSeq := some (seq + 1), buffer := f.buffer ++ payload }.capped none
        { f with nextSeq := some (seq + 1), buffer := f.buffer ++ payload } → Takes f frame r
  | last {seq payload} : Comes f frame seq flagEnd payload → f.progress = .assembling →
      r = { f with nextSeq := some (seq + 1), buffer := f.buffer ++ payload }.capped
        (some (f.buffer ++ payload)) ⟨f.cap, .idle, some (seq + 1), []⟩ → Takes f frame r

variable {f g : Framer} {out : Option Bytes} {seq : UInt16} {flags : UInt8} {payload b : Bytes}
  {ms : List Bytes}

theorem Framer.capped_ok {done : Framer} {out' : Option Bytes}
    (h : f.capped out done = (g, .ok out')) : g = done ∧ out' = out := by
  unfold Framer.capped at h
  split at h
  · cases h
  · cases h
    exact ⟨rfl, rfl⟩

theorem Framer.checkSeq_ok (h : f.checkSeq seq = .ok g) :
    Expects f seq ∧ g = { f with nextSeq := some (seq + 1) } := by
  unfold Framer.checkSeq at h
  split at h
  next expected hnext =>
    split_ifs at h with hne
    cases h
    have hseq : seq = expected := not_not.mp hne
    subst hseq
    exact ⟨.inr hnext, rfl⟩
  next hnext =>
    cases h
    exact ⟨.inl hnext, rfl⟩

theorem Framer.assembling_of_ne (f : Framer) (h : f.progress ≠ .idle) :
    f.progress = .assembling := by
  cases hprogress : f.progress with
  | idle => exact absurd hprogress h
  | assembling => rfl

/-- The last of the legal flags, where the others are spoken for. -/
theorem flagEnd_of_legal (hlegal : flags ∈ legalFlags) (hsingle : flags ≠ flagStart ||| flagEnd)
    (hfirst : flags ≠ flagStart) (hmiddle : flags ≠ 0) (hack : flags ≠ flagAck) :
    flags = flagEnd := by
  simp only [legalFlags, List.mem_cons, List.not_mem_nil, or_false] at hlegal
  rcases hlegal with h | h | h | h | h
  · exact absurd h hsingle
  · exact absurd h hfirst
  · exact h
  · exact absurd h hmiddle
  · exact absurd h hack

/-- A header that tells the length of what follows it. -/
theorem frameOf_header {l₀ l₁ s₀ s₁ : UInt8} (hlength : payload.length = (u16OfBe l₀ l₁).toNat) :
    l₀ :: l₁ :: s₀ :: s₁ :: flags :: 0 :: payload = frameOf (u16OfBe s₀ s₁) flags payload := by
  rw [frameOf, hlength, UInt16.ofNat_toNat, u16ToBe_u16OfBe, u16ToBe_u16OfBe]
  rfl

/-- The last match of `ingest`, by the flags. -/
theorem Framer.accept_takes {frame : Bytes} (hlegal : flags ∈ legalFlags) (hack : flags ≠ flagAck)
    (hnested : ¬ (flags &&& flagStart ≠ 0 ∧ f.progress ≠ .idle))
    (hstray : ¬ (flags = 0 ∧ f.progress = .idle)) (hcomes : Comes f frame seq flags payload) :
    Takes f frame ({ f with nextSeq := some (seq + 1) }.accept seq flags payload) := by
  unfold Framer.accept
  split_ifs with hsingle hfirst hmiddle hidle
  · subst hsingle
    exact .single hcomes (not_not.mp fun hne => hnested ⟨by decide, hne⟩) rfl
  · subst hfirst
    exact .first hcomes (not_not.mp fun hne => hnested ⟨by decide, hne⟩) rfl
  · subst hmiddle
    exact .middle hcomes (f.assembling_of_ne fun hidle => hstray ⟨rfl, hidle⟩) rfl
  · exact .refused _ rfl rfl rfl
  · obtain rfl := flagEnd_of_legal hlegal hsingle hfirst hmiddle hack
    exact .last hcomes (f.assembling_of_ne hidle) rfl

theorem Framer.ingest_takes (f : Framer) (frame : Bytes) : Takes f frame (f.ingest frame) := by
  unfold Framer.ingest
  split
  next l₀ l₁ s₀ s₁ flags reserved payload =>
    dsimp only
    split_ifs with hreserved hlegal hlength hack hempty hnested hstray
    any_goals exact .refused _ rfl rfl rfl
    all_goals
      obtain rfl := not_not.mp hreserved
      replace hlength := not_not.mp hlength
      rw [frameOf_header hlength]
    · subst hack
      obtain rfl := not_not.mp hempty
      exact .ack _ rfl rfl
    · split
      next e hcheck => exact .refused _ rfl rfl rfl
      next next hcheck =>
        obtain ⟨hseq, rfl⟩ := Framer.checkSeq_ok hcheck
        have hfits : payload.length ≤ 65535 := by
          rw [hlength]
          exact Nat.le_of_lt_succ (UInt16.toNat_lt _)
        exact Framer.accept_takes hlegal hack hnested hstray ⟨hfits, hseq, rfl⟩
  next => exact .refused _ rfl rfl rfl

theorem Framer.ingest_cases {frame : Bytes} (h : f.ingest frame = (g, .ok out)) :
    Taken f frame g out := by
  have htakes := f.ingest_takes frame
  rw [h] at htakes
  cases htakes with
  | refused e _ _ herror => cases herror
  | ack seq hframe heq =>
    cases heq
    exact .ack seq hframe
  | single hcomes hidle heq =>
    cases heq
    exact .single _ _ hcomes.framed hidle
  | first hcomes hidle heq =>
    obtain ⟨rfl, rfl⟩ := Framer.capped_ok heq.symm
    exact .first _ _ hcomes.framed hidle
  | middle hcomes hbusy heq =>
    obtain ⟨rfl, rfl⟩ := Framer.capped_ok heq.symm
    exact .middle _ _ hcomes.framed hbusy hcomes.expects
  | last hcomes hbusy heq =>
    obtain ⟨rfl, rfl⟩ := Framer.capped_ok heq.symm
    exact .last _ _ hcomes.framed hbusy hcomes.expects

/-! ## Passes without an error -/

theorem WithAcks.append {fs gs stream stream' : List Bytes} (h : WithAcks fs stream)
    (h' : WithAcks gs stream') : WithAcks (fs ++ gs) (stream ++ stream') := by
  induction h with
  | nil => exact h'
  | data _ ih => exact .data ih
  | ack _ ih => exact .ack ih

/-- A call that succeeds is a pass of the framer over what was buffered and the chunk. -/
theorem feeds_of_ingest {self next : InboundAssembler} {chunk : Bytes} {messages : List Bytes}
    (h : self.ingest chunk = (next, .ok messages)) :
    Passes self.framer (self.buffer ++ chunk) messages next.framer next.buffer := by
  have hcap : self.buffer.length + chunk.length ≤ defaultReassemblyCap := by
    by_contra hover
    unfold InboundAssembler.ingest at h
    simp only [List.length_append] at h
    rw [if_pos (by omega)] at h
    cases h
  rcases feeds_or_fails frameSlicer Framer.ingest 0 self.framer (self.buffer ++ chunk) with
    ⟨ms, f, r, hfeeds⟩ | ⟨ends, stop, e, hfails⟩
  · have hok := ingest_of_feeds hcap hfeeds
    rw [show (⟨self.buffer, self.framer⟩ : InboundAssembler) = self from rfl, h] at hok
    cases hok
    exact hfeeds
  · have herror := ingest_of_fails hcap hfails
    rw [show (⟨self.buffer, self.framer⟩ : InboundAssembler) = self from rfl, h] at herror
    cases herror

/-- A pass over units is one unit and a pass over the rest. -/
theorem feeds_cases (h : Passes f b ms g []) :
    (b = [] ∧ ms = [] ∧ g = f) ∨ ∃ frame rest next out ms', b = frame ++ rest ∧
      rest.length < b.length ∧ Taken f frame next out ∧ ms = out.toList ++ ms' ∧
      Passes next rest ms' g [] := by
  cases h with
  | stop hnone => exact .inl ⟨rfl, rfl, rfl⟩
  | @skip s s' s'' b frame rest r' ms hcut hstep hrest =>
    exact .inr ⟨frame, rest, s', none, ms, (frameSlicer_prompt.joins hcut).symm,
      frameSlicer.shrinks hcut, Framer.ingest_cases hstep, rfl, hrest⟩
  | @emit s s' s'' b frame rest r' m ms hcut hstep hrest =>
    exact .inr ⟨frame, rest, s', some m, ms, (frameSlicer_prompt.joins hcut).symm,
      frameSlicer.shrinks hcut, Framer.ingest_cases hstep, rfl, hrest⟩

/-- From the middle of a message: it is never finished, or its frames come next. -/
theorem tail_of_feeds (hbusy : f.progress = .assembling) (hseq : f.nextSeq = some seq)
    (h : Passes f b ms g []) :
    (ms = [] ∧ g.progress = .assembling) ∨
      ∃ payloads frames rest ms' next, payloads ≠ [] ∧ WithAcks (tailFrames seq payloads) frames ∧
        b = frames.flatten ++ rest ∧ ms = (f.buffer ++ payloads.flatten) :: ms' ∧
        next.progress = .idle ∧ Passes next rest ms' g [] := by
  -- by the length of what is to come; each frame makes it shorter
  induction hn : b.length using Nat.strongRecOn generalizing f b seq with
  | _ n ih =>
    rcases feeds_cases h with ⟨rfl, rfl, rfl⟩ |
      ⟨frame, rest, next, out, ms', rfl, hlt, htaken, rfl, hrest⟩
    · exact .inl ⟨rfl, hbusy⟩
    · rw [hn] at hlt
      cases htaken with
      | ack acked hframe =>
        rcases ih _ hlt hbusy hseq hrest rfl with hnever |
          ⟨payloads, frames, rest', ms'', next, hne, hacks, rfl, rfl, hidle, hrest'⟩
        · exact .inl hnever
        · refine .inr ⟨payloads, encodeAck acked :: frames, rest', ms'', next, hne, .ack hacks, ?_,
            rfl, hidle, hrest'⟩
          rw [hframe, List.flatten_cons, List.append_assoc]
      | single _ _ _ hidle => rw [hbusy] at hidle; cases hidle
      | first _ _ _ hidle => rw [hbusy] at hidle; cases hidle
      | middle seq' payload hframe _ hexpects =>
        obtain rfl : seq' = seq := by simpa [Expects, hseq, eq_comm] using hexpects
        have hstill : ({ f with nextSeq := some (seq' + 1), buffer := f.buffer ++ payload } :
            Framer).progress = .assembling := hbusy
        rcases ih _ hlt hstill rfl hrest rfl with hnever |
          ⟨payloads, frames, rest', ms'', next, hne, hacks, rfl, rfl, hidle, hrest'⟩
        · exact .inl hnever
        · refine .inr ⟨payload :: payloads, frameOf seq' 0 payload :: frames, rest', ms'', next,
            List.cons_ne_nil _ _, ?_, ?_, ?_, hidle, hrest'⟩
          · cases payloads with
            | nil => exact absurd rfl hne
            | cons q qs => exact .data hacks
          · rw [hframe, List.flatten_cons, List.append_assoc]
          · simp
      | last seq' payload hframe _ hexpects =>
        obtain rfl : seq' = seq := by simpa [Expects, hseq, eq_comm] using hexpects
        refine .inr ⟨[payload], [frame], rest, ms', _, List.cons_ne_nil _ _, ?_, ?_, ?_, rfl, hrest⟩
        · rw [hframe]
          exact .data .nil
        · simp
        · simp

/-- Between messages, a pass without a message that ends there is all acks. -/
theorem acks_of_feeds (hidle : f.progress = .idle) (h : Passes f b [] g [])
    (hend : g.progress = .idle) : ∃ frames, WithAcks [] frames ∧ b = frames.flatten := by
  induction hn : b.length using Nat.strongRecOn generalizing f b with
  | _ n ih =>
    rcases feeds_cases h with ⟨rfl, -, rfl⟩ |
      ⟨frame, rest, next, out, ms', rfl, hlt, htaken, hms, hrest⟩
    · exact ⟨[], .nil, rfl⟩
    · rw [hn] at hlt
      obtain ⟨hout, rfl⟩ := List.append_eq_nil_iff.mp hms.symm
      cases htaken with
      | ack acked hframe =>
        obtain ⟨frames, hacks, rfl⟩ := ih _ hlt hidle hrest rfl
        refine ⟨encodeAck acked :: frames, .ack hacks, ?_⟩
        rw [hframe, List.flatten_cons]
      | single _ _ _ _ => cases hout
      | first seq payload _ _ =>
        -- a message that is begun would have to come out
        rcases tail_of_feeds rfl rfl hrest with ⟨-, hbusy⟩ | ⟨_, _, _, _, _, _, _, _, hms, _⟩
        · rw [hend] at hbusy; cases hbusy
        · cases hms
      | middle _ _ _ hbusy _ => rw [hidle] at hbusy; cases hbusy
      | last _ _ _ hbusy _ => rw [hidle] at hbusy; cases hbusy

/-- **A pass that gives one message and ends between messages** went over the frames of
that message and acks. -/
theorem carriesOne_of_feeds {message : Bytes} (hidle : f.progress = .idle)
    (h : Passes f b [message] g []) (hend : g.progress = .idle) : CarriesOne b message := by
  induction hn : b.length using Nat.strongRecOn generalizing f b with
  | _ n ih =>
    rcases feeds_cases h with ⟨-, hms, -⟩ |
      ⟨frame, rest, next, out, ms', rfl, hlt, htaken, hms, hrest⟩
    · cases hms
    · rw [hn] at hlt
      cases htaken with
      | ack acked hframe =>
        obtain rfl : ms' = [message] := by simpa using hms.symm
        obtain ⟨seq, payloads, frames, hne, hmessage, hacks, rfl⟩ := ih _ hlt hidle hrest rfl
        refine ⟨seq, payloads, encodeAck acked :: frames, hne, hmessage, .ack hacks, ?_⟩
        rw [hframe, List.flatten_cons]
      | single seq payload hframe _ =>
        obtain ⟨rfl, rfl⟩ : payload = message ∧ ms' = [] := by simpa [eq_comm] using hms
        have hstill : ({ f with nextSeq := some (seq + 1) } : Framer).progress = .idle := hidle
        obtain ⟨frames, hacks, rfl⟩ := acks_of_feeds hstill hrest hend
        refine ⟨seq, [payload], frame :: frames, List.cons_ne_nil _ _, by simp, ?_, by simp⟩
        rw [hframe]
        exact .data hacks
      | first seq payload hframe _ =>
        obtain rfl : ms' = [message] := by simpa using hms.symm
        rcases tail_of_feeds rfl rfl hrest with ⟨hnone, -⟩ |
          ⟨payloads, frames, rest', ms'', next, hne, hacks, rfl, hms', hidle', hrest'⟩
        · cases hnone
        · obtain ⟨rfl, rfl⟩ : message = payload ++ payloads.flatten ∧ ms'' = [] := by
            simpa [eq_comm] using hms'
          obtain ⟨frames', hacks', rfl⟩ := acks_of_feeds hidle' hrest' hend
          refine ⟨seq, payload :: payloads, frame :: (frames ++ frames'), List.cons_ne_nil _ _,
            by simp, ?_, by simp⟩
          rw [hframe, ← List.append_nil (messageFrames seq (payload :: payloads))]
          cases payloads with
          | nil => exact absurd rfl hne
          | cons q qs => exact .data (hacks.append hacks')
      | middle _ _ _ hbusy _ => rw [hidle] at hbusy; cases hbusy
      | last _ _ _ hbusy _ => rw [hidle] at hbusy; cases hbusy

end Conveyance.Wire
