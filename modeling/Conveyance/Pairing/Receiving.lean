import Conveyance.Pairing.Ceremony
import Conveyance.Wire.SingleMessage

/-!
# Receiving the confirm (conveyance-core, pairing/ceremony.rs)

What `receive_pairing_confirm` makes of an inbound stream, however the link cuts it.
Of a stream that begins with a complete message the loop tells so, unless the assembler fails
on the chunk in which the message ends: then it tells of the failure only.
-/

namespace Conveyance.Pairing

open Lib Lib.Chunking Wire

/-! ## What is returned -/

section Returned

variable {timeout : Nat} {closesAt : Option Nat}

variable {assembler : InboundAssembler} {message bytes : Bytes}

theorem settle_ok {confirm : Bytes} (h : settle assembler confirm = .ok message) :
    message = confirm ∧ assembler.buffer = [] ∧ assembler.framer.progress = .idle := by
  unfold settle at h
  split_ifs at h with hidle
  cases h
  simp only [InboundAssembler.isIdle, Framer.isIdle, Bool.decide_and, Bool.and_eq_true,
    decide_eq_true_eq] at hidle
  exact ⟨rfl, hidle.1, hidle.2.1⟩

/-- The bytes taken so far are a pass that gave the message at hand, if there is one. -/
theorem receiveLoop_ok (arrivals : List (Nat × Bytes)) {now drained : Nat} {confirm : Option Bytes}
    {got : Bytes}
    (hgot : Passes .new got confirm.toList assembler.framer assembler.buffer)
    (h : receiveLoop timeout closesAt arrivals now assembler confirm drained got =
      (bytes, .ok message)) : ∃ g, Passes .new bytes [message] g [] ∧ g.progress = .idle := by
  have hsettled : ∀ {assembler : InboundAssembler} {confirm got : Bytes},
      Passes .new got [confirm] assembler.framer assembler.buffer →
      (got, settle assembler confirm) = (bytes, .ok message) →
      ∃ g, Passes .new bytes [message] g [] ∧
        g.progress = .idle := by
    intro assembler confirm got hgot heq
    obtain ⟨rfl, hsettle⟩ := Prod.mk.inj heq
    obtain ⟨rfl, hbuffer, hidle⟩ := settle_ok hsettle
    rw [hbuffer] at hgot
    exact ⟨_, hgot, hidle⟩
  induction arrivals generalizing now assembler confirm drained got with
  | nil =>
    cases confirm with
    | none =>
      rw [receiveLoop] at h
      cases h
    | some confirm =>
      rw [receiveLoop] at h
      split_ifs at h
      · cases h
      · exact hsettled hgot h
  | cons arrival rest ih =>
    obtain ⟨arrival, chunk⟩ := arrival
    cases confirm with
    | none =>
      rw [receiveLoop] at h
      split_ifs at h
      · cases h
      · split at h
        next => cases h
        next next hingest => exact ih (hgot.append (feeds_of_ingest hingest)) h
        next next m hingest => exact ih (hgot.append (feeds_of_ingest hingest)) h
        next => cases h
    | some confirm =>
      rw [receiveLoop] at h
      split_ifs at h
      · exact hsettled hgot h
      · cases h
      · split at h
        next next hingest => exact ih (hgot.append (feeds_of_ingest hingest)) h
        next => cases h

/-- **A message that is returned came alone**, but for acks. -/
theorem receive_ok {inbound : Core.Inbound}
    (h : receivePairingConfirm inbound timeout = (bytes, .ok message)) :
    CarriesOne bytes message := by
  have hnothing : Passes .new [] [] .new [] :=
    .stop frameSlicer.cut_nil
  obtain ⟨g, hfeeds, hidle⟩ := receiveLoop_ok inbound.arrivals hnothing h
  exact carriesOne_of_feeds rfl hfeeds hidle

end Returned

/-! ## Whether the loop knows of a message -/

/-- The result tells of a complete message. -/
def Burns (received : Except ConfirmReceiveError Bytes) : Prop :=
  received ≠ .error .timedOut ∧ received ≠ .error .invalid

section Burning

variable {timeout : Nat} {closesAt : Option Nat}

theorem burns_settle (assembler : InboundAssembler) (confirm : Bytes) :
    Burns (settle assembler confirm) := by
  unfold settle Burns
  split_ifs <;> simp

/-- With a message at hand, the loop tells of it in every case. -/
theorem receiveLoop_some (arrivals : List (Nat × Bytes)) (now drained : Nat)
    (assembler : InboundAssembler) (confirm got : Bytes) :
    Burns (receiveLoop timeout closesAt arrivals now assembler (some confirm) drained got).2 := by
  have hafter : Burns (.error .invalidAfterMessage) := by simp [Burns]
  induction arrivals generalizing drained assembler got with
  | nil =>
    rw [receiveLoop]
    split_ifs
    · exact hafter
    · exact burns_settle assembler confirm
  | cons arrival rest ih =>
    obtain ⟨arrival, chunk⟩ := arrival
    rw [receiveLoop]
    split_ifs
    · exact burns_settle assembler confirm
    · exact hafter
    · split
      next next hingest => exact ih ..
      next => exact hafter

variable {arrival now drained : Nat} {chunk got b : Bytes} {rest : List (Nat × Bytes)}
  {assembler next : InboundAssembler} {f : Framer}

/-- A call that fails before any message is `Invalid`. -/
theorem receiveLoop_fails {e : FrameError} (htime : max now arrival ≤ timeout)
    (h : (assembler.ingest chunk).2 = .error e) :
    (receiveLoop timeout closesAt ((arrival, chunk) :: rest) now assembler none drained got).2 =
      .error .invalid := by
  rw [receiveLoop, if_neg (Nat.not_lt_of_le htime)]
  rcases hingest : assembler.ingest chunk with ⟨next, out⟩
  rw [hingest] at h
  obtain rfl : out = .error e := h
  rfl

theorem receiveLoop_nothing (htime : max now arrival ≤ timeout)
    (h : assembler.ingest chunk = (next, .ok [])) :
    receiveLoop timeout closesAt ((arrival, chunk) :: rest) now assembler none drained got =
      receiveLoop timeout closesAt rest (max now arrival) next none drained (got ++ chunk) := by
  rw [receiveLoop, if_neg (Nat.not_lt_of_le htime), h]

/-- However many messages the chunk completes, the loop tells of them. -/
theorem receiveLoop_message {m : Bytes} {ms : List Bytes} (htime : max now arrival ≤ timeout)
    (h : assembler.ingest chunk = (next, .ok (m :: ms))) :
    Burns (receiveLoop timeout closesAt ((arrival, chunk) :: rest) now assembler none drained
      got).2 := by
  rw [receiveLoop, if_neg (Nat.not_lt_of_le htime), h]
  cases ms with
  | nil => exact receiveLoop_some ..
  | cons m' ms => simp [Burns]

/-- Up to the end of the chunk, the buffer stays within the cap and no frame is refused. -/
def Smooth (b : Bytes) (f : Framer) (chunks : List Bytes) : Prop :=
  InboundAssembler.Fits ⟨b, f⟩ chunks ∧
    ∃ ms g r, Feeds frameSlicer Framer.ingest f (b ++ chunks.flatten) ms g r

theorem not_burns_invalid : ¬ Burns (.error .invalid) := fun h => h.2 rfl

/-- A chunk that goes through without a message does not matter. -/
theorem smooth_cons {r : Bytes} {g : Framer} {chunks : List Bytes}
    (hcap : b.length + chunk.length ≤ defaultReassemblyCap) (h : Passes f (b ++ chunk) [] g r) :
    Smooth b f (chunk :: chunks) ↔ Smooth r g chunks := by
  have hingest := ingest_of_feeds hcap h
  unfold Smooth
  rw [List.flatten_cons, ← List.append_assoc]
  constructor
  · rintro ⟨hfits, ms, f', r', hfeeds⟩
    obtain ⟨ms₁, t, q, ms₂, hfirst, hsecond, -⟩ := hfeeds.split
    obtain ⟨-, rfl, rfl⟩ := h.unique hfirst
    exact ⟨hfits.2 _ _ hingest, ms₂, f', r', hsecond⟩
  · rintro ⟨hfits, ms, f', r', hfeeds⟩
    exact ⟨(fits_cons_ok hcap hingest chunks).mpr hfits, _, f', r', h.append hfeeds⟩

/-- **Whether a complete message is noticed.** It ends in the chunk with number `k`, all
before the timeout. -/
theorem receiveLoop_burns (k : Nat) {arrivals : List (Nat × Bytes)} {head message : Bytes}
    (hcomplete : Completes frameSlicer Framer.ingest f head message)
    (hstream : head <+: b ++ (arrivals.map Prod.snd).flatten)
    (hbefore : b.length + ((arrivals.map Prod.snd).take k).flatten.length < head.length)
    (hends : head.length ≤ b.length + ((arrivals.map Prod.snd).take (k + 1)).flatten.length)
    (hnow : now ≤ timeout) (htime : ∀ a ∈ arrivals.take (k + 1), a.1 ≤ timeout) :
    Burns (receiveLoop timeout closesAt arrivals now ⟨b, f⟩ none drained got).2 ↔
      Smooth b f ((arrivals.map Prod.snd).take (k + 1)) := by
  induction arrivals generalizing k now drained b f head got with
  | nil => simp at hbefore hends; omega
  | cons a rest ih =>
    obtain ⟨arrival, chunk⟩ := a
    have harrival := htime (arrival, chunk) (by simp)
    have hmax : max now arrival ≤ timeout := Nat.max_le.mpr ⟨hnow, harrival⟩
    simp only [List.map_cons, List.take_succ_cons, List.flatten_cons, List.length_append]
      at hends hstream ⊢
    have hchunk : b ++ chunk <+: b ++ (chunk ++ (rest.map Prod.snd).flatten) := by
      rw [← List.append_assoc]
      exact List.prefix_append _ _
    by_cases hcap : b.length + chunk.length ≤ defaultReassemblyCap
    · cases k with
      | zero =>
        -- the message lies in what is buffered and this chunk
        obtain ⟨x, hx⟩ : head <+: b ++ chunk :=
          List.prefix_of_prefix_length_le hstream hchunk (by simpa using hends)
        rcases feeds_or_fails frameSlicer Framer.ingest 0 f (b ++ chunk) with
          ⟨ms, g, r, hfeeds⟩ | ⟨ends, stop, e, hfails⟩
        · obtain ⟨ms', rfl⟩ := hcomplete.leads (hx ▸ hfeeds)
          refine iff_of_true (receiveLoop_message hmax (ingest_of_feeds hcap hfeeds)) ?_
          exact ⟨⟨hcap, fun _ _ _ => trivial⟩, _, g, r, by simpa using hfeeds⟩
        · rw [receiveLoop_fails hmax (ingest_of_fails hcap hfails)]
          refine iff_of_false not_burns_invalid fun ⟨_, ms, g, r, hfeeds⟩ => ?_
          exact absurd hfails (by simpa using hfeeds : Feeds _ _ _ (b ++ chunk) _ _ _).not_fails
      | succ k =>
        -- the chunk ends before the message does
        simp only [List.map_cons, List.take_succ_cons, List.flatten_cons, List.length_append]
          at hbefore
        obtain ⟨tail, rfl⟩ : b ++ chunk <+: head :=
          List.prefix_of_prefix_length_le hchunk hstream (by rw [List.length_append]; omega)
        have htail : tail ≠ [] := by
          rintro rfl
          simp only [List.append_nil, List.length_append] at hbefore
          omega
        obtain ⟨g, r, hfeeds, hcomplete'⟩ := hcomplete.advance htail
        rw [receiveLoop_nothing hmax (ingest_of_feeds hcap hfeeds), smooth_cons hcap hfeeds]
        simp only [List.length_append] at hbefore hends
        refine ih k hcomplete' ?_ ?_ ?_ hmax fun a ha => htime a ?_
        · rw [List.append_assoc, List.prefix_append_right_inj,
            List.prefix_append_right_inj] at hstream
          rwa [List.prefix_append_right_inj]
        · rw [List.length_append]
          omega
        · rw [List.length_append]
          omega
        · rw [List.take_succ_cons]
          exact List.mem_cons_of_mem _ ha
    · obtain ⟨e, herror⟩ := ingest_overflow hcap
      rw [receiveLoop_fails hmax herror]
      exact iff_of_false not_burns_invalid fun h => hcap h.1.1

end Burning

end Conveyance.Pairing
