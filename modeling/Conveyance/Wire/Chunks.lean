import Conveyance.Lib.Chunking
import Conveyance.Wire.Framing

/-!
# Chunks (conveyance-wire, assembler.rs)

What the assembler makes of a stream, against how the link cuts it. The cutting
rule of its loop is a slicer (`frameSlicer`), so the loop is a pass of the framer
over the buffer: one that goes through (`drain_of_feeds`) or one that meets a
frame the framer refuses (`drain_of_fails`).
-/

namespace Conveyance.Wire

open Lib Lib.Chunking
open InboundAssembler (nextFrame drain)

/-! ## The cutting rule -/

/-- A 16-bit length never exceeds the reassembly cap. -/
theorem declared_le_cap (l₀ l₁ : UInt8) : ¬ (u16OfBe l₀ l₁).toNat > defaultReassemblyCap := by
  have h : (u16OfBe l₀ l₁).toNat < 65536 := (u16OfBe l₀ l₁).toNat_lt
  unfold defaultReassemblyCap
  omega

/-- The frame at the front of a buffer, if it is complete. -/
def cutFrame (buffer : Bytes) : Option (Bytes × Bytes) :=
  match buffer with
  | l₀ :: l₁ :: _ =>
    if buffer.length < headerLen + (u16OfBe l₀ l₁).toNat then none
    else some (buffer.take (headerLen + (u16OfBe l₀ l₁).toNat),
      buffer.drop (headerLen + (u16OfBe l₀ l₁).toNat))
  | _ => none

/-- The over-cap branch of the assembler's loop is never taken. -/
theorem nextFrame_eq (buffer : Bytes) : nextFrame buffer = .ok (cutFrame buffer) := by
  match buffer with
  | [] | [_] => rfl
  | l₀ :: l₁ :: tail =>
    simp only [nextFrame, cutFrame, declared_le_cap, if_false]
    split
    · next hshort => rw [if_pos (by omega)]
    · split <;> rfl

variable {b r c chunk : Bytes} {f f' : Framer} {ms messages : List Bytes} {i stop start : Nat}
  {ends : List (Nat × Bytes)} {e : FrameError} {self next : InboundAssembler}

/-- What a cut says about the buffer it was made from. -/
theorem cutFrame_some {f : Bytes} (h : cutFrame b = some (f, r)) :
    ∃ l₀ l₁ tail, b = l₀ :: l₁ :: tail ∧ headerLen + (u16OfBe l₀ l₁).toNat ≤ b.length ∧
      f = b.take (headerLen + (u16OfBe l₀ l₁).toNat) ∧
      r = b.drop (headerLen + (u16OfBe l₀ l₁).toNat) := by
  unfold cutFrame at h
  split at h
  · next l₀ l₁ tail =>
    split at h
    · cases h
    · simp only [Option.some.injEq, Prod.mk.injEq] at h
      exact ⟨l₀, l₁, tail, rfl, by omega, h.1.symm, h.2.symm⟩
  · cases h

/-- The assembler's cutting rule only looks at the frame it cuts. -/
def frameSlicer : Slicer UInt8 where
  cut := cutFrame
  shrinks := by
    intro b f r h
    obtain ⟨l₀, l₁, tail, rfl, hlen, -, rfl⟩ := cutFrame_some h
    simp only [List.length_drop, headerLen] at hlen ⊢
    omega
  stable := by
    intro b f r x h
    obtain ⟨l₀, l₁, tail, rfl, hlen, rfl, rfl⟩ := cutFrame_some h
    show cutFrame (l₀ :: l₁ :: (tail ++ x)) = _
    have hcons : l₀ :: l₁ :: (tail ++ x) = (l₀ :: l₁ :: tail) ++ x := rfl
    unfold cutFrame
    simp only [hcons]
    rw [if_neg (by rw [List.length_append]; omega), List.take_append_of_le_length hlen,
      List.drop_append_of_le_length hlen]

/-- An error-free pass of the framer over link bytes. -/
abbrev Passes := Feeds frameSlicer Framer.ingest

theorem frameSlicer_cut (b : Bytes) : frameSlicer.cut b = cutFrame b := rfl

theorem frameSlicer_prompt : frameSlicer.Prompt where
  joins := by
    intro b f r h
    obtain ⟨l₀, l₁, tail, -, -, rfl, rfl⟩ := cutFrame_some h
    exact List.take_append_drop _ _
  longer := by
    intro b x f r hnone h
    obtain ⟨l₀, l₁, tail, hb, hlen, rfl, -⟩ := cutFrame_some h
    by_contra hshort
    rw [List.length_take, Nat.min_eq_left hlen, Nat.not_lt] at hshort
    -- all of the frame is in `b`, its header first
    obtain _ | ⟨a, _ | ⟨a', b⟩⟩ := b
    · simp [headerLen] at hshort
    · simp only [headerLen, List.length_singleton] at hshort
      omega
    · rw [List.cons_append, List.cons_append] at hb
      obtain ⟨rfl, rfl, -⟩ : a = l₀ ∧ a' = l₁ ∧ b ++ x = tail := by simpa using hb
      rw [frameSlicer_cut, cutFrame, if_neg (Nat.not_lt_of_le hshort)] at hnone
      cases hnone

theorem nextFrame_of_cut {f : Bytes} (h : frameSlicer.cut b = some (f, r)) :
    nextFrame b = .ok (some (f, r)) := by
  rw [nextFrame_eq]
  exact congrArg _ h

/-- A round that takes a frame leaves enough rounds for the rest. -/
theorem rounds_of_cut {f : Bytes} {fuel : Nat} (h : frameSlicer.cut b = some (f, r))
    (hfuel : b.length ≤ fuel) : ∃ n, fuel = n + 1 ∧ r.length ≤ n := by
  have hlt := frameSlicer.shrinks h
  exact ⟨fuel - 1, by omega, by omega⟩

theorem drain_of_feeds (h : Passes f b ms f' r) :
    ∀ {fuel : Nat} (acc : List Bytes), b.length ≤ fuel →
      drain fuel ⟨b, f⟩ acc = (⟨r, f'⟩, .ok (acc ++ ms)) := by
  induction h with
  | @stop s b hnone =>
    intro fuel acc _
    cases fuel with
    | zero => rw [List.append_nil]; rfl
    | succ fuel =>
      have hnext : nextFrame b = .ok none := by
        rw [nextFrame_eq]; exact congrArg _ hnone
      simp only [drain, hnext, List.append_nil]
  | @skip s s' s'' b f r r' ms hcut hstep _ ih =>
    intro fuel acc hfuel
    obtain ⟨n, rfl, hn⟩ := rounds_of_cut hcut hfuel
    simp only [drain, nextFrame_of_cut hcut, hstep]
    exact ih acc hn
  | @emit s s' s'' b f r r' m ms hcut hstep _ ih =>
    intro fuel acc hfuel
    obtain ⟨n, rfl, hn⟩ := rounds_of_cut hcut hfuel
    simp only [drain, nextFrame_of_cut hcut, hstep]
    rw [ih (acc ++ [m]) hn, List.append_assoc]
    rfl

theorem drain_of_fails (h : Fails frameSlicer Framer.ingest i f b ends stop e) :
    ∀ {fuel : Nat} (acc : List Bytes), b.length ≤ fuel → (drain fuel ⟨b, f⟩ acc).2 = .error e := by
  induction h with
  | @fail i s s' b f r e hcut hstep =>
    intro fuel acc hfuel
    obtain ⟨n, rfl, -⟩ := rounds_of_cut hcut hfuel
    simp only [drain, nextFrame_of_cut hcut, hstep]
  | @skip i stop s s' b f r ends e hcut hstep _ ih =>
    intro fuel acc hfuel
    obtain ⟨n, rfl, hn⟩ := rounds_of_cut hcut hfuel
    simp only [drain, nextFrame_of_cut hcut, hstep]
    exact ih acc hn
  | @emit i stop s s' b f r m ends e hcut hstep _ ih =>
    intro fuel acc hfuel
    obtain ⟨n, rfl, hn⟩ := rounds_of_cut hcut hfuel
    simp only [drain, nextFrame_of_cut hcut, hstep]
    exact ih (acc ++ [m]) hn

/-! ## Chunked ingestion -/

namespace InboundAssembler

/-- Feed chunks one after another until one fails: the messages handed out, and the error or the
assembler that is left. -/
def feedAll (self : InboundAssembler) : List Bytes → List Bytes × Except FrameError InboundAssembler
  | [] => ([], .ok self)
  | chunk :: chunks =>
    match self.ingest chunk with
    | (_, .error e) => ([], .error e)
    | (next, .ok messages) => (messages ++ (next.feedAll chunks).1, (next.feedAll chunks).2)

/-- The buffer never grows past the cap while the chunks are fed. -/
def Fits : InboundAssembler → List Bytes → Prop
  | _, [] => True
  | self, chunk :: chunks =>
    self.buffer.length + chunk.length ≤ defaultReassemblyCap ∧
      ∀ next messages, self.ingest chunk = (next, .ok messages) → Fits next chunks

end InboundAssembler

theorem ingest_of_feeds (hcap : b.length + c.length ≤ defaultReassemblyCap)
    (h : Passes f (b ++ c) ms f' r) : (InboundAssembler.mk b f).ingest c = (⟨r, f'⟩, .ok ms) := by
  unfold InboundAssembler.ingest
  simp only [List.length_append]
  rw [if_neg (by omega), drain_of_feeds h [] (by simp)]
  rfl

theorem ingest_of_fails (hcap : b.length + c.length ≤ defaultReassemblyCap)
    (h : Fails frameSlicer Framer.ingest i f (b ++ c) ends stop e) :
    ((InboundAssembler.mk b f).ingest c).2 = .error e := by
  unfold InboundAssembler.ingest
  simp only [List.length_append]
  rw [if_neg (by omega)]
  exact drain_of_fails h [] (by simp)

theorem ingest_overflow (h : ¬ b.length + chunk.length ≤ defaultReassemblyCap) :
    ∃ e, ((InboundAssembler.mk b f).ingest chunk).2 = .error e := by
  unfold InboundAssembler.ingest
  simp only [List.length_append]
  rw [if_pos (by omega)]
  exact ⟨_, rfl⟩

theorem fits_cons_ok (hcap : self.buffer.length + chunk.length ≤ defaultReassemblyCap)
    (h : self.ingest chunk = (next, .ok messages)) (chunks : List Bytes) :
    self.Fits (chunk :: chunks) ↔ next.Fits chunks := by
  refine ⟨fun hfits => hfits.2 next messages h, fun hfits => ⟨hcap, fun next' _ h' => ?_⟩⟩
  cases h.symm.trans h'
  exact hfits

theorem feedAll_cons_ok (h : self.ingest chunk = (next, .ok messages)) (chunks : List Bytes) :
    self.feedAll (chunk :: chunks) =
      (messages ++ (next.feedAll chunks).1, (next.feedAll chunks).2) := by
  rw [InboundAssembler.feedAll, h]

/-- **Chunk boundaries are invisible to a stream without a fault.** Every way of cutting it that
respects the cap delivers the same messages in the same order. -/
theorem feedAll_of_feeds (chunks : List Bytes) (hcut : frameSlicer.cut b = none)
    (hfits : InboundAssembler.Fits ⟨b, f⟩ chunks) (h : Passes f (b ++ chunks.flatten) ms f' r) :
    (InboundAssembler.mk b f).feedAll chunks = (ms, .ok ⟨r, f'⟩) := by
  induction chunks generalizing b f ms with
  | nil =>
    rw [List.flatten_nil, List.append_nil] at h
    cases h with
    | stop _ => rfl
    | skip hsome _ _ => rw [hcut] at hsome; cases hsome
    | emit hsome _ _ => rw [hcut] at hsome; cases hsome
  | cons chunk chunks ih =>
    rw [List.flatten_cons, ← List.append_assoc] at h
    obtain ⟨ms₁, g, q, ms₂, h₁, h₂, rfl⟩ := h.split
    have hone := ingest_of_feeds hfits.1 h₁
    rw [feedAll_cons_ok hone, ih h₁.cut_rest (hfits.2 _ _ hone) h₂]

/-! ## Streams with a fault -/

/-- Where the chunk begins that brings the first `position` bytes to their end. -/
def chunkStart (position : Nat) : List Bytes → Nat
  | [] => 0
  | chunk :: chunks =>
    if position ≤ chunk.length then 0
    else chunk.length + chunkStart (position - chunk.length) chunks

/-- The messages complete by `start`. -/
def completeBy (start : Nat) (ends : List (Nat × Bytes)) : List Bytes :=
  (ends.filter fun x => x.1 ≤ start).map Prod.snd

theorem completeBy_append {ends₁ : List (Nat × Bytes)} (ends₂ : List (Nat × Bytes))
    (h : ∀ x ∈ ends₁, x.1 ≤ start) :
    completeBy start (ends₁ ++ ends₂) = ends₁.map Prod.snd ++ completeBy start ends₂ := by
  rw [completeBy, List.filter_append, List.map_append, List.filter_eq_self.mpr (by simpa using h)]
  rfl

theorem completeBy_nil (h : ∀ x ∈ ends, start < x.1) : completeBy start ends = [] := by
  rw [completeBy, List.filter_eq_nil_iff.mpr (by simpa using h), List.map_nil]

/-- **Of a stream with a fault** the messages complete before the chunk of the fault are
delivered, and then its error. -/
theorem feedAll_of_fails (chunks : List Bytes) (hcut : frameSlicer.cut b = none)
    (hfits : InboundAssembler.Fits ⟨b, f⟩ chunks)
    (h : Fails frameSlicer Framer.ingest i f (b ++ chunks.flatten) ends stop e) :
    (InboundAssembler.mk b f).feedAll chunks =
      (completeBy (i + b.length + chunkStart (stop - (i + b.length)) chunks) ends, .error e) := by
  induction chunks generalizing i b f ends with
  | nil =>
    -- nothing more comes, so no frame is ever complete
    obtain ⟨hstop, -⟩ := Fails.beyond frameSlicer_prompt hcut h
    have hwithin := Fails.within frameSlicer_prompt h
    rw [List.flatten_nil, List.append_nil] at hwithin
    omega
  | cons chunk chunks ih =>
    obtain ⟨hstop, hends⟩ := Fails.beyond frameSlicer_prompt hcut h
    rw [List.flatten_cons, ← List.append_assoc] at h
    rcases Fails.split frameSlicer_prompt h with h |
      ⟨ends₁, g, q, j, ends₂, h₁, hends₁, hj, h₂, rfl⟩
    · -- the fault is in this chunk, and with it everything that is lost
      have hwithin := Fails.within frameSlicer_prompt h
      rw [List.length_append] at hwithin
      have herror := ingest_of_fails hfits.1 h
      rw [chunkStart, if_pos (by omega), Nat.add_zero, completeBy_nil hends]
      rcases hingest : (InboundAssembler.mk b f).ingest chunk with ⟨next, out⟩
      rw [hingest] at herror
      obtain rfl : out = .error e := herror
      rw [InboundAssembler.feedAll, hingest]
    · have hone := ingest_of_feeds hfits.1 h₁
      obtain ⟨hlater, -⟩ := Fails.beyond frameSlicer_prompt h₁.cut_rest h₂
      rw [List.length_append] at hj hends₁
      have hstart : i + b.length + chunkStart (stop - (i + b.length)) (chunk :: chunks) =
          j + q.length + chunkStart (stop - (j + q.length)) chunks := by
        rw [chunkStart, if_neg (by omega),
          show stop - (i + b.length) - chunk.length = stop - (j + q.length) by omega]
        omega
      have hearly : ∀ x ∈ ends₁,
        x.1 ≤ j + q.length + chunkStart (stop - (j + q.length)) chunks := by
        intro x hx
        have hx := hends₁ x hx
        omega
      rw [feedAll_cons_ok hone, ih h₁.cut_rest (hfits.2 _ _ hone) h₂, hstart,
        completeBy_append ends₂ hearly]

/-! ## Two ways of cutting one stream -/

/-- Of two lists cut short, neither says anything else exactly if no entry tells them apart. -/
theorem completeBy_eq_iff {start' : Nat} :
    completeBy start ends = completeBy start' ends ↔ ∀ x ∈ ends, (x.1 ≤ start ↔ x.1 ≤ start') := by
  constructor
  · intro heq
    wlog hle : start ≤ start' generalizing start start'
    · exact fun x hx => (this heq.symm (Nat.le_of_not_le hle) x hx).symm
    -- one is part of the other, and as long
    have hsub : (ends.filter fun x => x.1 ≤ start).Sublist (ends.filter fun x => x.1 ≤ start') :=
      List.monotone_filter_right ends fun x hx =>
        decide_eq_true (Nat.le_trans (of_decide_eq_true hx) hle)
    have hlen := congrArg List.length heq
    rw [completeBy, completeBy, List.length_map, List.length_map] at hlen
    have hfilter := hsub.eq_of_length hlen
    intro x hx
    refine ⟨fun h => Nat.le_trans h hle, fun h => ?_⟩
    have hmem : x ∈ ends.filter fun x => x.1 ≤ start' :=
      List.mem_filter.mpr ⟨hx, decide_eq_true h⟩
    rw [← hfilter] at hmem
    exact of_decide_eq_true (List.mem_filter.mp hmem).2
  · intro h
    rw [completeBy, completeBy, List.filter_congr fun x hx => decide_eq_decide.mpr (h x hx)]

/-- The same messages, the same error if there is one, and otherwise idle or not alike. -/
structure SameDelivery (a b : List Bytes × Except FrameError InboundAssembler) : Prop where
  messages : a.1 = b.1
  outcome : a.2.map InboundAssembler.isIdle = b.2.map InboundAssembler.isIdle

/-- No message of the stream is complete at the beginning of one chunk of the fault and not yet at
the beginning of the other. -/
def NoMessageBetween (stream : Bytes) (chunks chunks' : List Bytes) : Prop :=
  ∀ ends stop e, Fails frameSlicer Framer.ingest 0 .new stream ends stop e →
    ∀ x ∈ ends, (x.1 ≤ chunkStart stop chunks ↔ x.1 ≤ chunkStart stop chunks')

/-- **What chunk boundaries decide.** However one stream is cut, a fresh assembler meets the same
error or none, and without one ends idle or not alike. It also delivers the same messages exactly
if the stream has no fault, or none of its messages is complete between the beginnings of the two
chunks in which the faulty frame ends. -/
theorem reassembly_under_two_cuts (stream : Bytes) (chunks chunks' : List Bytes)
    (hflat : chunks.flatten = stream) (hflat' : chunks'.flatten = stream)
    (hfits : InboundAssembler.new.Fits chunks) (hfits' : InboundAssembler.new.Fits chunks') :
    (InboundAssembler.new.feedAll chunks).2.map InboundAssembler.isIdle =
      (InboundAssembler.new.feedAll chunks').2.map InboundAssembler.isIdle ∧
    (SameDelivery (InboundAssembler.new.feedAll chunks) (InboundAssembler.new.feedAll chunks') ↔
      NoMessageBetween stream chunks chunks') := by
  subst hflat
  have hempty : frameSlicer.cut [] = none := rfl
  rcases feeds_or_fails frameSlicer Framer.ingest 0 Framer.new chunks.flatten with
    ⟨ms, f, r, h⟩ | ⟨ends, stop, e, h⟩
  · have hone : InboundAssembler.new.feedAll chunks = (ms, .ok ⟨r, f⟩) :=
      feedAll_of_feeds chunks hempty hfits h
    have htwo : InboundAssembler.new.feedAll chunks' = (ms, .ok ⟨r, f⟩) :=
      feedAll_of_feeds chunks' hempty hfits' (hflat' ▸ h)
    rw [hone, htwo]
    exact ⟨rfl, fun _ _ _ _ hfails => absurd hfails h.not_fails, fun _ => ⟨rfl, rfl⟩⟩
  · have hone := feedAll_of_fails chunks hempty hfits h
    have htwo := feedAll_of_fails chunks' hempty hfits' (hflat'.symm ▸ h)
    simp only [List.length_nil, Nat.zero_add, Nat.sub_zero] at hone htwo
    have hone : InboundAssembler.new.feedAll chunks =
      (completeBy (chunkStart stop chunks) ends, .error e) := hone
    have htwo : InboundAssembler.new.feedAll chunks' =
      (completeBy (chunkStart stop chunks') ends, .error e) := htwo
    rw [hone, htwo]
    refine ⟨rfl, fun hsame ends' stop' e' h' => ?_, fun hbetween => ⟨?_, rfl⟩⟩
    · obtain ⟨rfl, rfl, rfl⟩ := h.unique h'
      exact completeBy_eq_iff.mp hsame.messages
    · exact completeBy_eq_iff.mpr (hbetween ends stop e h)

/-- One message in a frame of its own, and a frame with a flag that does not exist. -/
def faultyStream : Bytes := [0, 1, 0, 0, 3, 0, 7] ++ [0, 0, 0, 1, 8, 0]

/-- In one chunk the message is lost to the error; cut behind the message, it is delivered. -/
theorem one_chunk_loses_message :
    InboundAssembler.new.feedAll [faultyStream] = ([], .error (.illegalFlags 8)) ∧
    InboundAssembler.new.feedAll [[0, 1, 0, 0, 3, 0, 7], [0, 0, 0, 1, 8, 0]] =
      ([[7]], .error (.illegalFlags 8)) ∧ InboundAssembler.new.Fits [faultyStream] ∧
    InboundAssembler.new.Fits [[0, 1, 0, 0, 3, 0, 7], [0, 0, 0, 1, 8, 0]] := by
  refine ⟨by decide, by decide, ⟨by decide, fun _ _ _ => trivial⟩, ?_⟩
  exact (fits_cons_ok (by decide) rfl _).mpr ⟨by decide, fun _ _ _ => trivial⟩

/-- Cut inside the message it is lost again, to the same error. -/
theorem same_loss_under_two_cuts :
    SameDelivery (InboundAssembler.new.feedAll [faultyStream])
      (InboundAssembler.new.feedAll [[0, 1, 0], [0, 3, 0, 7, 0, 0, 0, 1, 8, 0]]) := by
  have hfits : InboundAssembler.new.Fits [[0, 1, 0], [0, 3, 0, 7, 0, 0, 0, 1, 8, 0]] :=
    (fits_cons_ok (by decide) rfl _).mpr ⟨by decide, fun _ _ _ => trivial⟩
  have hfirst : frameSlicer.cut faultyStream =
      some ([0, 1, 0, 0, 3, 0, 7], [0, 0, 0, 1, 8, 0]) := rfl
  have hsecond : frameSlicer.cut [0, 0, 0, 1, 8, 0] = some ([0, 0, 0, 1, 8, 0], []) := rfl
  have hfails : Fails frameSlicer Framer.ingest 0 Framer.new faultyStream [(7, [7])] 13
      (.illegalFlags 8) := .emit hfirst rfl (.fail hsecond rfl)
  refine (reassembly_under_two_cuts faultyStream [faultyStream]
    [[0, 1, 0], [0, 3, 0, 7, 0, 0, 0, 1, 8, 0]] rfl rfl ⟨by decide, fun _ _ _ => trivial⟩
    hfits).2.mpr fun ends stop e h => ?_
  obtain ⟨rfl, rfl, rfl⟩ := hfails.unique h
  decide

end Conveyance.Wire
