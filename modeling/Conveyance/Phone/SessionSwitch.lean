import Conveyance.Phone.Framing
import Conveyance.Phone.SessionStart
import Conveyance.Wire.SingleMessage

/-!
# From the handshake to the transport (android, session/PhoneSession.kt)

One assembler serves the handshake and the session behind it, but two loops take its
messages: `routeHandshaking` returns with the message that completes the handshake, and
`routeActive` takes all there are. So what becomes of a stream depends on where it is cut
into chunks.
-/

namespace Conveyance.Phone

open Lib Lib.Chunking PhoneSession
open Wire (Passes frameSlicer ingest_of_feeds ingest_overflow fits_cons_ok)

/-! ## The assembler of the session -/

/-- The session's view of `InboundAssembler`: its messages, or a framing error. -/
def Framing.InboundAssembler.messages (assembler : Framing.InboundAssembler) (bytes : Bytes) :
    Framing.InboundAssembler × Option (List Bytes) :=
  match assembler.ingest (octets bytes) with
  | (assembler, .ok messages) => (assembler, some (messages.map (·.map Int8.toUInt8)))
  | (assembler, .error _) => (assembler, none)

/-- The endpoint with the phone's framing for what comes in. -/
def Endpoint.withFraming (E : Endpoint) : Endpoint :=
  { E with
    Assembler := Framing.InboundAssembler
    assembler := .new
    ingest := Framing.InboundAssembler.messages }

theorem messages_ok {E : Endpoint} {w w' : Wire.InboundAssembler} {bytes : Bytes}
    {messages : List Bytes} (h : w.ingest bytes = (w', .ok messages)) :
    E.withFraming.ingest (.ofWire w) bytes = (.ofWire w', some messages) := by
  have hback : (messages.map octets).map (·.map Int8.toUInt8) = messages := by
    rw [List.map_map]
    exact (List.map_congr_left fun message _ => octets_map_toUInt8 message).trans (List.map_id _)
  show (Framing.InboundAssembler.ofWire w).messages bytes = _
  rw [Framing.InboundAssembler.messages, Framing.InboundAssembler.ingest_ofWire, h]
  show (Framing.InboundAssembler.ofWire w', some ((messages.map octets).map _)) = _
  rw [hback]
  rfl

theorem messages_error {E : Endpoint} {w : Wire.InboundAssembler} {bytes : Bytes}
    {e : Wire.FrameError} (h : (w.ingest bytes).2 = .error e) :
    ∃ assembler, E.withFraming.ingest (.ofWire w) bytes = (assembler, none) := by
  refine ⟨_, Prod.ext rfl ?_⟩
  show ((Framing.InboundAssembler.ofWire w).messages bytes).2 = none
  rw [Framing.InboundAssembler.messages, Framing.InboundAssembler.ingest_ofWire, h]
  rfl

/-! ## Chunks and offers -/

/-- How many plaintexts the collector is about to hand on. -/
def CollectorPc.pending : CollectorPc → Nat
  | .offering _ messages => messages.length + 1
  | _ => 0

namespace Host

variable {E : Endpoint}

/-- The channel takes what the collector offers. -/
def drain (h : Host E) : Host E := h.run (List.replicate h.collector.pending .offer)

/-- A chunk comes in, and the consumer keeps up. -/
def receive (h : Host E) (chunk : Bytes) : Host E := (h.step (.event (.chunk chunk))).drain

def receiveAll (h : Host E) (chunks : List Bytes) : Host E := chunks.foldl receive h

end Host

/-! ## Behind the switch -/

section Transport

/-- Ciphertexts that are good one after the other, and what is in them. -/
inductive Opens (E : Endpoint) : E.Noise → List Bytes → List Bytes → E.Noise → Prop where
  | nil {noise : E.Noise} : Opens E noise [] [] noise
  | cons {noise next last : E.Noise} {message plaintext : Bytes} {messages plaintexts : List Bytes}
    (hdecrypt : E.decrypt noise message = .ok (next, plaintext))
    (hrest : Opens E next messages plaintexts last) :
    Opens E noise (message :: messages) (plaintext :: plaintexts) last

variable {E : Endpoint} {h : Host E.withFraming} {noise last : E.withFraming.Noise}
  {w : Wire.InboundAssembler}

variable {messages plaintexts chunks ciphertexts : List Bytes} {s : PhoneSession E.withFraming}
  {next : E.withFraming.Noise} {message plaintext chunk r : Bytes} {f : Wire.Framer}

theorem Opens.length_eq (h : Opens E.withFraming noise messages plaintexts last) :
    plaintexts.length = messages.length := by
  induction h with
  | nil => rfl
  | cons _ _ ih => exact congrArg (· + 1) ih

theorem Opens.unique {opened : List Bytes} {end' : E.withFraming.Noise}
    (h : Opens E.withFraming noise messages plaintexts last)
    (h' : Opens E.withFraming noise messages opened end') : plaintexts = opened ∧ last = end' := by
  induction h generalizing opened with
  | nil =>
    cases h'
    exact ⟨rfl, rfl⟩
  | cons hdecrypt _ ih =>
    cases h' with
    | cons hdecrypt' hrest =>
      obtain ⟨rfl, rfl⟩ := Prod.mk.inj (Except.ok.inj (hdecrypt.symm.trans hdecrypt'))
      obtain ⟨rfl, rfl⟩ := ih hrest
      exact ⟨rfl, rfl⟩

theorem Opens.append_inv {first rest : List Bytes}
    (h : Opens E.withFraming noise (first ++ rest) plaintexts last) :
    ∃ mid p q, Opens E.withFraming noise first p mid ∧ Opens E.withFraming mid rest q last ∧
      plaintexts = p ++ q := by
  induction first generalizing noise plaintexts with
  | nil => exact ⟨noise, [], plaintexts, .nil, h, rfl⟩
  | cons message first ih =>
    cases h with
    | cons hdecrypt hrest =>
      obtain ⟨mid, p, q, hp, hq, rfl⟩ := ih hrest
      exact ⟨mid, _, q, .cons hdecrypt hp, hq, rfl⟩

/-- An ACTIVE session, with its Noise session and what its assembler holds. -/
structure Flowing (s : PhoneSession E.withFraming) (noise : E.withFraming.Noise)
    (w : Wire.InboundAssembler) :
    Prop where
  active : s.state = .active
  noise : s.noise = some noise
  assembler : s.assembler = .ofWire w
  scope : s.scopeActive = true
  channel : s.inboundClosed = false

/-- Its collector waits for the next chunk. -/
structure Transporting (h : Host E.withFraming) (noise : E.withFraming.Noise)
    (w : Wire.InboundAssembler) :
    Prop where
  flowing : Flowing h.session noise w
  collecting : h.collector = .collecting

/-- A session that is over: its scope is cancelled, and nothing wakes its collector. -/
structure Spent (h : Host E.withFraming) : Prop where
  scope : h.session.scopeActive = false
  collecting : h.collector = .collecting

theorem drain_collecting (hcollecting : h.collector = .collecting) : h.drain = h := by
  rw [Host.drain, hcollecting]
  rfl

theorem Spent.receive (hspent : Spent h) (chunk : Bytes) : h.receive chunk = h := by
  have hidle : ¬ (h.collector = .collecting ∧ h.session.scopeActive = true) := by
    rw [hspent.scope]
    exact fun hand => Bool.false_ne_true hand.2
  have hstep : h.step (.event (.chunk chunk)) = h := if_neg hidle
  rw [Host.receive, hstep]
  exact drain_collecting hspent.collecting

theorem Spent.receiveAll (hspent : Spent h) (chunks : List Bytes) : h.receiveAll chunks = h := by
  induction chunks with
  | nil => rfl
  | cons chunk chunks ih =>
    show (h.receive chunk).receiveAll chunks = h
    rw [hspent.receive]
    exact ih

/-- A good ciphertext is handed on. -/
theorem Flowing.decrypt (hs : Flowing s noise w)
    (hdecrypt : E.withFraming.decrypt noise message = .ok (next, plaintext))
    (messages : List Bytes) :
    ∃ s', s.decryptNext (message :: messages) = (s', some (plaintext, messages)) ∧
      Flowing s' next w := by
  have hactivity : ∀ s' : PhoneSession E.withFraming, s'.state = .active →
      s'.recordActivity = { s' with state := .active, history := s'.history ++ [.active] } := by
    intro s' hstate
    rw [recordActivity, applyEvent, hstate]
    rfl
  unfold decryptNext
  rw [hs.noise]
  dsimp only
  rw [hdecrypt]
  dsimp only
  have hopened := hactivity ({ s with noise := some next }.emit [.decrypting message]) hs.active
  rw [hopened]
  exact ⟨_, rfl, rfl, rfl, hs.assembler, hs.scope, hs.channel⟩

theorem endFor_scope (hstate : s.state = .active) (reason : Core.EndReason) :
    (s.endFor reason).scopeActive = false := by
  unfold endFor terminate applyEvent
  rw [hstate]
  rfl

/-- A bad one ends the session. -/
theorem Flowing.decrypt_error (hs : Flowing s noise w) {e : SessionException}
    (hdecrypt : E.withFraming.decrypt noise message = .error e) (messages : List Bytes) :
    ∃ s', s.decryptNext (message :: messages) = (s', none) ∧ s'.scopeActive = false := by
  unfold decryptNext
  rw [hs.noise]
  dsimp only
  rw [hdecrypt]
  have hstate : (s.emit [.decrypting message]).state = .active := hs.active
  exact ⟨_, rfl, endFor_scope hstate .protocolViolation⟩

/-- The offer of a plaintext goes on with the messages behind it. -/
theorem step_offer (hcollector : h.collector = .offering plaintext messages)
    (hs : Flowing h.session noise w) :
    h.step .offer =
      { h with inbound := h.inbound ++ [plaintext] }.deliver (h.session.decryptNext messages) := by
  unfold Host.step
  rw [hcollector]
  rw [hs.scope, hs.channel]
  rfl

/-- Behind a good ciphertext the collector offers its plaintext, and the first offer goes on
with the ciphertexts behind it. -/
theorem Flowing.offers (hs : Flowing h.session noise w)
    (hdecrypt : E.withFraming.decrypt noise message = .ok (next, plaintext))
    (messages : List Bytes) :
    ∃ handed : Host E.withFraming, Flowing handed.session next w ∧
      handed.inbound = h.inbound ++ [plaintext] ∧
      (h.deliver (h.session.decryptNext (message :: messages))).collector.pending =
        messages.length + 1 ∧
      ∀ n, (h.deliver (h.session.decryptNext (message :: messages))).run
          (List.replicate (n + 1) .offer) =
        (handed.deliver (handed.session.decryptNext messages)).run (List.replicate n .offer) := by
  obtain ⟨s', hnext, hs'⟩ := hs.decrypt hdecrypt messages
  rw [hnext]
  let offering : Host E.withFraming :=
    { h with session := s', collector := .offering plaintext messages }
  let handed : Host E.withFraming := { offering with inbound := h.inbound ++ [plaintext] }
  have hoffer : offering.step .offer = handed.deliver (handed.session.decryptNext messages) :=
    step_offer rfl hs'
  refine ⟨handed, hs', rfl, rfl, fun n => ?_⟩
  show (offering.step .offer).run (List.replicate n .offer) = _
  rw [hoffer]

theorem run_offers_collecting (hcollecting : h.collector = .collecting) (n : Nat) :
    h.run (List.replicate n .offer) = h := by
  have hstep : h.step .offer = h := by
    unfold Host.step
    rw [hcollecting]
  induction n with
  | zero => rfl
  | succ n ih =>
    show (h.step .offer).run (List.replicate n .offer) = h
    rw [hstep]
    exact ih

theorem pending_deliver (hs : Flowing h.session noise w) (messages : List Bytes) :
    (h.deliver (h.session.decryptNext messages)).collector.pending ≤ messages.length := by
  cases messages with
  | nil => exact Nat.le_refl 0
  | cons message messages =>
    cases hdecrypt : E.withFraming.decrypt noise message with
    | error e =>
      obtain ⟨s', hnext, -⟩ := hs.decrypt_error hdecrypt messages
      rw [hnext]
      exact Nat.zero_le _
    | ok opened =>
      obtain ⟨-, -, -, hoffered, -⟩ := hs.offers hdecrypt messages
      exact Nat.le_of_eq hoffered

/-- The ciphertexts are opened and handed on in turn, up to one that is bad. -/
def Drained (h h' : Host E.withFraming) (noise : E.withFraming.Noise) (w : Wire.InboundAssembler)
    (messages : List Bytes) : Prop :=
  ∃ opened, h'.inbound = h.inbound ++ opened ∧ opened.length ≤ messages.length ∧
    ((∃ last, Opens E.withFraming noise messages opened last ∧ Transporting h' last w) ∨
      Spent h' ∧ ∀ plaintexts last, ¬ Opens E.withFraming noise messages plaintexts last)

theorem deliver_drained (messages : List Bytes) (hs : Flowing h.session noise w) (n : Nat)
    (hn : (h.deliver (h.session.decryptNext messages)).collector.pending ≤ n) :
    Drained h ((h.deliver (h.session.decryptNext messages)).run (List.replicate n .offer)) noise w
      messages := by
  -- by induction on the ciphertexts: each offer decrypts the next one
  induction messages generalizing h noise n with
  | nil =>
    rw [run_offers_collecting rfl]
    exact ⟨[], (List.append_nil _).symm, Nat.le_refl 0, .inl ⟨noise, .nil, hs, rfl⟩⟩
  | cons message messages ih =>
    cases hdecrypt : E.withFraming.decrypt noise message with
    | error e =>
      obtain ⟨s', hnext, hscope⟩ := hs.decrypt_error hdecrypt messages
      rw [hnext, run_offers_collecting rfl]
      refine ⟨[], (List.append_nil _).symm, Nat.zero_le _, .inr ⟨⟨hscope, rfl⟩, ?_⟩⟩
      intro plaintexts last hopens
      cases hopens with
      | cons hopened => cases hdecrypt.symm.trans hopened
    | ok opened =>
      obtain ⟨handed, hflows, hgrown, hoffered, hrun⟩ := hs.offers hdecrypt messages
      rw [hoffered] at hn
      obtain ⟨n, rfl⟩ : ∃ n', n = n' + 1 := ⟨n - 1, by omega⟩
      have hpending := (pending_deliver hflows messages).trans (Nat.le_of_succ_le_succ hn)
      obtain ⟨later, hinbound, hlength, hrest⟩ := ih hflows n hpending
      rw [hrun]
      refine ⟨opened.2 :: later, ?_, Nat.succ_le_succ hlength, hrest.imp ?_ ?_⟩
      · rw [hinbound, hgrown, List.append_assoc]
        rfl
      · rintro ⟨last, hopens, htransporting⟩
        exact ⟨last, .cons hdecrypt hopens, htransporting⟩
      · rintro ⟨hspent, hbad⟩
        refine ⟨hspent, fun plaintexts last hopens => ?_⟩
        cases hopens with
        | cons hopened hlater =>
          cases hdecrypt.symm.trans hopened
          exact hbad _ _ hlater

theorem step_event (hcollecting : h.collector = .collecting)
    (hscope : h.session.scopeActive = true) (event : LinkEvent) :
    h.step (.event event) = h.route event :=
  if_pos ⟨hcollecting, hscope⟩

section

variable (hh : Transporting h noise w)

include hh

theorem Transporting.step_event (chunk : Bytes) :
    h.step (.event (.chunk chunk)) = h.deliver (h.session.routeActive (.chunk chunk)) := by
  have hlive : isLive h.session.state = true := by
    rw [hh.flowing.active]
    rfl
  rw [Phone.step_event hh.collecting hh.flowing.scope, Host.route,
    if_neg (isLive_ne hlive).2.1, if_pos hlive]

/-- The messages of a chunk are taken in turn. -/
theorem Transporting.receive (hcap : w.buffer.length + chunk.length ≤ Wire.defaultReassemblyCap)
    (hfeeds : Passes w.framer (w.buffer ++ chunk) messages f r) :
    Drained h (h.receive chunk) noise ⟨r, f⟩ messages := by
  let kept : PhoneSession E.withFraming := { h.session with assembler := .ofWire ⟨r, f⟩ }
  have hflows : Flowing kept noise ⟨r, f⟩ := { hh.flowing with assembler := rfl }
  rw [Host.receive, hh.step_event, routeActive, hh.flowing.assembler,
    messages_ok (ingest_of_feeds hcap hfeeds)]
  exact deliver_drained (h := { h with session := kept }) messages hflows _ (Nat.le_refl _)

theorem Transporting.receive_error {e : Wire.FrameError} (hingest : (w.ingest chunk).2 = .error e) :
    Spent (h.receive chunk) ∧ (h.receive chunk).session.state = .ended ∧
      (h.receive chunk).inbound = h.inbound := by
  obtain ⟨assembler, hmessages⟩ := messages_error hingest
  have hstate : ({ h.session with assembler } : PhoneSession E.withFraming).state = .active :=
    hh.flowing.active
  have hreceive : h.receive chunk = { h with
      session := { h.session with assembler }.endFor .protocolViolation
      collector := .collecting } := by
    rw [Host.receive, hh.step_event, routeActive, hh.flowing.assembler, hmessages]
    exact drain_collecting rfl
  rw [hreceive]
  exact ⟨⟨endFor_scope hstate _, rfl⟩, endFor_live (by rw [hstate]; rfl) _, rfl⟩

/-- A stream of good ciphertexts on a session that flows: where the buffer keeps within its
cap, all of it is handed on; where it does not, the session ends. -/
theorem Transporting.receiveAll (hcut : frameSlicer.cut w.buffer = none)
    (hfeeds : Passes w.framer (w.buffer ++ chunks.flatten) ciphertexts
      f r) (hopens : Opens E.withFraming noise ciphertexts plaintexts last) :
    (w.Fits chunks →
      (h.receiveAll chunks).session.state = .active ∧
        (h.receiveAll chunks).inbound = h.inbound ++ plaintexts) ∧
      (¬ w.Fits chunks → (h.receiveAll chunks).session.state ≠ .active) := by
  induction chunks generalizing h noise w ciphertexts plaintexts with
  | nil =>
    rw [List.flatten_nil, List.append_nil] at hfeeds
    obtain ⟨rfl, -, -⟩ := hfeeds.unique (.stop hcut)
    cases hopens
    refine ⟨fun _ => ?_, fun hover => absurd trivial hover⟩
    exact ⟨hh.flowing.active, (List.append_nil _).symm⟩
  | cons chunk chunks ih =>
    show (w.Fits (chunk :: chunks) →
        ((h.receive chunk).receiveAll chunks).session.state = .active ∧
          ((h.receive chunk).receiveAll chunks).inbound = h.inbound ++ plaintexts) ∧
      (¬ w.Fits (chunk :: chunks) →
        ((h.receive chunk).receiveAll chunks).session.state ≠ .active)
    by_cases hcap : w.buffer.length + chunk.length ≤ Wire.defaultReassemblyCap
    · rw [List.flatten_cons, ← List.append_assoc] at hfeeds
      obtain ⟨now, f', r', later, hnow, hlater, rfl⟩ := hfeeds.split
      obtain ⟨mid, p, q, hp, hq, rfl⟩ := hopens.append_inv
      obtain ⟨opened, hinbound, -, ⟨mid', hopened, htransporting⟩ | ⟨-, hbad⟩⟩ :=
        hh.receive hcap hnow
      · obtain ⟨rfl, rfl⟩ := hopened.unique hp
        rw [fits_cons_ok hcap (ingest_of_feeds hcap hnow), ← List.append_assoc, ← hinbound]
        exact ih htransporting hnow.cut_rest hlater hq
      · exact absurd hp (hbad p mid)
    · -- the chunk does not fit
      obtain ⟨e, herror⟩ := ingest_overflow hcap
      obtain ⟨hspent, hended, -⟩ := hh.receive_error herror
      rw [hspent.receiveAll, hended]
      refine ⟨fun hfits => absurd hfits.1 hcap, fun _ => ?_⟩
      decide

end

/-- Of any stream no more plaintexts are handed on than there are messages in it. -/
theorem receiveAll_bounded (hh : Spent h ∨ ∃ noise, Transporting h noise w)
    (hcut : frameSlicer.cut w.buffer = none)
    (hfeeds : Passes w.framer (w.buffer ++ chunks.flatten) ciphertexts
      f r) : (h.receiveAll chunks).inbound.length ≤ h.inbound.length + ciphertexts.length := by
  induction chunks generalizing h w ciphertexts with
  | nil => exact Nat.le_add_right _ _
  | cons chunk chunks ih =>
    rcases hh with hspent | ⟨noise, hh⟩
    · rw [hspent.receiveAll]
      exact Nat.le_add_right _ _
    · show ((h.receive chunk).receiveAll chunks).inbound.length ≤ _
      by_cases hcap : w.buffer.length + chunk.length ≤ Wire.defaultReassemblyCap
      · rw [List.flatten_cons, ← List.append_assoc] at hfeeds
        obtain ⟨now, f', r', later, hnow, hlater, rfl⟩ := hfeeds.split
        obtain ⟨opened, hinbound, hlength, hnext⟩ := hh.receive hcap hnow
        have hrest := ih (hnext.symm.imp And.left fun hopens => hopens.imp fun _ => And.right)
          hnow.cut_rest hlater
        rw [hinbound] at hrest
        simp only [List.length_append] at hrest ⊢
        omega
      · obtain ⟨e, herror⟩ := ingest_overflow hcap
        obtain ⟨hspent, -, hkept⟩ := hh.receive_error herror
        rw [hspent.receiveAll, hkept]
        exact Nat.le_add_right _ _

end Transport

/-! ## The switch -/

section Switch

variable {E : Endpoint} {h : Host E.withFraming} {noise noise' last : E.withFraming.Noise}
  {w : Wire.InboundAssembler}

/-- A session that waits for message 2. -/
structure Listening (h : Host E.withFraming) (noise : E.withFraming.Noise)
    (w : Wire.InboundAssembler) : Prop where
  handshaking : h.session.state = .handshaking
  noise : h.session.noise = some noise
  assembler : h.session.assembler = .ofWire w
  decision : h.session.decision = .pending
  intact : h.session.handshakeTornDown = false
  scope : h.session.scopeActive = true
  channel : h.session.inboundClosed = false
  collecting : h.collector = .collecting

variable {message bytes chunk r : Bytes} {s : PhoneSession E.withFraming}
  {assembler : E.withFraming.Assembler} {w' : Wire.InboundAssembler} {dropped chunks : List Bytes}
  {f : Wire.Framer}

/-- `start` gets there with the write of message 1: the collector is up before it. -/
theorem listening_start (maxWriteLen : Nat) {fresh : E.withFraming.Noise}
    (hinitiate : E.withFraming.initiate = .ok fresh)
    (hwrite : E.withFraming.writeHandshakeMessage fresh = .ok (noise, message)) :
    Listening ((Host.new E.withFraming).run [.call, .enter maxWriteLen]) noise .new := by
  have hentered : (Host.new E.withFraming).run [.call, .enter maxWriteLen] =
      Host.enter { Host.new E.withFraming with start := .entering } maxWriteLen := rfl
  rw [hentered, Host.enter, hinitiate]
  dsimp only
  rw [hwrite]
  dsimp only
  -- whatever comes of the split
  rcases E.withFraming.split message maxWriteLen _ with _ | ⟨_ | _, _⟩ <;>
    exact ⟨rfl, rfl, rfl, rfl, rfl, rfl, rfl, rfl⟩

/-- A chunk for a session that listens. -/
theorem Listening.receive_eq (hh : Listening h noise w)
    (hroute : h.session.routeHandshaking (.chunk chunk) = .ok s) :
    h.receive chunk = { h with session := s } := by
  rw [Host.receive, step_event hh.collecting hh.scope, Host.route, if_pos hh.handshaking, hroute]
  exact drain_collecting hh.collecting

theorem abort_handshaking (hstate : s.state = .handshaking) (hintact : s.handshakeTornDown = false)
    (cause : SessionException) :
    ∃ s', s.abortHandshake cause = .ok s' ∧ s'.scopeActive = false ∧ s'.state = .noSession := by
  refine ⟨s.aborted cause, if_pos (.inl hstate), ?_,
    congrArg SessionCore.state (core_aborted (.inl hstate) cause)⟩
  have hkept : ((s.claim.applyEvent .aborted).1.complete (.error cause)).handshakeTornDown =
      false := by
    unfold complete applyEvent claim
    split_ifs <;> split <;> exact hintact
  unfold aborted tearDownHandshake
  rw [hkept]
  rfl

section

variable (hh : Listening h noise w)

include hh

theorem Listening.receive_error {e : Wire.FrameError} (hingest : (w.ingest chunk).2 = .error e) :
    Spent (h.receive chunk) ∧ (h.receive chunk).session.state = .noSession := by
  obtain ⟨assembler, hmessages⟩ := messages_error hingest
  have hstate : ({ h.session with assembler } : PhoneSession E.withFraming).state = .handshaking :=
    hh.handshaking
  obtain ⟨s', habort, hscope, hgone⟩ := abort_handshaking hstate hh.intact .handshakeFailed
  have hroute : h.session.routeHandshaking (.chunk chunk) = .ok s' := by
    simpa only [routeHandshaking, hh.noise, hh.assembler, hmessages] using habort
  rw [hh.receive_eq hroute]
  exact ⟨⟨hscope, hh.collecting⟩, hgone⟩

/-- The messages of a chunk are read in turn. -/
theorem Listening.route_messages {messages : List Bytes}
    (hingest : w.ingest chunk = (w', .ok messages)) :
    h.session.routeHandshaking (.chunk chunk) =
      { h.session with assembler := .ofWire w' }.readMessages noise messages := by
  simp only [routeHandshaking, hh.noise, hh.assembler, messages_ok hingest]

/-- Before message 2 is complete the session goes on listening. -/
theorem Listening.receive_nothing (hingest : w.ingest chunk = (w', .ok [])) :
    Listening (h.receive chunk) noise w' ∧ (h.receive chunk).inbound = h.inbound := by
  rw [hh.receive_eq (hh.route_messages hingest)]
  exact ⟨{ hh with assembler := rfl }, rfl⟩

/-- With message 2 the session is ACTIVE, and what the chunk completes behind it is gone. -/
theorem Listening.receive_message
    (hread : E.withFraming.readHandshakeMessage noise message = .ok noise')
    (hcomplete : E.withFraming.isHandshakeComplete noise' = true)
    (hingest : w.ingest chunk = (w', .ok (message :: dropped))) :
    Transporting (h.receive chunk) noise' w' ∧ (h.receive chunk).inbound = h.inbound := by
  let read : PhoneSession E.withFraming :=
    { h.session with assembler := .ofWire w', noise := some noise' }
  have hroute : h.session.routeHandshaking (.chunk chunk) = .ok read.promotion := by
    rw [hh.route_messages hingest, readMessages, hread]
    dsimp only
    rw [if_pos hcomplete, promote, if_neg (not_not_intro hh.decision)]
    rfl
  have hflows : Flowing read.promotion noise' w' := by
    rw [promotion_eq (s := read) hh.handshaking, complete]
    split_ifs <;> exact ⟨rfl, rfl, rfl, hh.scope, hh.channel⟩
  rw [hh.receive_eq hroute]
  exact ⟨⟨hflows, hh.collecting⟩, rfl⟩

end

/-- Some chunk ends behind the message and before the next message does: with it, the
message is all that the stream has completed. -/
def Separates (w : Wire.InboundAssembler) (chunks : List Bytes) (message : Bytes) : Prop :=
  ∃ k f r, Feeds frameSlicer Wire.Framer.ingest w.framer (w.buffer ++ (chunks.take k).flatten)
    [message] f r

/-- The chunk that separates the message is the first one or a later one, and the first one
completes a part of what the stream has completed by then. -/
theorem Separates.first {now : List Bytes} (h : Separates w (chunk :: chunks) message)
    (hcut : frameSlicer.cut w.buffer = none) (hnow : Passes w.framer (w.buffer ++ chunk) now f r) :
    ∃ k later g q, Passes f (r ++ (chunks.take k).flatten) later g q ∧
      [message] = now ++ later := by
  obtain ⟨k, g, q, hfeeds⟩ := h
  cases k with
  | zero =>
    -- the buffer alone completes nothing
    rw [List.take_zero, List.flatten_nil, List.append_nil] at hfeeds
    obtain ⟨hnone, -, -⟩ := hfeeds.unique (.stop hcut)
    cases hnone
  | succ k =>
    rw [List.take_succ_cons, List.flatten_cons, ← List.append_assoc] at hfeeds
    obtain ⟨before, f', r', later, hbefore, hlater, hsplit⟩ := hfeeds.split
    obtain ⟨rfl, rfl, rfl⟩ := hbefore.unique hnow
    exact ⟨k, later, g, q, hlater, hsplit⟩

/-- A chunk that completes nothing does not matter. -/
theorem separates_cons (hcut : frameSlicer.cut w.buffer = none)
    (hnow : Passes w.framer (w.buffer ++ chunk) [] f r) :
    Separates w (chunk :: chunks) message ↔ Separates ⟨r, f⟩ chunks message := by
  constructor
  · intro h
    obtain ⟨k, later, g, q, hlater, hsplit⟩ := h.first hcut hnow
    rw [List.nil_append] at hsplit
    subst hsplit
    exact ⟨k, g, q, hlater⟩
  · rintro ⟨k, g, q, hfeeds⟩
    refine ⟨k + 1, g, q, ?_⟩
    rw [List.take_succ_cons, List.flatten_cons, ← List.append_assoc]
    exact hnow.append hfeeds

/-- A chunk that completes the message alone separates it, one that completes more does
not. -/
theorem separates_message (hcut : frameSlicer.cut w.buffer = none)
    (hnow : Passes w.framer (w.buffer ++ chunk) (message :: dropped)
      f r) : Separates w (chunk :: chunks) message ↔ dropped = [] := by
  constructor
  · intro h
    obtain ⟨-, later, -, -, -, hsplit⟩ := h.first hcut hnow
    exact (List.append_eq_nil_iff.mp (List.cons.inj hsplit).2.symm).1
  · rintro rfl
    refine ⟨1, f, r, ?_⟩
    rw [List.take_succ_cons, List.take_zero, List.flatten_cons, List.flatten_nil, List.append_nil]
    exact hnow

/-- A good stream on a session that listens. -/
theorem Listening.receiveAll (hh : Listening h noise w) {ciphertexts plaintexts : List Bytes}
    (hcut : frameSlicer.cut w.buffer = none)
    (hfeeds : Passes w.framer (w.buffer ++ chunks.flatten) (message :: ciphertexts) f r)
    (hread : E.withFraming.readHandshakeMessage noise message = .ok noise')
    (hcomplete : E.withFraming.isHandshakeComplete noise' = true)
    (hopens : Opens E.withFraming noise' ciphertexts plaintexts last) :
    ((h.receiveAll chunks).session.state = .active ∧
        (h.receiveAll chunks).inbound = h.inbound ++ plaintexts) ↔
      w.Fits chunks ∧ Separates w chunks message := by
  -- by induction on the chunks up to the one that completes message 2
  induction chunks generalizing h w with
  | nil =>
    rw [List.flatten_nil, List.append_nil] at hfeeds
    obtain ⟨hnone, -, -⟩ := hfeeds.unique (.stop hcut)
    cases hnone
  | cons chunk chunks ih =>
    show (((h.receive chunk).receiveAll chunks).session.state = .active ∧
      ((h.receive chunk).receiveAll chunks).inbound = h.inbound ++ plaintexts) ↔ _
    by_cases hcap : w.buffer.length + chunk.length ≤ Wire.defaultReassemblyCap
    · rw [List.flatten_cons, ← List.append_assoc] at hfeeds
      obtain ⟨now, f', r', later, hnow, hlater, hsplit⟩ := hfeeds.split
      have hingest : w.ingest chunk = (⟨r', f'⟩, .ok now) := ingest_of_feeds hcap hnow
      rw [fits_cons_ok hcap hingest]
      cases now with
      | nil =>
        rw [List.nil_append] at hsplit
        subst hsplit
        obtain ⟨hlistening, hinbound⟩ := hh.receive_nothing hingest
        rw [separates_cons hcut hnow, ← hinbound]
        exact ih hlistening hnow.cut_rest hlater
      | cons first dropped =>
        obtain ⟨rfl, rfl⟩ := List.cons.inj hsplit
        obtain ⟨htransporting, hinbound⟩ := hh.receive_message hread hcomplete hingest
        rw [separates_message hcut hnow, ← hinbound]
        cases dropped with
        | nil =>
          obtain ⟨hall, hover⟩ := htransporting.receiveAll hnow.cut_rest hlater hopens
          constructor
          · rintro ⟨hactive, -⟩
            exact ⟨by_contra fun hnot => hover hnot hactive, rfl⟩
          · rintro ⟨hfits, -⟩
            exact hall hfits
        | cons lost dropped =>
          -- fewer messages are left than there are plaintexts
          have hlength := receiveAll_bounded (.inr ⟨noise', htransporting⟩) hnow.cut_rest hlater
          constructor
          · rintro ⟨-, hdelivered⟩
            have hplaintexts : plaintexts.length = ((lost :: dropped) ++ later).length :=
              hopens.length_eq
            rw [List.length_append, List.length_cons] at hplaintexts
            rw [hdelivered, List.length_append] at hlength
            omega
          · rintro ⟨-, hnone⟩
            cases hnone
    · obtain ⟨e, herror⟩ := ingest_overflow hcap
      obtain ⟨hspent, hgone⟩ := hh.receive_error herror
      rw [hspent.receiveAll, hgone]
      constructor
      · rintro ⟨hactive, -⟩
        cases hactive
      · rintro ⟨hfits, -⟩
        exact absurd hfits.1 hcap

end Switch

/-- **When the switch loses nothing.** A session that waits for message 2, and a stream of
message 2 and of ciphertexts that are good one after the other, cut into chunks in any
way. All plaintexts are handed on in order and the session is ACTIVE at the end exactly if
no chunk overflows the assembler and some chunk ends behind message 2 and before the first
application message does. -/
theorem switch_loses_nothing_iff (E : Endpoint) (h : Host E.withFraming)
    {noise noise' last : E.withFraming.Noise} {chunks ciphertexts plaintexts : List Bytes}
    {message : Bytes} {f : Wire.Framer} (hlistening : Listening h noise .new)
    (hstream : Feeds frameSlicer Wire.Framer.ingest Wire.Framer.new chunks.flatten
      (message :: ciphertexts) f [])
    (hread : E.withFraming.readHandshakeMessage noise message = .ok noise')
    (hcomplete : E.withFraming.isHandshakeComplete noise' = true)
    (hopens : Opens E.withFraming noise' ciphertexts plaintexts last) :
    ((h.receiveAll chunks).inbound = h.inbound ++ plaintexts ∧
        (h.receiveAll chunks).session.state = .active) ↔
      Wire.InboundAssembler.Fits .new chunks ∧ Separates .new chunks message :=
  and_comm.trans (hlistening.receiveAll rfl hstream hread hcomplete hopens)

namespace SwitchSample

/-- One message completes the handshake, and ciphertexts are their plaintexts. -/
def endpoint : Endpoint where
  Noise := Nat
  Assembler := Unit
  initiate := .ok 0
  writeHandshakeMessage noise := .ok (noise, [1])
  readHandshakeMessage noise _ := .ok (noise + 1)
  isHandshakeComplete noise := noise == 1
  encrypt noise plaintext := .ok (noise, plaintext)
  decrypt noise message := .ok (noise, message)
  assembler := ()
  ingest _ _ := ((), some [])
  split message _ seq := some ([message], seq + 1)

/-- Message 2 and an application message, in a frame each. -/
def handshakeFrame : Bytes := [0, 1, 0, 0, 3, 0, 7]

def applicationFrame : Bytes := [0, 1, 0, 1, 3, 0, 8]

def host : Host endpoint.withFraming :=
  (Host.new endpoint.withFraming).run [.call, .enter 512]

theorem listening : Listening host (0 : Nat) .new :=
  listening_start 512 rfl rfl

theorem stream : ∃ f, Passes .new (handshakeFrame ++ applicationFrame) [[7], [8]] f [] :=
  ⟨_, .emit rfl rfl (.emit rfl rfl (.stop rfl))⟩

theorem opened : Opens endpoint.withFraming (1 : Nat) [[8]] [[8]] (1 : Nat) := .cons rfl .nil

end SwitchSample

/-- In chunks of their own both messages arrive. -/
theorem separate_chunks_arrive :
    (SwitchSample.host.receiveAll
      [SwitchSample.handshakeFrame, SwitchSample.applicationFrame]).inbound = [[8]] := by
  obtain ⟨f, hstream⟩ := SwitchSample.stream
  have hchunks : Feeds frameSlicer Wire.Framer.ingest Wire.Framer.new
      [SwitchSample.handshakeFrame, SwitchSample.applicationFrame].flatten [[7], [8]] f [] :=
    hstream
  have hseparates : Separates .new
      [SwitchSample.handshakeFrame, SwitchSample.applicationFrame] [7] :=
    ⟨1, _, [], .emit rfl rfl (.stop rfl)⟩
  have hfits : Wire.InboundAssembler.Fits .new
      [SwitchSample.handshakeFrame, SwitchSample.applicationFrame] :=
    (fits_cons_ok (by decide) rfl _).mpr ((fits_cons_ok (by decide) rfl []).mpr trivial)
  exact ((switch_loses_nothing_iff SwitchSample.endpoint SwitchSample.host SwitchSample.listening
    hchunks rfl rfl SwitchSample.opened).mpr ⟨hfits, hseparates⟩).1

/-- In one chunk the application message is lost: the session is ACTIVE and has handed
nothing on. -/
theorem one_chunk_loses_application_message :
    Listening SwitchSample.host (0 : Nat) .new ∧
      (∃ f, Feeds frameSlicer Wire.Framer.ingest Wire.Framer.new
        [SwitchSample.handshakeFrame ++ SwitchSample.applicationFrame].flatten [[7], [8]] f []) ∧
      Opens SwitchSample.endpoint.withFraming (1 : Nat) [[8]] [[8]] (1 : Nat) ∧
      (SwitchSample.host.receiveAll
        [SwitchSample.handshakeFrame ++ SwitchSample.applicationFrame]).session.state = .active ∧
      (SwitchSample.host.receiveAll
        [SwitchSample.handshakeFrame ++ SwitchSample.applicationFrame]).inbound = [] := by
  refine ⟨SwitchSample.listening, SwitchSample.stream, SwitchSample.opened, ?_, ?_⟩
  · decide +kernel
  · decide +kernel

end Conveyance.Phone
