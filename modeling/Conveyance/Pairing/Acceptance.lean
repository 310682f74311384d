import Conveyance.Pairing.Receiving

/-!
# What a ceremony accepts (conveyance-core, pairing/ceremony.rs)

Stage by stage, from the end of the driver to its beginning: a stage quits, with the store
and the trace it began with (`Quits`), or hands over to the next one. What a stage that
starts in the state it belongs to comes to is `Ends`: it takes only transitions the machine
has, and changes the store only by the row of a confirm that passed every check.
-/

namespace Conveyance.Pairing

open Lib Lib.Chunking Crypto Protocol Wire Storage

/-- Everything that was taken from the link. -/
def taken (trace : List Obs) : Bytes :=
  trace.flatMap fun o => match o with
    | .received bytes => bytes
    | _ => []

/-- The row of a confirmed phone. -/
def Env.rowOf (env : Env) (confirm : PairingConfirm) : PairingRecord :=
  ⟨phoneIdFor env.sha256 confirm.phoneIdPub, confirm.phoneIdPub, confirm.phoneDhPub, env.pairedAt,
    none⟩

/-- How a stage ends that starts with `store` and has taken `got` from the link: with the
row of a good confirm added, or with the store as it was. -/
structure Ends (env : Env) (store : PairingsDb) (got : Bytes) (Good : PairingConfirm → Prop)
    (o : Outcome env.bloom) : Prop where
  legal : o.2 ≠ .error (.crash .illegalTransition)
  unchanged : ∀ e, o.2 = .error e → o.1.store = store
  accepted : ∀ peer, o.2 = .ok peer → ∃ confirm, Good confirm ∧
    o.1.store = store.upsert (env.rowOf confirm) ∧
    peer = ⟨confirm.phoneIdPub, confirm.phoneDhPub⟩ ∧ taken o.1.trace = got

/-- The frames of the Ack, if there are any. -/
def ackFrames (env : Env) (link : Link) (nonce : Octets 32) (confirm : PairingConfirm) :
    List Bytes :=
  match encode env.intoWriter
      (.pairingAck (signAck env.sign nonce env.pcIdPub confirm.phoneIdPub confirm.phoneDhPub)) with
  | .error _ => []
  | .ok bytes =>
    match splitMessage bytes link.maxWriteLen 0 with
    | .error _ => []
    | .ok (frames, _) => frames

/-- The writes of the loop, which stops behind the first that fails. -/
def handed (link : Link) : Nat → List Bytes → List Bytes
  | _, [] => []
  | n, frame :: frames =>
    match link.send n with
    | .error _ => [frame]
    | .ok () => frame :: handed link (n + 1) frames

/-- How an answer ends: the row is stored, the last write is reported as failed, or the
database refuses the row. -/
inductive Answered (env : Env) (link : Link) (nonce : Octets 32) (store : PairingsDb)
    (confirm : PairingConfirm) : Outcome env.bloom → Prop where
  | stored {o : Outcome env.bloom} (hresult : o.2 = .ok ⟨confirm.phoneIdPub, confirm.phoneDhPub⟩)
    (hstore : o.1.store = store.upsert (env.rowOf confirm)) :
    Answered env link nonce store confirm o
  | unsent {o : Outcome env.bloom} {n : Nat} {e : Core.TransportError}
    (hlast : (handed link 0 (ackFrames env link nonce confirm)).length = n + 1)
    (hsend : link.send n = .error e) (hresult : o.2 = .error (.err (.transport e.text)))
    (hstore : o.1.store = store) : Answered env link nonce store confirm o
  | refused {o : Outcome env.bloom}
    (hrefused : env.storeBroken = true ∨ store.conflicts (env.rowOf confirm) = true)
    (hresult : o.2 = .error (.err (.storage .db))) (hstore : o.1.store = store) :
    Answered env link nonce store confirm o

/-- What a confirm has to be, apart from coming alone. -/
structure Verified (env : Env) (nonce : Octets 32) (message : Bytes) (confirm : PairingConfirm) :
    Prop where
  decodes : decodeConfirmMessage env.reader message = .ok confirm
  signed : env.verify confirm.phoneIdPub
    (pairingPayload env.pcIdPub nonce confirm.phoneIdPub confirm.phoneDhPub) confirm.signature =
      true

/-- The checks of `judge`. -/
structure Accepts (env : Env) (nonces : NonceGuard env.bloom) (nonce : Octets 32) (message : Bytes)
    (confirm : PairingConfirm) : Prop where
  fresh : (nonces.recordAndCheck env.gateAt nonce).1 = false
  decodes : decodeConfirmMessage env.reader message = .ok confirm
  parses : env.parsesKey confirm.phoneIdPub = true
  signed : verifyConfirm env.verify confirm confirm.phoneIdPub env.pcIdPub nonce = .ok ()

theorem Accepts.verified {env : Env} {nonces : NonceGuard env.bloom} {nonce : Octets 32}
    {message : Bytes} {confirm : PairingConfirm} (h : Accepts env nonces nonce message confirm) :
    Verified env nonce message confirm := by
  have hsigned := h.signed
  unfold verifyConfirm at hsigned
  split_ifs at hsigned with hverify
  exact ⟨h.decodes, hverify⟩

section Stages

variable {env : Env} {c : Ceremony env.bloom} {o : Outcome env.bloom} {event : Event}

/-- A stage fails, with the store and the trace it began with. -/
structure Quits (c : Ceremony env.bloom) (o : Outcome env.bloom) : Prop where
  failed : ∃ e, o.2 = .error e
  legal : c.state = .awaitingConfirm → o.2 ≠ .error (.crash .illegalTransition)
  store : o.1.store = c.store
  trace : o.1.trace = c.trace

theorem advance_eq {state : PairingState} (h : step c.state event = .ok state)
    (next : Ceremony env.bloom → Outcome env.bloom) :
    c.advance event next = next { c with state } := by
  rw [Ceremony.advance, h]

theorem failVia_eq (h : step c.state event = .ok .unpaired) (e : PairingError) :
    c.failVia event e = ({ c with state := .unpaired }, .error (.err e)) := by
  rw [Ceremony.failVia, advance_eq h, if_neg (not_not_intro rfl)]

theorem failVia_quits (h : step .awaitingConfirm event = .ok .unpaired) (e : PairingError) :
    Quits c (c.failVia event e) := by
  by_cases hstate : c.state = .awaitingConfirm
  · rw [failVia_eq (hstate ▸ h)]
    exact ⟨⟨_, rfl⟩, by simp, rfl, rfl⟩
  · unfold Ceremony.failVia Ceremony.advance
    split
    · exact ⟨⟨_, rfl⟩, fun h => absurd h hstate, rfl, rfl⟩
    · dsimp only
      split_ifs <;> exact ⟨⟨_, rfl⟩, fun h => absurd h hstate, rfl, rfl⟩

theorem persist_answered (link : Link) (nonce : Octets 32) (h : c.state = .ackSent)
    (confirm : PairingConfirm) : Answered env link nonce c.store confirm (persist env c confirm) ∧
      (persist env c confirm).1.trace = c.trace := by
  rw [persist, advance_eq (h ▸ rfl : step c.state .ackWrittenOk = .ok .paired),
    if_neg (not_not_intro rfl)]
  by_cases hrefused : env.storeBroken = true ∨ c.store.conflicts (env.rowOf confirm) = true
  · rw [PairingsDb.record_refused hrefused]
    exact ⟨.refused hrefused rfl rfl, rfl⟩
  · rw [PairingsDb.record_stored hrefused]
    exact ⟨.stored rfl rfl, rfl⟩

/-- The loop writes what `handed` tells, and fails with its last write or not at all. -/
theorem sendFrames_eq (link : Link) (frames : List Bytes) (c : Ceremony env.bloom) (n : Nat) :
    ∃ result, sendFrames env link c n frames =
        ({ c with trace := c.trace ++ (handed link n frames).map .sent }, result) ∧
      ∀ e ∈ result, ∃ m, (handed link n frames).length = m + 1 ∧ link.send (n + m) = .error e := by
  induction frames generalizing c n with
  | nil => exact ⟨none, by simp [sendFrames, handed], by simp⟩
  | cons frame frames ih =>
    rw [sendFrames, handed]
    cases hsend : link.send n with
    | error e =>
      refine ⟨some e, rfl, fun e' he' => ⟨0, rfl, ?_⟩⟩
      cases he'
      exact hsend
    | ok =>
      obtain ⟨result, heq, hresult⟩ := ih (c.emit (.sent frame)) (n + 1)
      refine ⟨result, by rw [heq]; simp [Ceremony.emit], fun e he => ?_⟩
      obtain ⟨m, hlast, hfails⟩ := hresult e he
      exact ⟨m + 1, congrArg (· + 1) hlast, by rwa [show n + (m + 1) = n + 1 + m by omega]⟩

/-- Nothing can be sent, or the frames go out one after the other. -/
theorem acknowledge_cases (c : Ceremony env.bloom) (link : Link) (nonce : Octets 32)
    (confirm : PairingConfirm) :
    (Quits c (acknowledge env c link nonce confirm) ∧
      (c.state = .awaitingConfirm → ackFrames env link nonce confirm = [])) ∨
    (Answered env link nonce c.store confirm (acknowledge env c link nonce confirm) ∧
      (acknowledge env c link nonce confirm).1.trace =
        c.trace ++ (handed link 0 (ackFrames env link nonce confirm)).map .sent) := by
  by_cases hstate : step c.state .validConfirmReceived = .ok .ackSent
  · rw [acknowledge, advance_eq hstate]
    dsimp only
    cases hencode : encode env.intoWriter (.pairingAck
        (signAck env.sign nonce env.pcIdPub confirm.phoneIdPub confirm.phoneDhPub)) with
    | error e => exact .inl ⟨⟨⟨_, rfl⟩, by simp, rfl, rfl⟩, fun _ => by simp [ackFrames, hencode]⟩
    | ok bytes =>
      dsimp only
      rcases hsplit : splitMessage bytes link.maxWriteLen 0 with e | ⟨frames, next⟩
      · have hnone : ackFrames env link nonce confirm = [] := by simp [ackFrames, hencode, hsplit]
        cases e with
        | panic => exact .inl ⟨⟨⟨_, rfl⟩, by simp, rfl, rfl⟩, fun _ => hnone⟩
        | err e =>
          dsimp only
          rw [failVia_eq rfl]
          exact .inl ⟨⟨⟨_, rfl⟩, by simp, rfl, rfl⟩, fun _ => hnone⟩
      · obtain rfl : ackFrames env link nonce confirm = frames := by
          simp [ackFrames, hencode, hsplit]
        obtain ⟨result, hsend, hresult⟩ := sendFrames_eq link (ackFrames env link nonce confirm)
          ({ c with state := .ackSent } : Ceremony env.bloom) 0
        dsimp only
        rw [hsend]
        cases result with
        | some e =>
          obtain ⟨n, hlast, hfails⟩ := hresult e rfl
          rw [Nat.zero_add] at hfails
          dsimp only
          rw [failVia_eq rfl]
          exact .inr ⟨.unsent hlast hfails rfl rfl, rfl⟩
        | none =>
          exact .inr (persist_answered (c := ⟨.ackSent, c.nonces, c.store, _⟩) link nonce rfl confirm)
  · -- not a state the stage belongs to
    have hcrash : acknowledge env c link nonce confirm =
        (c, .error (.crash .illegalTransition)) := by
      rw [acknowledge, Ceremony.advance]
      cases hother : c.state <;> simp_all [step]
    have hnot : c.state ≠ .awaitingConfirm := fun h => hstate (h ▸ rfl)
    rw [hcrash]
    exact .inl ⟨⟨⟨_, rfl⟩, fun h => absurd h hnot, rfl, rfl⟩, fun h => absurd h hnot⟩

theorem taken_sent (trace : List Obs) (sent : List Bytes) :
    taken (trace ++ sent.map .sent) = taken trace := by
  simp [taken, List.flatMap_map]

theorem Quits.ends {got : Bytes} {Good : PairingConfirm → Prop} (h : Quits c o)
    (hstate : c.state = .awaitingConfirm) : Ends env c.store got Good o where
  legal := h.legal hstate
  unchanged _ _ := h.store
  accepted peer hpeer := by
    obtain ⟨e, he⟩ := h.failed
    cases he.symm.trans hpeer

theorem acknowledge_ends {Good : PairingConfirm → Prop} (hstate : c.state = .awaitingConfirm)
    (link : Link) (nonce : Octets 32) {confirm : PairingConfirm} (hgood : Good confirm) :
    Ends env c.store (taken c.trace) Good (acknowledge env c link nonce confirm) := by
  rcases acknowledge_cases c link nonce confirm with ⟨hquits, -⟩ | ⟨hanswered, htrace⟩
  · exact hquits.ends hstate
  cases hanswered with
  | stored hresult hstore =>
    refine ⟨by simp [hresult], by simp [hresult], fun peer hpeer => ?_⟩
    cases hresult.symm.trans hpeer
    exact ⟨confirm, hgood, hstore, rfl, by rw [htrace, taken_sent]⟩
  | unsent _ _ hresult hstore | refused _ hresult hstore =>
    exact ⟨by simp [hresult], fun _ _ => hstore, by simp [hresult]⟩

/-- The ceremony behind the replay gate. -/
def Ceremony.burnt (c : Ceremony env.bloom) (nonce : Octets 32) : Ceremony env.bloom :=
  { c with nonces := (c.nonces.recordAndCheck env.gateAt nonce).2 }.emit
    (.recorded nonce (c.nonces.recordAndCheck env.gateAt nonce).1)

theorem gate_eq (nonce : Octets 32) (next : Ceremony env.bloom → Outcome env.bloom) :
    c.gate env.gateAt nonce next = if (c.nonces.recordAndCheck env.gateAt nonce).1 then
      (c.burnt nonce).failVia .invalidConfirm .replayedNonce else next (c.burnt nonce) := rfl

theorem judge_cases (c : Ceremony env.bloom) (link : Link) (nonce : Octets 32) (message : Bytes) :
    (Quits (c.burnt nonce) (judge env c link nonce message) ∧
      ∀ confirm, ¬ Accepts env c.nonces nonce message confirm) ∨
    ∃ confirm, Accepts env c.nonces nonce message confirm ∧
      judge env c link nonce message = acknowledge env (c.burnt nonce) link nonce confirm := by
  rw [judge, gate_eq]
  split_ifs with hseen
  · exact .inl ⟨failVia_quits rfl _, fun _ h => by simp [h.fresh] at hseen⟩
  cases hdecode : decodeConfirmMessage env.reader message with
  | error e =>
    have hnone : ∀ confirm, ¬ Accepts env c.nonces nonce message confirm := fun _ h => by
      cases hdecode.symm.trans h.decodes
    cases e with
    | panic => exact .inl ⟨⟨⟨_, rfl⟩, by simp, rfl, rfl⟩, hnone⟩
    | err e => exact .inl ⟨failVia_quits rfl _, hnone⟩
  | ok confirm =>
    dsimp only
    by_cases hkey : ¬ env.parsesKey confirm.phoneIdPub
    · rw [if_pos hkey]
      refine .inl ⟨failVia_quits rfl _, fun _ h => ?_⟩
      cases hdecode.symm.trans h.decodes
      exact hkey h.parses
    rw [if_neg hkey]
    cases hverify : verifyConfirm env.verify confirm confirm.phoneIdPub env.pcIdPub nonce with
    | error e =>
      refine .inl ⟨failVia_quits rfl _, fun _ h => ?_⟩
      cases hdecode.symm.trans h.decodes
      cases hverify.symm.trans h.signed
    | ok =>
      exact .inr ⟨confirm, ⟨by simpa using hseen, hdecode, not_not.mp hkey, hverify⟩, rfl⟩

/-- Without a message, and with one that does not pass, the stage fails; with a message
the nonce is burnt before. -/
theorem awaitConfirm_cases (c : Ceremony env.bloom) (limits : CeremonyLimits) {link : Link}
    (nonce : Octets 32) {got : Bytes} {received : Except ConfirmReceiveError Bytes}
    (hreceive : receivePairingConfirm link.inbound limits.confirmTimeout = (got, received)) :
    (¬ Burns received ∧ Quits (c.emit (.received got)) (awaitConfirm env c limits link nonce)) ∨
    Burns received ∧
      ((Quits ((c.emit (.received got)).burnt nonce) (awaitConfirm env c limits link nonce) ∧
          ∀ message, received = .ok message → ∀ confirm,
            ¬ Accepts env c.nonces nonce message confirm) ∨
        ∃ message confirm, received = .ok message ∧ Accepts env c.nonces nonce message confirm ∧
          awaitConfirm env c limits link nonce =
            acknowledge env ((c.emit (.received got)).burnt nonce) link nonce confirm) := by
  rw [awaitConfirm, hreceive]
  dsimp only
  rcases received with e | message
  · cases e with
    | timedOut => exact .inl ⟨fun h => h.1 rfl, failVia_quits rfl _⟩
    | invalid => exact .inl ⟨not_burns_invalid, failVia_quits rfl _⟩
    | invalidAfterMessage =>
      refine .inr ⟨by simp [Burns], .inl ⟨?_, by simp⟩⟩
      rw [gate_eq]
      split_ifs <;> exact failVia_quits rfl _
  · refine .inr ⟨by simp [Burns], ?_⟩
    rcases judge_cases (c.emit (.received got)) link nonce message with ⟨hquits, hnone⟩ | h
    · exact .inl ⟨hquits, fun _ heq => by cases heq; exact hnone⟩
    · obtain ⟨confirm, haccepts, heq⟩ := h
      exact .inr ⟨message, confirm, rfl, haccepts, heq⟩

/-- The confirm came alone, on this link, and passed. -/
def Passed (env : Env) (nonces : NonceGuard env.bloom) (nonce : Octets 32) (got : Bytes)
    (confirm : PairingConfirm) : Prop :=
  ∃ message, CarriesOne got message ∧ Verified env nonce message confirm ∧
    (nonces.recordAndCheck env.gateAt nonce).1 = false

theorem awaitConfirm_ends (hstate : c.state = .awaitingConfirm) (limits : CeremonyLimits)
    (link : Link) (nonce : Octets 32) (htrace : taken c.trace = []) :
    ∃ got, Ends env c.store got (Passed env c.nonces nonce got)
      (awaitConfirm env c limits link nonce) := by
  rcases hreceive : receivePairingConfirm link.inbound limits.confirmTimeout with ⟨got, received⟩
  have hgot : taken ((c.emit (.received got)).burnt nonce).trace = got := by
    simpa [Ceremony.burnt, Ceremony.emit, taken] using htrace
  refine ⟨got, ?_⟩
  rcases awaitConfirm_cases c limits nonce hreceive with
    ⟨-, hquits⟩ | ⟨-, ⟨hquits, -⟩ | ⟨message, confirm, rfl, haccepts, heq⟩⟩
  · exact hquits.ends hstate
  · exact hquits.ends hstate
  · have hgood : Passed env c.nonces nonce got confirm :=
      ⟨message, receive_ok hreceive, haccepts.verified, haccepts.fresh⟩
    have hends := acknowledge_ends (c := (c.emit (.received got)).burnt nonce) hstate link nonce
      hgood
    rwa [hgot, ← heq] at hends

end Stages

section Connecting

variable {env : Env} {limits : CeremonyLimits} {nonces : NonceGuard env.bloom} {store : PairingsDb}
  {nonce : Octets 32} {qr : PairingQr}

/-- No attempt comes through. -/
theorem runPairing_expired (hentropy : env.entropy = .ok nonce)
    (hqr : PairingQr.new env.parsesKey env.probe env.shownAt env.pcIdPub env.pcDhPub nonce
      env.pcName env.serviceUuid = .ok qr)
    (hlink : connectLoop env.connect limits.qrTtl limits.qrTtl 0 = none) :
    runPairing env limits nonces store =
      (⟨.qrDisplayed, nonces, store, [.displayed qr]⟩, .error (.err .qrExpired)) := by
  unfold runPairing
  simp only [hentropy, hqr]
  rw [advance_eq rfl, hlink]
  rfl

/-- An attempt comes through. -/
theorem runPairing_connected {link : Link} {left : Nat} (hentropy : env.entropy = .ok nonce)
    (hqr : PairingQr.new env.parsesKey env.probe env.shownAt env.pcIdPub env.pcDhPub nonce
      env.pcName env.serviceUuid = .ok qr)
    (hlink : connectLoop env.connect limits.qrTtl limits.qrTtl 0 = some (link, left)) :
    runPairing env limits nonces store =
      awaitConfirm env ⟨.awaitingConfirm, nonces, store,
        [.displayed qr, .connected (limits.qrTtl - left)]⟩ limits link nonce := by
  unfold runPairing
  simp only [hentropy, hqr]
  rw [advance_eq rfl, hlink]
  dsimp only
  rw [advance_eq rfl, advance_eq rfl]
  rfl

/-- A run gets a link, or fails before. -/
theorem runPairing_cases (env : Env) (limits : CeremonyLimits) (nonces : NonceGuard env.bloom)
    (store : PairingsDb) :
    (∃ c e, runPairing env limits nonces store = (c, .error (.err e)) ∧ c.store = store ∧
      ∀ frame, .sent frame ∉ c.trace) ∨
    ∃ nonce qr link left, env.entropy = .ok nonce ∧
      PairingQr.new env.parsesKey env.probe env.shownAt env.pcIdPub env.pcDhPub nonce env.pcName
        env.serviceUuid = .ok qr ∧
      connectLoop env.connect limits.qrTtl limits.qrTtl 0 = some (link, left) := by
  cases hentropy : env.entropy with
  | error e =>
    exact .inl ⟨⟨.unpaired, nonces, store, []⟩, .crypto e, by simp only [runPairing, hentropy], rfl,
      by simp⟩
  | ok nonce =>
    cases hqr : PairingQr.new env.parsesKey env.probe env.shownAt env.pcIdPub env.pcDhPub nonce
        env.pcName env.serviceUuid with
    | error e =>
      exact .inl ⟨⟨.unpaired, nonces, store, []⟩, .sharedProtocol e,
        by simp only [runPairing, hentropy, hqr], rfl, by simp⟩
    | ok qr =>
      cases hlink : connectLoop env.connect limits.qrTtl limits.qrTtl 0 with
      | none => exact .inl ⟨_, _, runPairing_expired hentropy hqr hlink, rfl, by simp⟩
      | some connected => exact .inr ⟨nonce, qr, _, _, rfl, hqr, rfl⟩

end Connecting

section Run

variable (env : Env) (limits : CeremonyLimits) (nonces : NonceGuard env.bloom) (store : PairingsDb)

theorem runPairing_ends :
    ∃ got nonce, Ends env store got
      (fun confirm => env.entropy = .ok nonce ∧ Passed env nonces nonce got confirm)
      (runPairing env limits nonces store) := by
  rcases runPairing_cases env limits nonces store with
    ⟨c, e, heq, hstore, -⟩ | ⟨nonce, qr, link, left, hentropy, hqr, hlink⟩
  · exact ⟨[], .replicate 32 0, by simp [heq], fun _ _ => heq ▸ hstore, by simp [heq]⟩
  · obtain ⟨got, hends⟩ := awaitConfirm_ends (c := ⟨.awaitingConfirm, nonces, store,
      [.displayed qr, .connected (limits.qrTtl - left)]⟩) rfl limits link nonce rfl
    rw [runPairing_connected hentropy hqr hlink]
    refine ⟨got, nonce, hends.legal, hends.unchanged, fun peer hpeer => ?_⟩
    obtain ⟨confirm, hpassed, hrest⟩ := hends.accepted peer hpeer
    exact ⟨confirm, ⟨hentropy, hpassed⟩, hrest⟩

/-- **Pairing stores only a fresh, correctly signed confirm.** For every transport, every
timing and cutting of what comes in, every filter and every store: the driver takes only
transitions the machine has; if it fails the store is as it was; and if the store has
changed, then by the one row of a confirm that came alone over the link, that is signed
under its own identity key over this run's values, and whose nonce the filter did not
know. -/
theorem pairing_stores_fresh_confirms :
    (runPairing env limits nonces store).2 ≠ .error (.crash .illegalTransition) ∧
    (∀ e, (runPairing env limits nonces store).2 = .error e →
      (runPairing env limits nonces store).1.store = store) ∧
    ((runPairing env limits nonces store).1.store ≠ store →
      ∃ nonce message confirm, env.entropy = .ok nonce ∧
        CarriesOne (taken (runPairing env limits nonces store).1.trace) message ∧
        Verified env nonce message confirm ∧ (nonces.recordAndCheck env.gateAt nonce).1 = false ∧
        (runPairing env limits nonces store).1.store = store.upsert (env.rowOf confirm) ∧
        (runPairing env limits nonces store).2 = .ok ⟨confirm.phoneIdPub, confirm.phoneDhPub⟩) := by
  obtain ⟨got, nonce, hends⟩ := runPairing_ends env limits nonces store
  refine ⟨hends.legal, hends.unchanged, fun hchanged => ?_⟩
  cases hresult : (runPairing env limits nonces store).2 with
  | error e => exact absurd (hends.unchanged e hresult) hchanged
  | ok peer =>
    obtain ⟨confirm, ⟨hentropy, message, halone, hverified, hfresh⟩, hstore, hpeer, htaken⟩ :=
      hends.accepted peer hresult
    rw [← htaken] at halone
    exact ⟨nonce, message, confirm, hentropy, halone, hverified, hfresh, hstore, by rw [hpeer]⟩

end Run

/-! ## Whether the nonce is burned -/

section Gate

variable {env : Env} {c : Ceremony env.bloom}

theorem acknowledge_extends (link : Link) (nonce : Octets 32) (confirm : PairingConfirm) :
    c.trace <+: (acknowledge env c link nonce confirm).1.trace := by
  rcases acknowledge_cases c link nonce confirm with ⟨hquits, -⟩ | ⟨-, htrace⟩
  · exact hquits.trace.symm ▸ List.prefix_rfl
  · exact htrace ▸ List.prefix_append _ _

/-- The nonce is burned exactly if the receive loop tells of a message. -/
theorem awaitConfirm_records (limits : CeremonyLimits) (link : Link) (nonce : Octets 32)
    (hfresh : ∀ seen, .recorded nonce seen ∉ c.trace) :
    (∃ seen, .recorded nonce seen ∈ (awaitConfirm env c limits link nonce).1.trace) ↔
      Burns (receivePairingConfirm link.inbound limits.confirmTimeout).2 := by
  rcases hreceive : receivePairingConfirm link.inbound limits.confirmTimeout with ⟨got, received⟩
  have hburnt : ∃ seen, .recorded nonce seen ∈ ((c.emit (.received got)).burnt nonce).trace :=
    ⟨_, List.mem_append_right _ (List.mem_singleton.mpr rfl)⟩
  rcases awaitConfirm_cases c limits nonce hreceive with
    ⟨hnot, hquits⟩ | ⟨hburns, ⟨hquits, -⟩ | ⟨message, confirm, -, -, heq⟩⟩
  · refine iff_of_false ?_ hnot
    simpa [hquits.trace, Ceremony.emit] using hfresh
  · exact iff_of_true (hquits.trace ▸ hburnt) hburns
  · obtain ⟨seen, hseen⟩ := hburnt
    rw [heq]
    exact iff_of_true ⟨seen, (acknowledge_extends link nonce confirm).subset hseen⟩ hburns

theorem awaitConfirm_extends (limits : CeremonyLimits) (link : Link) (nonce : Octets 32) :
    c.trace <+: (awaitConfirm env c limits link nonce).1.trace := by
  rcases hreceive : receivePairingConfirm link.inbound limits.confirmTimeout with ⟨got, received⟩
  have hgot : c.trace <+: (c.emit (.received got)).trace := List.prefix_append _ _
  have hburnt : c.trace <+: ((c.emit (.received got)).burnt nonce).trace :=
    hgot.trans (List.prefix_append _ _)
  rcases awaitConfirm_cases c limits nonce hreceive with
    ⟨-, hquits⟩ | ⟨-, ⟨hquits, -⟩ | ⟨message, confirm, -, -, heq⟩⟩
  · exact hquits.trace ▸ hgot
  · exact hquits.trace ▸ hburnt
  · exact heq ▸ hburnt.trans (acknowledge_extends link nonce confirm)

end Gate

/-! ## A phone that confirms -/

namespace Sample

def bloom : Bloom :=
  ⟨List (Octets 32), [], fun filter nonce => nonce ∈ filter, fun filter nonce => nonce :: filter⟩

def nonce : Octets 32 := .replicate 32 7

def pcIdPub : Octets 32 := .replicate 32 4

def confirm : PairingConfirm := ⟨.replicate 32 1, .replicate 32 2, .replicate 64 3⟩

/-- The confirm is the message `[9]`, in one frame. -/
def frame : Bytes := [0, 1, 0, 0, 3, 0, 9]

/-- A frame whose flags do not exist. -/
def faulty : Bytes := [0, 0, 0, 1, 8, 0]

/-- A link that comes up at once and brings the chunks in. -/
def link (arrivals : List (Nat × Bytes)) : Link := ⟨512, ⟨arrivals, none⟩, fun _ => .ok ()⟩

def env (arrivals : List (Nat × Bytes)) : Env where
  bloom := bloom
  entropy := .ok nonce
  pcIdPub := pcIdPub
  pcDhPub := .replicate 32 5
  pcName := "desk"
  serviceUuid := serviceUuidBytes
  sign _ := .replicate 64 6
  verify key payload signature := key = confirm.phoneIdPub ∧ signature = confirm.signature ∧
    payload = pairingPayload pcIdPub nonce confirm.phoneIdPub confirm.phoneDhPub
  parsesKey _ := true
  probe _ := .replicate 32 1
  connect _ _ := ⟨some 0, .ok (link arrivals)⟩
  reader bytes := if bytes = [9] then
      .ask (.pairingSignature (.bytes confirm.signature.1)) fun signature =>
        .done (.ok (.pairingConfirm ⟨confirm.phoneIdPub, confirm.phoneDhPub, signature⟩, 1))
    else .done (.error "no message")
  intoWriter _ := .ok [0]
  sha256 _ := .replicate 32 0
  shownAt := 1700000000
  gateAt := 0
  pairedAt := 1700000001
  storeBroken := false

def limits : CeremonyLimits := ⟨60, 10⟩

def run (arrivals : List (Nat × Bytes)) : Outcome bloom :=
  runPairing (env arrivals) limits ⟨[], 0⟩ []

theorem completes_frame : Completes frameSlicer Framer.ingest .new frame [9] :=
  ⟨[], frame, .new, _, .stop rfl, rfl, rfl, rfl⟩

/-- Alone, the confirm is accepted. -/
example : (run [(3, frame)]).2 = .ok ⟨confirm.phoneIdPub, confirm.phoneDhPub⟩ ∧
    (run [(3, frame)]).1.store = [(env []).rowOf confirm] := by
  decide +kernel

end Sample

/-- **A complete message burns the nonce unless the assembler fails with it.** The stream
begins with a message that ends in the chunk with number `k`, which comes in before the
confirm window closes. The nonce is recorded exactly if, up to the end of that chunk, the
assembler's buffer stays within its cap and no frame is refused. -/
theorem received_message_burns_nonce (env : Env) (limits : CeremonyLimits)
    (nonces : NonceGuard env.bloom) (store : PairingsDb) {nonce : Octets 32} {qr : PairingQr}
    {link : Link} {left : Nat} (hentropy : env.entropy = .ok nonce)
    (hqr : PairingQr.new env.parsesKey env.probe env.shownAt env.pcIdPub env.pcDhPub nonce
      env.pcName env.serviceUuid = .ok qr)
    (hlink : connectLoop env.connect limits.qrTtl limits.qrTtl 0 = some (link, left))
    {head message : Bytes} {k : Nat}
    (hcomplete : Completes frameSlicer Framer.ingest Framer.new head message)
    (hstream : head <+: (link.inbound.arrivals.map Prod.snd).flatten)
    (hbefore : ((link.inbound.arrivals.map Prod.snd).take k).flatten.length < head.length)
    (hends : head.length ≤ ((link.inbound.arrivals.map Prod.snd).take (k + 1)).flatten.length)
    (htime : ∀ a ∈ link.inbound.arrivals.take (k + 1), a.1 ≤ limits.confirmTimeout) :
    (∃ seen, .recorded nonce seen ∈ (runPairing env limits nonces store).1.trace) ↔
      Smooth [] Framer.new ((link.inbound.arrivals.map Prod.snd).take (k + 1)) := by
  have hburns : Burns (receivePairingConfirm link.inbound limits.confirmTimeout).2 ↔
      Smooth [] Framer.new ((link.inbound.arrivals.map Prod.snd).take (k + 1)) :=
    receiveLoop_burns k hcomplete hstream (by simpa using hbefore) (by simpa using hends)
      (Nat.zero_le _) htime
  rw [← hburns, runPairing_connected hentropy hqr hlink]
  refine awaitConfirm_records limits link nonce fun seen hmem => ?_
  simp at hmem

/-- The nonces that were recorded. -/
def recordedNonces (trace : List Obs) : List (Octets 32) :=
  trace.filterMap fun o => match o with
    | .recorded nonce _ => some nonce
    | _ => none

/-- The confirm and a faulty frame in one chunk: the ceremony fails, and the nonce of its
QR can be used again. -/
theorem coalesced_fault_keeps_nonce :
    Completes frameSlicer Framer.ingest Framer.new Sample.frame [9] ∧
      Sample.frame <+: Sample.frame ++ Sample.faulty ∧
      (Sample.run [(3, Sample.frame ++ Sample.faulty)]).2 = .error (.err .genericFailed) ∧
      recordedNonces (Sample.run [(3, Sample.frame ++ Sample.faulty)]).1.trace = [] ∧
      (Sample.run [(3, Sample.frame ++ Sample.faulty)]).1.nonces.filter = [] := by
  refine ⟨Sample.completes_frame, List.prefix_append _ _, ?_, ?_, rfl⟩ <;> decide +kernel

/-- In a chunk of its own, the fault comes too late. -/
theorem separate_fault_burns_nonce :
    ∃ seen, .recorded Sample.nonce seen ∈
      (Sample.run [(3, Sample.frame), (4, Sample.faulty)]).1.trace := by
  refine (received_message_burns_nonce (Sample.env [(3, Sample.frame), (4, Sample.faulty)])
    Sample.limits ⟨[], 0⟩ [] (k := 0) rfl rfl rfl Sample.completes_frame
    (List.prefix_append _ _) (by decide) (by decide) (by decide)).mpr ?_
  have hfeeds : Feeds frameSlicer Framer.ingest Framer.new Sample.frame [[9]] _ [] :=
    .emit rfl rfl (.stop rfl)
  exact ⟨⟨by decide, fun _ _ _ => trivial⟩, [[9]], _, [], hfeeds⟩

end Conveyance.Pairing
