import Conveyance.Pairing.Acceptance
import Conveyance.Pairing.PhoneSide

/-!
# What a saved pairing means to the PC

A run of `PairingCoordinator.pair` on the phone and one of `run_pairing` on the PC, over
one link. The link may delay what the PC wrote, cut it into other chunks and drop its end
at any point; it may also deliver a write that it reports as failed. So what reaches the
phone is a beginning of the writes on the trace of the PC's run (`sentFrames`).

The PC answers with the Ack first and stores the phone behind it. No message is complete
before the last byte of its frames, so a phone that has saved the PC knows that the PC wrote
its whole Ack, and no more: that last write may have been reported as failed, and the PC's
database may refuse the row.
-/

namespace Conveyance.Pairing

open Lib Lib.Chunking Crypto Protocol Wire Storage
open Conveyance.Phone (LinkEvent)

/-! ## What the PC writes -/

/-- The frames a run has written to its link. -/
def sentFrames (trace : List Obs) : List Bytes :=
  trace.filterMap fun o => match o with
    | .sent frame => some frame
    | _ => none

theorem sentFrames_sent (trace : List Obs) (sent : List Bytes) :
    sentFrames (trace ++ sent.map .sent) = sentFrames trace ++ sent := by
  simp [sentFrames, List.filterMap_map]

/-- A run's answer to a confirm: it came alone over the run's link and is signed for the run's
nonce, and what was written to the link are the frames of its Ack. -/
structure Answers (env : Env) (limits : CeremonyLimits) (o : Outcome env.bloom) (link : Link)
    (nonce : Octets 32) (confirm : PairingConfirm) (frames : List Bytes) : Prop where
  entropy : env.entropy = .ok nonce
  connected : ∃ left, connectLoop env.connect limits.qrTtl limits.qrTtl 0 = some (link, left)
  verified : ∃ message, CarriesOne (taken o.1.trace) message ∧ Verified env nonce message confirm
  sent : sentFrames o.1.trace = frames

/-- A run writes nothing, or answers a confirm and stops behind the first write that fails. -/
theorem runPairing_answers (env : Env) (limits : CeremonyLimits) (nonces : NonceGuard env.bloom)
    (store : PairingsDb) :
    sentFrames (runPairing env limits nonces store).1.trace = [] ∨
    ∃ link nonce confirm, Answers env limits (runPairing env limits nonces store) link nonce confirm
        (handed link 0 (ackFrames env link nonce confirm)) ∧
      Answered env link nonce store confirm (runPairing env limits nonces store) := by
  rcases runPairing_cases env limits nonces store with
    ⟨c, e, heq, -, hnothing⟩ | ⟨nonce, qr, link, left, hentropy, hqr, hlink⟩
  · rw [heq, sentFrames, List.filterMap_eq_nil_iff]
    refine .inl ?_
    rintro (_ | _ | _ | _ | frame) hmem
    iterate 4 rfl
    exact absurd hmem (hnothing frame)
  rcases hreceive : receivePairingConfirm link.inbound limits.confirmTimeout with ⟨got, received⟩
  rw [runPairing_connected hentropy hqr hlink]
  rcases awaitConfirm_cases _ limits nonce hreceive with
    ⟨-, hquits⟩ | ⟨-, ⟨hquits, -⟩ | ⟨message, confirm, rfl, haccepts, heq⟩⟩
  · exact .inl (hquits.trace ▸ rfl)
  · exact .inl (hquits.trace ▸ rfl)
  · rw [heq]
    rcases acknowledge_cases _ link nonce confirm with ⟨hquits, -⟩ | ⟨hanswered, htrace⟩
    · rw [hquits.trace]
      exact .inl rfl
    · refine .inr ⟨link, nonce, confirm, ⟨hentropy, ⟨left, hlink⟩,
        ⟨message, ?_, haccepts.verified⟩, ?_⟩, hanswered⟩
      · rw [htrace, taken_sent]
        simpa [Ceremony.burnt, Ceremony.emit, taken] using receive_ok hreceive
      · rw [htrace, sentFrames_sent]
        rfl

theorem handed_isPrefix (link : Link) (n : Nat) (frames : List Bytes) :
    handed link n frames <+: frames := by
  induction frames generalizing n with
  | nil => exact List.prefix_rfl
  | cons frame frames ih =>
    rw [handed]
    cases link.send n with
    | error e => exact List.cons_prefix_cons.mpr ⟨rfl, List.nil_prefix⟩
    | ok => exact List.cons_prefix_cons.mpr ⟨rfl, ih (n + 1)⟩

/-! ## What reaches the phone -/

/-- The bytes of the chunks that arrive. -/
def arrived (events : List (Nat × Except Thrown LinkEvent)) : Bytes :=
  events.flatMap fun event => match event.2 with
    | .ok (.chunk bytes) => bytes
    | _ => []

/-- The collector's answer is the first message of what arrived. -/
theorem receiveOneMessage_feeds (events : List (Nat × Except Thrown LinkEvent))
    {assembler : InboundAssembler} {seen : Bytes} {message : List Int8}
    (hseen : Passes .new seen [] assembler.framer assembler.buffer)
    (h : receiveOneMessage events (.ofWire assembler) = .ok message) :
    ∃ got first g r, got <+: seen ++ arrived events ∧
      Passes .new got [first] g r ∧ message = octets first := by
  -- by induction on the events; `seen` is what came in before them, without a message
  induction events generalizing assembler seen with
  | nil => cases h
  | cons event events ih =>
    obtain ⟨arrival, event⟩ := event
    unfold receiveOneMessage at h
    split_ifs at h with htime
    cases event with
    | error t => cases t <;> cases h
    | ok event =>
      cases event with
      | torn reason => cases h
      | chunk bytes =>
        have harrived : seen ++ arrived ((arrival, .ok (.chunk bytes)) :: events) =
            (seen ++ bytes) ++ arrived events := by
          rw [List.append_assoc]
          rfl
        rw [harrived]
        dsimp only at h
        rw [Phone.Framing.InboundAssembler.ingest_ofWire] at h
        rcases hingest : assembler.ingest bytes with ⟨next, answer⟩
        rw [hingest] at h
        cases answer with
        | error e => cases h
        | ok messages =>
          have hfeeds := hseen.append (feeds_of_ingest hingest)
          rw [List.nil_append] at hfeeds
          cases messages with
          | nil => exact ih hfeeds h
          | cons first more =>
            cases more with
            | nil => exact ⟨_, first, _, _, List.prefix_append _ _, hfeeds, (Except.ok.inj h).symm⟩
            | cons second more => cases h

theorem receiveOneMessage_new {events : List (Nat × Except Thrown LinkEvent)}
    {message : List Int8} (h : receiveOneMessage events .new = .ok message) :
    ∃ got first g r, got <+: arrived events ∧
      Passes .new got [first] g r ∧ message = octets first := by
  have hstart : Passes .new [] [] InboundAssembler.new.framer
      InboundAssembler.new.buffer := .stop rfl
  exact receiveOneMessage_feeds events hstart h

/-- The first message that arrives is the one that was framed, and all its frames are out. -/
theorem received_message {events : List (Nat × Except Thrown LinkEvent)} {bytes : Bytes}
    {message : List Int8} {maxPayload : Nat} {frames sent : List Bytes} {next : UInt16}
    (hlen : bytes.length ≤ defaultReassemblyCap)
    (hsplit : splitMessage bytes maxPayload 0 = .ok (frames, next)) (hsent : sent <+: frames)
    (harrived : arrived events <+: sent.flatten)
    (h : receiveOneMessage events .new = .ok message) : message = octets bytes ∧ sent = frames := by
  obtain ⟨hcompletes, hwhole⟩ := splitMessage_completes hlen hsplit
  obtain ⟨got, first, g, r, hgot, hfeeds, rfl⟩ := receiveOneMessage_new h
  obtain ⟨unsent, rfl⟩ := hsent
  obtain ⟨late, hlate⟩ := hgot.trans harrived
  have hall : got ++ (late ++ unsent.flatten) = (sent ++ unsent).flatten := by
    rw [← List.append_assoc, hlate, List.flatten_append]
  rw [← hall] at hcompletes
  by_cases hmissing : late ++ unsent.flatten = []
  · rw [hmissing, List.append_nil] at hcompletes
    obtain ⟨t, hpass⟩ := hcompletes.feeds
    obtain ⟨⟨rfl, -⟩, -⟩ := hpass.unique hfeeds
    refine ⟨rfl, ?_⟩
    -- a frame is never empty, so no frame is left over
    cases unsent with
    | nil => exact (List.append_nil sent).symm
    | cons frame unsent =>
      obtain ⟨-, hnone⟩ := List.append_eq_nil_iff.mp hmissing
      have hcut := hwhole frame (List.mem_append_right _ List.mem_cons_self) []
      rw [(List.append_eq_nil_iff.mp hnone).1] at hcut
      cases hcut
  · -- without the last byte a pass gives nothing
    obtain ⟨t, q, hnothing, -⟩ := hcompletes.advance hmissing
    obtain ⟨hnone, -⟩ := hnothing.unique hfeeds
    cases hnone

theorem received_something {events : List (Nat × Except Thrown LinkEvent)} {message : List Int8}
    (h : receiveOneMessage events .new = .ok message) : arrived events ≠ [] := by
  intro hnothing
  obtain ⟨got, first, g, r, hgot, hfeeds, -⟩ := receiveOneMessage_new h
  obtain rfl : got = [] := List.prefix_nil.mp (hnothing ▸ hgot)
  obtain ⟨hnone, -, -⟩ := hfeeds.unique (.stop rfl)
  cases hnone

/-! ## The two runs -/

theorem encode_ack_ok {intoWriter : WireMessage → Except String Bytes} {ack : PairingAck}
    {bytes : Bytes} (h : encode intoWriter (.pairingAck ack) = .ok bytes) :
    intoWriter (.pairingAck ack) = .ok bytes ∧ bytes.length ≤ defaultReassemblyCap := by
  have hencode : encode intoWriter (.pairingAck ack) =
      ((intoWriter (.pairingAck ack)).mapError .cbor).bind fun out =>
        if maxWireMessageBytes < out.length then .error .messageTooLarge else .ok out := rfl
  rw [hencode] at h
  cases hwrite : intoWriter (.pairingAck ack) with
  | error e =>
    rw [hwrite] at h
    cases h
  | ok out =>
    rw [hwrite] at h
    replace h : (if maxWireMessageBytes < out.length then Except.error ProtocolError.messageTooLarge
      else .ok out) = .ok bytes := h
    split_ifs at h with hlong
    cases h
    exact ⟨rfl, Nat.not_lt.mp hlong⟩

/-- Phone and PC are on one link: what arrives is a beginning of what the PC's run writes, and
the phone reads the Ack that the PC wrote or none. -/
structure OneLink (env : Env) (limits : CeremonyLimits) (nonces : NonceGuard env.bloom)
    (store : PairingsDb) (d : Device) : Prop where
  delivers : ∀ timeout link, d.connect timeout = .ok link →
    arrived link.events <+: (sentFrames (runPairing env limits nonces store).1.trace).flatten
  reads : ∀ ack bytes ack', env.intoWriter (.pairingAck ack) = .ok bytes →
    decodeAckMessage d.reader bytes = .ok ack' → ack' = ack

/-- The PC's store has a pairing with these keys. -/
def Holds (store : PairingsDb) (idPub dhPub : Octets 32) : Prop :=
  ∃ row ∈ store, row.idPub = idPub ∧ row.dhPub = dhPub

/-- An Ack that was read is the whole Ack of the confirm with its keys. -/
theorem received_ack {env : Env} {link : Link} {nonce : Octets 32} {confirm : PairingConfirm}
    {d : Device} {events : List (Nat × Except Thrown LinkEvent)} {message : List Int8}
    {ack : PairingAck}
    (hreads : ∀ ack bytes ack', env.intoWriter (.pairingAck ack) = .ok bytes →
      decodeAckMessage d.reader bytes = .ok ack' → ack' = ack)
    (harrived : arrived events <+: (handed link 0 (ackFrames env link nonce confirm)).flatten)
    (hreceived : receiveOneMessage events .new = .ok message)
    (hdecode : decodeAckMessage d.reader (message.map Int8.toUInt8) = .ok ack) :
    handed link 0 (ackFrames env link nonce confirm) = ackFrames env link nonce confirm ∧
      ack = signAck env.sign nonce env.pcIdPub confirm.phoneIdPub confirm.phoneDhPub := by
  have hsent := handed_isPrefix link 0 (ackFrames env link nonce confirm)
  have hsomething := received_something hreceived
  cases hencode : encode env.intoWriter (.pairingAck
      (signAck env.sign nonce env.pcIdPub confirm.phoneIdPub confirm.phoneDhPub)) with
  | error e =>
    have hnone : ackFrames env link nonce confirm = [] := by simp [ackFrames, hencode]
    rw [hnone] at harrived
    exact absurd (List.prefix_nil.mp harrived) hsomething
  | ok bytes =>
    rcases hsplit : splitMessage bytes link.maxWriteLen 0 with e | ⟨frames, next⟩
    · have hnone : ackFrames env link nonce confirm = [] := by simp [ackFrames, hencode, hsplit]
      rw [hnone] at harrived
      exact absurd (List.prefix_nil.mp harrived) hsomething
    · obtain rfl : ackFrames env link nonce confirm = frames := by
        simp [ackFrames, hencode, hsplit]
      obtain ⟨hwrite, hlen⟩ := encode_ack_ok hencode
      obtain ⟨rfl, hwhole⟩ := received_message hlen hsplit hsent harrived hreceived
      rw [octets_map_toUInt8] at hdecode
      exact ⟨hwhole, hreads _ bytes ack hwrite hdecode⟩

/-- **A saved pairing is one the PC has answered.** Whenever the phone has written the row
of the PC, the PC's run has verified a confirm with this phone's keys and written every frame
of its Ack. Then either the run succeeds and the PC's store has a pairing with the phone's
keys; or the store is as it was, and the run tells of it: the last write of the Ack was
reported as failed, or the database refused the row, because it is broken or because another
phone has the handle or the DH key. -/
theorem saved_pairing_is_answered (env : Env) (limits : CeremonyLimits)
    (nonces : NonceGuard env.bloom) (store : PairingsDb) (d : Device) (encodedQr : String)
    (pairings : PairingStore) (hone : OneLink env limits nonces store d) {identity : PhoneIdentity}
    (hidentity : d.identity = some identity) {entity : PairingEntity}
    (hsaved : (d.pair encodedQr pairings).wrote = some entity) :
    ∃ link nonce confirm, Answers env limits (runPairing env limits nonces store) link nonce confirm
        (ackFrames env link nonce confirm) ∧
      ackFrames env link nonce confirm ≠ [] ∧
      confirm.phoneIdPub = identity.idPub ∧ confirm.phoneDhPub = identity.dhPub ∧
      (((runPairing env limits nonces store).2 = .ok ⟨identity.idPub, identity.dhPub⟩ ∧
        Holds (runPairing env limits nonces store).1.store identity.idPub identity.dhPub) ∨
      ((runPairing env limits nonces store).1.store = store ∧
        ((∃ n e, (ackFrames env link nonce confirm).length = n + 1 ∧ link.send n = .error e ∧
            (runPairing env limits nonces store).2 = .error (.err (.transport e.text))) ∨
          ((env.storeBroken = true ∨ store.conflicts ⟨phoneIdFor env.sha256 identity.idPub,
              identity.idPub, identity.dhPub, env.pairedAt, none⟩ = true) ∧
            (runPairing env limits nonces store).2 = .error (.err (.storage .db)))))) := by
  obtain ⟨identity', timeout, phoneLink, message, ack, hidentity', hconnect, hreceived, hdecode,
    hid, hdh⟩ := Device.pair_wrote hsaved
  rw [hidentity] at hidentity'
  cases hidentity'
  have harrived := hone.delivers timeout phoneLink hconnect
  rcases runPairing_answers env limits nonces store with
    hnothing | ⟨link, nonce, confirm, hanswers, hanswered⟩
  · rw [hnothing] at harrived
    exact absurd (List.prefix_nil.mp harrived) (received_something hreceived)
  rw [hanswers.sent] at harrived
  obtain ⟨hwhole, rfl⟩ := received_ack hone.reads harrived hreceived hdecode
  rw [hwhole] at hanswers harrived
  have hframes : ackFrames env link nonce confirm ≠ [] := by
    intro hnone
    rw [hnone] at harrived
    exact received_something hreceived (List.prefix_nil.mp harrived)
  refine ⟨link, nonce, confirm, hanswers, hframes, hid, hdh, ?_⟩
  rw [← hid, ← hdh]
  cases hanswered with
  | stored hresult hupsert =>
    refine .inl ⟨hresult, ?_⟩
    rw [hupsert]
    exact PairingsDb.mem_upsert store (env.rowOf confirm)
  | unsent hlast hsend hresult hkept =>
    exact .inr ⟨hkept, .inl ⟨_, _, hwhole ▸ hlast, hsend, hresult⟩⟩
  | refused hrefused hresult hkept => exact .inr ⟨hkept, .inr ⟨hrefused, hresult⟩⟩

/-! ## A phone that saves -/

namespace Sample

def qr : PairingQr :=
  ⟨1, pcIdPub, .replicate 32 5, nonce, 1700000060, "desk", serviceUuidBytes⟩

def ack : PairingAck :=
  ⟨nonce, pcIdPub, confirm.phoneIdPub, confirm.phoneDhPub, .replicate 64 6⟩

/-- The Ack is the message `[0]`, in one frame. -/
def ackFrame : Bytes := [0, 1, 0, 0, 3, 0, 0]

/-- A phone that scans the code of the sample PC and gets its Ack. -/
def device : Device where
  parsesKey _ := true
  probe _ := .replicate 32 1
  base64 _ := some []
  readValue _ := none
  readQr _ := some (qr, 0)
  reader bytes := if bytes = [0] then .done (.ok (.pairingAck ack, 1))
    else .done (.error "no message")
  intoWriter _ := some [9]
  verify _ _ _ := true
  identity := some ⟨confirm.phoneIdPub, confirm.phoneDhPub, fun _ => confirm.signature⟩
  parsedAt := 1700000001
  connectsAt := 1700000002
  pairedAt := 1700000003
  connect _ := .ok ⟨512, fun _ => .ok (), [(5, .ok (.chunk ackFrame))]⟩
  getThrows := none
  saveLands := true
  saveThrows := none

/-- The sample PC, which can write this Ack only. -/
def answering : Env :=
  { env [(3, frame)] with
    intoWriter := fun message => match message with
      | .pairingAck written => if written = ack then .ok [0] else .error "another"
      | _ => .error "another" }

def fresh : NonceGuard answering.bloom := ⟨[], 0⟩

/-- The row of another phone with the same DH key. -/
def other : PairingRecord := ⟨"other", .replicate 32 9, confirm.phoneDhPub, 1600000000, none⟩

theorem oneLink {store : PairingsDb}
    (hsent : sentFrames (runPairing answering limits fresh store).1.trace = [ackFrame]) :
    OneLink answering limits fresh store device where
  delivers timeout link h := by
    cases h
    rw [hsent]
    exact List.prefix_rfl
  reads written bytes read hwrite hread := by
    -- the only Ack the PC can write is the one the phone reads
    by_cases hack : written = ack
    · have hbytes : bytes = [0] := by
        rw [hack] at hwrite
        exact (Except.ok.inj hwrite).symm
      rw [hbytes] at hread
      exact (Except.ok.inj hread).symm.trans hack.symm
    · have herror : answering.intoWriter (.pairingAck written) = .error "another" := if_neg hack
      rw [herror] at hwrite
      cases hwrite

theorem device_saves : (device.pair "" []).wrote =
    some ⟨pcIdPub, .replicate 32 5, "desk", 1700000003, none⟩ := by decide +kernel

end Sample

/-- On an empty store nothing is refused, and the phone is found. -/
theorem saved_pairing_is_stored :
    Holds (runPairing Sample.answering Sample.limits Sample.fresh []).1.store
      Sample.confirm.phoneIdPub Sample.confirm.phoneDhPub := by
  obtain ⟨link, nonce, confirm, -, -, -, -, ⟨-, hholds⟩ | ⟨hkept, -⟩⟩ := saved_pairing_is_answered
    Sample.answering Sample.limits Sample.fresh [] Sample.device "" []
    (Sample.oneLink (by decide +kernel)) rfl Sample.device_saves
  · exact hholds
  · have hstored : (runPairing Sample.answering Sample.limits Sample.fresh []).1.store ≠ [] := by
      decide +kernel
    exact absurd hkept hstored

/-- Another phone's row has the DH key: the Ack is out before the row is refused, so the
phone has saved a PC that does not know it. -/
theorem refused_phone_has_saved :
    OneLink Sample.answering Sample.limits Sample.fresh [Sample.other] Sample.device ∧
      (Sample.device.pair "" []).wrote ≠ none ∧
      ¬ Holds (runPairing Sample.answering Sample.limits Sample.fresh [Sample.other]).1.store
        Sample.confirm.phoneIdPub Sample.confirm.phoneDhPub := by
  refine ⟨Sample.oneLink (by decide +kernel), ?_, ?_⟩
  · rw [Sample.device_saves]
    exact Option.some_ne_none _
  · have hkept : (runPairing Sample.answering Sample.limits Sample.fresh [Sample.other]).1.store =
        [Sample.other] := by decide +kernel
    rw [hkept]
    rintro ⟨row, hrow, hid, -⟩
    rw [List.mem_singleton] at hrow
    subst hrow
    exact absurd hid (by decide)

end Conveyance.Pairing
