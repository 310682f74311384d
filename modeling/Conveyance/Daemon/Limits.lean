import Conveyance.Core.SessionObject
import Conveyance.Daemon.Refinement
import Conveyance.Protocol.Codec

/-!
# Size limits along the way out (conveyance-core, session/mod.rs; conveyance-daemon, session.rs)

Three layers bound the size of an outgoing message on their own: `encode` at the
reassembly cap, Noise at 65535 bytes with the tag, and the frame header at its
16-bit length. The last never binds behind the second. The first is wider than the
second, and `start_route` takes Noise's refusal for a lost link.
-/

namespace Conveyance.Daemon

open Lib Conveyance.Core Protocol Wire

/-! ## Sending through the session -/

/-- `Session::send` under the session's key. -/
def sessionSend (cipher : Cipher) (s : Session) (plaintext : Bytes) :
    Except ConveyanceError (Bytes × Session) :=
  if s.isLive then do
    let ciphertext ←
      (SessionTransport.send cipher s.sent plaintext).mapError NoiseError.toConveyanceError
    .ok (ciphertext, { s with sent := s.sent + 1 })
  else .error .noSession

/-- What the owner's environment does to a text is what the transport does. -/
def Env.SealsWith (env : Env) (ciphers : Nat → Cipher) : Prop :=
  ∀ sid nonce text,
    env.encrypt sid nonce text = (SessionTransport.send (ciphers sid) nonce text).toOption

theorem sessionSend_sealed (cipher : Cipher) {s : Session} (hlive : s.isLive = true)
    (hnonce : s.sent < lastNonce) {plaintext : Bytes}
    (hlen : plaintext.length + tagLen ≤ maxMessage) :
    ∃ ciphertext, sessionSend cipher s plaintext = .ok (ciphertext, { s with sent := s.sent + 1 }) ∧
      ciphertext.length = plaintext.length + tagLen := by
  obtain ⟨ciphertext, hsend, hlength⟩ := SessionTransport.send_sealed cipher hnonce hlen
  exact ⟨ciphertext, by rw [sessionSend, if_pos hlive, hsend]; rfl, hlength⟩

theorem sessionSend_refused (cipher : Cipher) {s : Session} (hlive : s.isLive = true)
    {plaintext : Bytes} (hlong : ¬ plaintext.length + tagLen ≤ maxMessage) :
    sessionSend cipher s plaintext = .error .sessionEnded := by
  rw [sessionSend, if_pos hlive, SessionTransport.send_refused cipher _ hlong]
  rfl

/-- **Encrypting and framing succeed exactly up to the Noise limit.** -/
theorem send_and_split_iff (cipher : Cipher) {s : Session} (hlive : s.isLive = true)
    (hnonce : s.sent < lastNonce) {maxPayload : Nat} (hpos : 1 ≤ maxPayload) (start : UInt16)
    (plaintext : Bytes) :
    (∃ ciphertext s' frames next, sessionSend cipher s plaintext = .ok (ciphertext, s') ∧
      splitMessage ciphertext maxPayload start = .ok (frames, next)) ↔
        plaintext.length + tagLen ≤ maxMessage := by
  constructor
  · rintro ⟨ciphertext, s', frames, next, hsend, -⟩
    by_contra hlong
    rw [sessionSend_refused cipher hlive hlong] at hsend
    cases hsend
  · intro hlen
    obtain ⟨ciphertext, hsend, hlength⟩ := sessionSend_sealed cipher hlive hnonce hlen
    obtain ⟨frames, next, hsplit⟩ := splitMessage_ok start hpos (hlength.trans_le hlen)
    exact ⟨_, _, frames, next, hsend, hsplit⟩

/-! ## Sending from the owner -/

section Owner

variable {env : Env} {ciphers : Nat → Cipher}

/-- A session that nothing but a message can fail: the link takes every frame. -/
structure Healthy (env : Env) (p : ActiveParts) : Prop where
  live : p.session.isLive = true
  nonce : p.session.sent < lastNonce
  writes : 1 ≤ p.link.maxWriteLen
  takes : ∀ n frame, env.linkSend n frame = true

theorem sendFrames_taken (htakes : ∀ n frame, env.linkSend n frame = true) (w : World)
    (frames : List Bytes) : (sendFrames env w frames).2 = true := by
  induction frames generalizing w with
  | nil => rfl
  | cons frame frames ih =>
    rw [sendFrames, if_pos (htakes _ _)]
    exact ih _

theorem encrypt_sealed (henv : env.SealsWith ciphers) {nonce : Nat} (hnonce : nonce < lastNonce)
    (sid : Nat) {plaintext : Bytes} (hlen : plaintext.length + tagLen ≤ maxMessage) :
    ∃ ciphertext, env.encrypt sid nonce plaintext = some ciphertext ∧
      ciphertext.length ≤ maxMessage := by
  obtain ⟨ciphertext, hsend, hlength⟩ := SessionTransport.send_sealed (ciphers sid) hnonce hlen
  exact ⟨ciphertext, by rw [henv, hsend]; rfl, hlength.trans_le hlen⟩

theorem encrypt_refused (henv : env.SealsWith ciphers) (sid nonce : Nat) {plaintext : Bytes}
    (hlong : ¬ plaintext.length + tagLen ≤ maxMessage) :
    env.encrypt sid nonce plaintext = none := by
  rw [henv, SessionTransport.send_refused _ _ hlong]
  rfl

/-- A healthy session sends what fits, and stays live in any case. -/
theorem transmit_healthy (henv : env.SealsWith ciphers) (w : World) {p : ActiveParts}
    (hp : Healthy env p) (plaintext : Bytes) :
    (transmit env w p plaintext).2.1.session.isLive = true ∧
      ((transmit env w p plaintext).2.2 = true ↔ plaintext.length + tagLen ≤ maxMessage) := by
  rw [transmit, if_pos hp.live]
  by_cases hlen : plaintext.length + tagLen ≤ maxMessage
  · obtain ⟨ciphertext, hsealed, hlength⟩ := encrypt_sealed henv hp.nonce p.session.sid hlen
    obtain ⟨frames, next, hsplit⟩ := splitMessage_ok p.txSeq hp.writes hlength
    simp only [hsealed, hsplit, sendFrames_taken hp.takes]
    exact ⟨hp.live, by simp [hlen]⟩
  · simp only [encrypt_refused henv p.session.sid p.session.sent hlen]
    exact ⟨hp.live, by simp [hlen]⟩

/-- The first half of `start_route`, where nothing in it fails. -/
theorem prepare_opens {w : World} {ch : Nat} {reqId : ReqId} {service method endpoint : String}
    {params : Json.Value} {requestedBy : Option String} {approval : ApprovalRequest} {bytes : Bytes}
    (hdraw : env.entropy w.draws = some reqId)
    (hnew : ApprovalRequest.new reqId .authenticatedRequest service method endpoint params
      requestedBy (env.unixNow w.ticks) = .ok approval)
    (henc : encode env.intoWriter (.approvalRequest approval) = .ok bytes) :
    (prepare env w (.authenticatedRequest service method endpoint params requestedBy) ch).2 =
      .ok ⟨reqId, .approvalRequest approval, bytes, .approval, some approval⟩ := by
  have hnew' : ApprovalRequest.new reqId .authenticatedRequest service method endpoint params
      requestedBy (env.unixNow
        (({ w with draws := w.draws + 1 } : World).emit (.assigned ch reqId)).ticks) =
          .ok approval :=
    hnew
  unfold prepare
  simp only [hdraw, hnew', henc]

/-- **Sending or not decides over the session.** -/
theorem startRoute_isLive (w : World) (ch : Nat) (henv : env.SealsWith ciphers)
    {p : ActiveParts} (hp : Healthy env p) {op : RoutedOp} {opening : Prepared}
    (hopen : (prepare env (w.emit (.started ch)) op ch).2 = .ok opening) :
    (startRoute env w p op ch).2.session.isLive = true ↔
      opening.bytes.length + tagLen ≤ maxMessage := by
  obtain ⟨w', hprepare⟩ : ∃ w', prepare env (w.emit (.started ch)) op ch = (w', .ok opening) :=
    ⟨_, Prod.ext rfl hopen⟩
  obtain ⟨hlive, hsent⟩ := transmit_healthy henv w' hp opening.bytes
  rw [startRoute, hprepare, ← hsent]
  simp only [sendOverSession]
  rcases htransmit : transmit env w' p opening.bytes with ⟨w'', p', _ | _⟩
  · -- the refusal tears the session down
    simp only [teardown, Session.endFor_isLive]
  · simp only [install, Session.onActivity_isLive]
    rw [htransmit] at hlive
    simpa using hlive

end Owner

/-- **Which encodable messages can be sent.** On every session that is live, with a nonce left and
a link that takes at least a byte a frame, what `encode` returned is encrypted and framed exactly
if it fits a Noise message with its tag. In the daemon a routed request that encodes leaves a
healthy session live exactly under the same bound. -/
theorem encodable_messages_send (env : Env) (ciphers : Nat → Cipher)
    (henv : env.SealsWith ciphers) :
    (∀ m bytes, encode env.intoWriter m = .ok bytes → ∀ (s : Session) (maxPayload : Nat)
      (start : UInt16), s.isLive = true → s.sent < lastNonce → 1 ≤ maxPayload →
      ((∃ ciphertext s' frames next,
        sessionSend (ciphers s.sid) s bytes = .ok (ciphertext, s') ∧
          splitMessage ciphertext maxPayload start = .ok (frames, next)) ↔
        bytes.length + tagLen ≤ maxMessage)) ∧
    (∀ w p ch reqId service method endpoint params requestedBy approval bytes,
      Healthy env p → env.entropy w.draws = some reqId →
      ApprovalRequest.new reqId .authenticatedRequest service method endpoint params requestedBy
        (env.unixNow w.ticks) = .ok approval →
      encode env.intoWriter (.approvalRequest approval) = .ok bytes →
      ((startRoute env w p (.authenticatedRequest service method endpoint params requestedBy)
        ch).2.session.isLive = true ↔ bytes.length + tagLen ≤ maxMessage)) := by
  constructor
  · intro m bytes _ s maxPayload start hlive hnonce hpos
    exact send_and_split_iff _ hlive hnonce hpos start bytes
  · intro w p ch reqId service method endpoint params requestedBy approval bytes hp hdraw hnew henc
    have hdraw' : env.entropy (w.emit (.started ch)).draws = some reqId := hdraw
    have hnew' : ApprovalRequest.new reqId .authenticatedRequest service method endpoint params
        requestedBy (env.unixNow (w.emit (.started ch)).ticks) = .ok approval := hnew
    exact startRoute_isLive w ch henv hp (prepare_opens hdraw' hnew' henc)

/-! ## A request between the two limits -/

/-- So many nulls in an array. -/
def nulls (n : Nat) : Json.Value :=
  ⟨.array (List.replicate n .null), Json.orderedItems_iff.mpr fun x hx => by
    rw [List.eq_of_mem_replicate hx]
    trivial⟩

theorem nulls_canonical (n : Nat) : ensureCanonicalDomain (nulls n).1 "params" = .ok () := by
  refine ensureItems_ok.mpr fun x hx => ?_
  rw [List.eq_of_mem_replicate hx]
  rfl

theorem length_writeItems_nulls (n : Nat) :
    (Cbor.writeItems (jsonItems (List.replicate n .null))).length = n := by
  induction n with
  | zero => rfl
  | succ n ih =>
    rw [List.replicate_succ, jsonItems, Cbor.writeItems, List.length_append, ih, Nat.add_comm]
    rfl

theorem length_write_nulls (n : Nat) :
    (Cbor.write (jsonItem (nulls n).1)).length = (Cbor.head 4 n).length + n := by
  show (Cbor.write (.array (jsonItems (List.replicate n .null)))).length = _
  rw [Cbor.write, List.length_append, length_writeItems_nulls, jsonItems_eq_map, List.length_map,
    List.length_replicate]

namespace Bench

def nullRequest (n : Nat) : ApprovalRequest :=
  ⟨reqId 1, .authenticatedRequest, "github", "GET", "/user", nulls n, none, 1700000000⟩

theorem sealsWith (ids : List ReqId) (heard : List WireMessage) :
    (env ids heard).SealsWith fun _ => plainCipher := by
  intro sid nonce text
  show (if text.length + 16 ≤ 65535 then some (text ++ List.replicate 16 0) else none) =
    ((if text.length + 16 ≤ 65535 then _ else _ : Except String Bytes).mapError _).toOption
  split_ifs <;> rfl

theorem healthy_freshParts (ids : List ReqId) (heard : List WireMessage) :
    Healthy (env ids heard) freshParts :=
  ⟨rfl, by decide, by decide, fun _ _ => rfl⟩

/-- The item of such a request, with other parameters. -/
def itemWith (params : Cbor.Item) : Cbor.Item :=
  .map ([("type", .text "approval_request"), (reqId 1).entry,
    ("op_type", .text "authenticated_request"), ("service", .text "github"),
    ("method", .text "GET"), ("endpoint", .text "/user")] ++
    ("params", params) :: [("timestamp", Cbor.ofInt64 1700000000)])

theorem length_nullRequest (n : Nat) :
    (Cbor.write (WireMessage.approvalRequest (nullRequest n)).item).length =
      140 + (Cbor.head 4 n).length + n := by
  have hvalue : (Cbor.write (itemWith (jsonItem (nulls n).1))).length + (Cbor.write .null).length =
      (Cbor.write (itemWith .null)).length + (Cbor.write (jsonItem (nulls n).1)).length :=
    Cbor.length_write_map _ _ _ _ _
  have hnull : (Cbor.write (itemWith .null)).length = 141 := by decide +kernel
  have hone : (Cbor.write .null).length = 1 := rfl
  have hitem : (WireMessage.approvalRequest (nullRequest n)).item =
    itemWith (jsonItem (nulls n).1) := rfl
  rw [length_write_nulls, hnull, hone, ← hitem] at hvalue
  omega

theorem nullRequest_encodes {n : Nat} (hn : n ≤ 130000) :
    encode WireMessage.intoWriter (.approvalRequest (nullRequest n)) =
      .ok (Cbor.write (WireMessage.approvalRequest (nullRequest n)).item) := by
  refine encode_eq_ok.mpr ⟨nulls_canonical n, rfl, ?_⟩
  rw [length_nullRequest]
  have hhead : (Cbor.head 4 n).length ≤ 9 := by
    unfold Cbor.head
    split_ifs <;> simp [Cbor.bigEndian_length]
  show _ ≤ 131072
  omega

theorem startRoute_nullRequest {n : Nat} (hn : n ≤ 130000) :
    (startRoute (env [reqId 1] []) .init freshParts
      (.authenticatedRequest "github" "GET" "/user" (nulls n) none) 0).2.session.isLive = true ↔
        140 + (Cbor.head 4 n).length + n + tagLen ≤ maxMessage := by
  have hnew : ApprovalRequest.new (reqId 1) .authenticatedRequest "github" "GET" "/user"
      (nulls n) none 1700000000 = .ok (nullRequest n) := by
    rw [ApprovalRequest.new, nulls_canonical]
    rfl
  rw [← length_nullRequest]
  exact startRoute_isLive .init 0 (sealsWith [reqId 1] []) (healthy_freshParts _ _)
    (prepare_opens rfl hnew (nullRequest_encodes hn))

end Bench

/-- 65500 nulls encode to 65643 bytes, well below the cap of `encode`: the session that is asked to
send them refuses, and the owner drops a session that has nothing wrong with it. -/
theorem bulky_request_ends_healthy_session :
    ∃ bytes,
      encode WireMessage.intoWriter (.approvalRequest (Bench.nullRequest 65500)) = .ok bytes ∧
      sessionSend plainCipher (.establish 0) bytes = .error .sessionEnded ∧
      Healthy (Bench.env [Bench.reqId 1] []) Bench.freshParts ∧
      ¬ (startRoute (Bench.env [Bench.reqId 1] []) .init Bench.freshParts
        (.authenticatedRequest "github" "GET" "/user" (nulls 65500) none) 0).2.session.isLive =
          true := by
  have hlong : ¬ 140 + (Cbor.head 4 65500).length + 65500 + tagLen ≤ maxMessage := by decide
  refine ⟨_, Bench.nullRequest_encodes (by decide), ?_, Bench.healthy_freshParts _ _, ?_⟩
  · exact sessionSend_refused _ rfl (by rwa [Bench.length_nullRequest])
  · rw [Bench.startRoute_nullRequest (by decide)]
    exact hlong

/-- Ten nulls are sent, and the session goes on. -/
theorem small_request_keeps_session :
    let env := Bench.env [Bench.reqId 1] []
    (∃ ciphertext s' frames next,
      sessionSend plainCipher (.establish 0)
        (Cbor.write (WireMessage.approvalRequest (Bench.nullRequest 10)).item) =
          .ok (ciphertext, s') ∧
        splitMessage ciphertext 1 0 = .ok (frames, next)) ∧
    (startRoute env .init Bench.freshParts
      (.authenticatedRequest "github" "GET" "/user" (nulls 10) none) 0).2.session.isLive =
        true := by
  intro env
  obtain ⟨hsend, hroute⟩ := encodable_messages_send env (fun _ => plainCipher)
    (Bench.sealsWith _ _)
  have henc : encode env.intoWriter (.approvalRequest (Bench.nullRequest 10)) = .ok _ :=
    Bench.nullRequest_encodes (by decide)
  have hfits : (Cbor.write (WireMessage.approvalRequest (Bench.nullRequest 10)).item).length +
      tagLen ≤ maxMessage := by
    rw [Bench.length_nullRequest]
    decide
  exact ⟨(hsend _ _ henc (.establish 0) 1 0 rfl (by decide) (by decide)).mpr hfits,
    (hroute .init Bench.freshParts 0 _ _ _ _ _ _ _ _ (Bench.healthy_freshParts _ _) rfl rfl
      henc).mpr hfits⟩

end Conveyance.Daemon
