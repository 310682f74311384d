import Conveyance.Daemon.Refinement
import Conveyance.Protocol.Codec

/-!
# Inbound plaintexts and the strict decoder (conveyance-daemon, session.rs)

`on_chunk` reads every decrypted plaintext with ciborium's reader alone. The
shared `decode` runs the same reader between its own checks: the size limit, the
structural preflight and the canonical domain. So the owner takes more plaintexts
for messages than `decode` does, and ends the session on fewer.
-/

namespace Conveyance.Daemon

open Lib Lib.Cbor Conveyance.Core Protocol Wire

/-- The owner's reader is the decoder's; only whether it failed is kept. -/
def Env.ReadsWith (env : Env) (reader : Bytes → Except String WireMessage) : Prop :=
  ∀ bytes, env.fromReader bytes = (reader bytes).toOption

/-- The message loop of `on_chunk` in front of a message that decrypts in a live session. -/
structure Opened (env : Env) where
  world : World
  parts : ActiveParts
  message : Bytes
  /-- Those that completed on the same chunk. -/
  messages : List Bytes
  opened : ActiveParts
  plaintext : Bytes
  opens : receive env parts message = some (opened, plaintext)

namespace Opened

variable {env : Env} {reader : Bytes → Except String WireMessage}

def result (o : Opened env) : World × ActiveParts × Bool :=
  onMessages env o.world o.parts (o.message :: o.messages)

/-- The owner takes the plaintext for `m`. -/
def Interprets (o : Opened env) (m : WireMessage) : Prop :=
  o.world.trace ++ [.received o.opened.session.sid m] <+: o.result.1.trace

/-- The plaintext ends the session for a protocol violation, and nothing else happens. -/
def Violates (o : Opened env) : Prop :=
  o.result = ((teardown env o.world o.opened .protocolViolation).1,
    (teardown env o.world o.opened .protocolViolation).2, true)

structure Agrees (o : Opened env) (reader : Bytes → Except String WireMessage) : Prop where
  interprets : ∀ m, o.Interprets m ↔ decode reader o.plaintext = .ok m
  violates : ∀ e, decode reader o.plaintext = .error e → o.Violates

/-! ## What the owner makes of a plaintext -/

variable {o : Opened env} {w : World} {p : ActiveParts} {m : WireMessage}

theorem result_of_ended
    (h : onPlaintext env o.world o.opened (env.fromReader o.plaintext) = (w, p, true)) :
    o.result = (w, p, true) := by
  rw [result, onMessages, o.opens]
  simp only [h]

theorem result_of_handled
    (h : onPlaintext env o.world o.opened (env.fromReader o.plaintext) = (w, p, false)) :
    o.result = onMessages env w p o.messages := by
  rw [result, onMessages, o.opens]
  simp only [h]

/-- A plaintext that cannot be read completes no request. -/
theorem onPlaintext_none (w : World) (p : ActiveParts) :
    onPlaintext env w p none =
      ((teardown env w p .protocolViolation).1, (teardown env w p .protocolViolation).2, true) := by
  have hnobody : tryCompleteRoute env w p none = none := by
    unfold tryCompleteRoute
    cases p.inFlight <;> rfl
  rw [onPlaintext_eq, Option.elim_none, hnobody]
  rfl

theorem violates_of_unread (h : env.fromReader o.plaintext = none) : o.Violates :=
  result_of_ended (by rw [h, onPlaintext_none])

theorem onMessages_trace_grows (w : World) (p : ActiveParts) (messages : List Bytes) :
    w.trace <+: (onMessages env w p messages).1.trace :=
  ((onMessages_path env w p messages).reaches fun _ _ => trivial).invariant (w.trace <+: ·.trace)
    List.prefix_rfl fun _ _ _ (_ : True) hσ hmove => hσ.trans hmove.trace_grows

theorem interprets_of_read (h : env.fromReader o.plaintext = some m) : o.Interprets m := by
  have hnotes := onPlaintext_notes env o.world o.opened m
  rw [← h] at hnotes
  rcases hplain : onPlaintext env o.world o.opened (env.fromReader o.plaintext) with ⟨w, p, _ | _⟩
  · rw [hplain] at hnotes
    rw [Interprets, result_of_handled hplain]
    exact hnotes.trans (onMessages_trace_grows w p o.messages)
  · rw [hplain] at hnotes
    rwa [Interprets, result_of_ended hplain]

/-- A teardown says nothing of a message. -/
theorem Violates.not_interprets (h : o.Violates) (m : WireMessage) : ¬ o.Interprets m := by
  intro hinterprets
  have htrace : (teardown env o.world o.opened .protocolViolation).1.trace =
      o.world.trace ++ (endedReplies o.opened ++ World.nextRow env
        { o.world with trace := o.world.trace ++ endedReplies o.opened } lifecycleReqId
        "session_end" (r#"{"reason":""# ++ EndReason.protocolViolation.asStr ++ r#""}"#)) :=
    List.append_assoc _ _ _
  rw [Interprets, h, htrace, List.prefix_append_right_inj] at hinterprets
  have hmem := hinterprets.subset (List.mem_singleton_self _)
  rcases List.mem_append.mp hmem with hmem | hmem
  · simp [endedReplies, endedReply] at hmem
  · unfold World.nextRow at hmem
    split_ifs at hmem <;> simp at hmem

/-- **The owner interprets what the reader reads, and nothing else.** -/
theorem interprets_iff : o.Interprets m ↔ env.fromReader o.plaintext = some m := by
  refine ⟨fun h => ?_, interprets_of_read⟩
  cases hread : env.fromReader o.plaintext with
  | none => exact absurd h ((violates_of_unread hread).not_interprets m)
  | some m' =>
    -- both stand at the same place of one trace
    have hsame := List.prefix_of_prefix_length_le h (interprets_of_read hread) (by simp)
    have heq := (List.prefix_append_right_inj _).mp hsame
    cases (List.cons_prefix_cons.mp heq).1
    rfl

end Opened

/-! ## Where the decoder agrees -/

/-- The plaintext of a message is in the language of `decode`: one item of the restricted grammar
and nothing behind it, within the size limit, and no double in its parameters or body. -/
structure Conforms (plaintext : Bytes) (m : WireMessage) : Prop where
  size : plaintext.length ≤ maxWireMessageBytes
  grammar : ∃ t : Tree, t.bytes = plaintext ∧ t.WellFormed ∧ t.Strict ∧
    t.height ≤ maxCborNestingDepth
  domain : ∀ v ∈ m.payload, ¬ v.1.HasFloat

theorem validateSemantics_ok {m : WireMessage} :
    validateSemantics m = .ok () ↔ ∀ v ∈ m.payload, ¬ v.1.HasFloat := by
  cases m with
  | approvalRequest m =>
    simpa [WireMessage.payload, validateSemantics, ApprovalRequest.validate] using
      ensureCanonicalDomain_ok m.params.1 "params"
  | executeRequest m =>
    simpa [WireMessage.payload, validateSemantics, ExecuteRequest.validate] using
      ensureCanonicalDomain_ok m.params.1 "params"
  | executeResponse m =>
    simpa [WireMessage.payload, validateSemantics] using ensureCanonicalDomain_ok m.body.1 "body"
  | _ => simp [WireMessage.payload, validateSemantics]

theorem decode_eq_ok_iff_conforms {reader : Bytes → Except String WireMessage} {plaintext : Bytes}
    {m : WireMessage} :
    decode reader plaintext = .ok m ↔ reader plaintext = .ok m ∧ Conforms plaintext m := by
  rw [decode_eq_ok]
  constructor
  · rintro ⟨hlen, hscan, hread, hvalid⟩
    obtain ⟨t, hbytes, hgood⟩ := (scanCbor_ok_iff (lt_usizeLimit hlen)).mp hscan
    exact ⟨hread, hlen, ⟨t, hbytes, good_iff.mp hgood⟩, validateSemantics_ok.mp hvalid⟩
  · rintro ⟨hread, hlen, ⟨t, hbytes, hgood⟩, hdomain⟩
    have hscan := (scanCbor_ok_iff (lt_usizeLimit hlen)).mpr ⟨t, hbytes, good_iff.mpr hgood⟩
    exact ⟨hlen, hscan, hread, validateSemantics_ok.mpr hdomain⟩

/-- **The plaintexts on which the owner and the strict decoder agree**: those the reader cannot
read, and those that conform. -/
theorem inbound_agrees_with_decoder (env : Env) (reader : Bytes → Except String WireMessage)
    (henv : env.ReadsWith reader) (o : Opened env) :
    o.Agrees reader ↔ ∀ m, reader o.plaintext = .ok m → Conforms o.plaintext m := by
  have hread : ∀ m, env.fromReader o.plaintext = some m ↔ reader o.plaintext = .ok m := by
    intro m
    rw [henv]
    cases reader o.plaintext <;> simp [Except.toOption]
  constructor
  · intro hagrees m hm
    have hinterprets := Opened.interprets_of_read ((hread m).mpr hm)
    exact (decode_eq_ok_iff_conforms.mp ((hagrees.interprets m).mp hinterprets)).2
  · intro hconforms
    constructor
    · intro m
      rw [Opened.interprets_iff, hread, decode_eq_ok_iff_conforms]
      exact ⟨fun hm => ⟨hm, hconforms m hm⟩, fun h => h.1⟩
    · intro e he
      refine Opened.violates_of_unread (Option.eq_none_iff_forall_ne_some.mpr fun m hm => ?_)
      have hm := (hread m).mp hm
      rw [decode_eq_ok_iff_conforms.mpr ⟨hm, hconforms m hm⟩] at he
      cases he

namespace Bench

/-- Ciborium reads the item in front and leaves the rest. -/
def readFront (heard : List WireMessage) (bytes : Bytes) : Except String WireMessage :=
  match heard.find? fun m => (write m.item).isPrefixOf bytes with
  | some m => .ok m
  | none => .error "unexpected end of file"

def frontEnv (heard : List WireMessage) : Env :=
  { env [] [] with fromReader := fun bytes => (readFront heard bytes).toOption }

def ping : WireMessage := .ping (reqId 1) 1700000000

/-- A ping, with something behind it. -/
def pinged (rest : Bytes) : Opened (frontEnv [ping]) where
  world := .init
  parts := freshParts
  message := write ping.item ++ rest ++ List.replicate 16 0
  messages := []
  opened := { freshParts with session := { freshParts.session with received := 1 } }
  plaintext := write ping.item ++ rest
  opens := by
    have htext : decrypt (write ping.item ++ rest ++ List.replicate 16 0) =
        some (write ping.item ++ rest) := by
      rw [decrypt, List.length_append, List.length_replicate, if_pos (Nat.le_add_left _ _),
        Nat.add_sub_cancel, List.take_left]
    have hlive : freshParts.session.isLive = true := rfl
    rw [receive, if_pos hlive]
    exact congrArg (Option.map _) htext

end Bench

/-- The decoder refuses a ping with a byte behind it; the owner answers the ping, and its session
goes on. -/
theorem trailing_byte_is_no_violation :
    decode (Bench.readFront [Bench.ping]) (Bench.pinged [0]).plaintext =
      .error (.err .trailingData) ∧
    (Bench.pinged [0]).Interprets Bench.ping ∧ ¬ (Bench.pinged [0]).Violates := by
  have hping : (Bench.pinged [0]).Interprets Bench.ping := Opened.interprets_of_read (by rfl)
  have hscan : scanCbor (Bench.pinged [0]).plaintext = .error (.err .trailingData) := by
    decide +kernel
  exact ⟨decode_of_scan_error _ (by decide) hscan, hping, fun h => h.not_interprets _ hping⟩

/-- On the bare ping the two agree. -/
theorem bare_ping_agrees :
    (Bench.pinged []).Agrees (Bench.readFront [Bench.ping]) ∧
      decode (Bench.readFront [Bench.ping]) (Bench.pinged []).plaintext = .ok Bench.ping := by
  have hread : Bench.readFront [Bench.ping] (Bench.pinged []).plaintext = .ok Bench.ping := by rfl
  have hlen : (Bench.pinged []).plaintext.length ≤ maxWireMessageBytes := by decide
  have hscan : scanCbor (Bench.pinged []).plaintext = .ok () := by decide +kernel
  have hdecode := (decode_eq_ok _).mpr ⟨hlen, hscan, hread, rfl⟩
  refine ⟨(inbound_agrees_with_decoder _ _ (fun _ => rfl) (Bench.pinged [])).mpr fun m hm => ?_,
    hdecode⟩
  rw [hread] at hm
  cases hm
  exact (decode_eq_ok_iff_conforms.mp hdecode).2

end Conveyance.Daemon
