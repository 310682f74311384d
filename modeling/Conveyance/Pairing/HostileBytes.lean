import Conveyance.Pairing.Messages
import Conveyance.Protocol.Codec
import Conveyance.Storage.PhoneExport

/-!
# Hostile bytes

What a peer can do to the decoders with the bytes it sends. CBOR is read by ciborium,
which calls the visitors of the messages back (`Lib.Reading`); the reader does not panic
and the visitors are the source's own.

The wire decoder runs the preflight first, so it reads only what passes it. Its pairing
messages are those of conveyance-pairing, with the visitor that slices.
-/

namespace Conveyance.Pairing

open Lib Crypto Protocol Storage

/-- No pairing signature of the reading is a text that is cut inside a character. -/
def NeverCuts {α : Type} (reading : Reading Question Question.Answer String α) : Prop :=
  reading.Asks visit fun q => ∀ s, q = .pairingSignature (.text s) → ¬ CutsCharacter s

theorem run_ne_panic {α : Type} (reading : Reading Question Question.Answer String α) :
    reading.run visit ≠ .error .panic ↔ NeverCuts reading := by
  have hvisit : ∀ q : Question, visit q ≠ .error .panic ↔
      ∀ s, q = .pairingSignature (.text s) → ¬ CutsCharacter s := by
    intro q
    rw [Ne, visit_panic, not_exists]
    exact forall_congr' fun s => not_and
  rw [Reading.run_panic]
  exact ⟨.mono fun q => (hvisit q).mp, .mono fun q => (hvisit q).mpr⟩

/-! ## The wire decoder -/

section Wire

variable (reader : Bytes → Reading Question Question.Answer String WireMessage)

variable (bytes : Bytes)

/-- From the reader on, with its visitors. -/
def readVisited : Except (Fault ProtocolError) WireMessage :=
  match (reader bytes).run visit with
  | .error .panic => .error .panic
  | .error (.err text) => .error (.err (mapDecodeError text))
  | .ok message => ((validateSemantics message).mapError .err).map fun _ => message

/-- `wire::decode`, with its visitors. -/
def decodeVisited : Except (Fault ProtocolError) WireMessage :=
  if maxWireMessageBytes < bytes.length then .error (.err .messageTooLarge)
  else do
    scanCbor bytes
    readVisited reader bytes

/-- What the reader and its visitors make of the bytes. -/
def visited : Except String WireMessage :=
  match (reader bytes).run visit with
  | .error .panic => .error "panic"
  | .error (.err text) => .error text
  | .ok message => .ok message

/-- Without a panic, the visitors are part of the reader. -/
theorem decodeVisited_eq (hpanic : NeverCuts (reader bytes)) :
    decodeVisited reader bytes = decode (visited reader) bytes := by
  have hread : readVisited reader bytes =
      (decodeScanned (visited reader) bytes).mapError .err := by
    unfold readVisited decodeScanned visited
    rw [← run_ne_panic] at hpanic
    rcases hrun : (reader bytes).run visit with (text | _) | message
    · rfl
    · exact absurd hrun hpanic
    · change ((validateSemantics message).mapError Fault.err).map (fun _ => message) =
        (validateSemantics message >>= fun _ => Except.ok message).mapError Fault.err
      cases validateSemantics message <;> rfl
  rw [decodeVisited, decode, hread]

theorem readVisited_panic :
    ¬ NeverCuts (reader bytes) ↔ readVisited reader bytes = .error .panic := by
  unfold readVisited
  rw [← run_ne_panic, not_not]
  rcases hrun : (reader bytes).run visit with (text | _) | message
  · simp
  · simp
  · dsimp only
    cases validateSemantics message <;> simp [Except.mapError, Except.map]

theorem decodeVisited_panic :
    bytes.length ≤ maxWireMessageBytes ∧ scanCbor bytes = .ok () ∧ ¬ NeverCuts (reader bytes) ↔
      decodeVisited reader bytes = .error .panic := by
  unfold decodeVisited
  split_ifs with hlen
  · exact iff_of_false (fun h => absurd hlen (Nat.not_lt_of_le h.1)) (by simp)
  · rw [and_iff_right (Nat.le_of_not_lt hlen)]
    cases hscan : scanCbor bytes with
    | error e =>
      refine iff_of_false (by simp) fun h => scanCbor_ne_panic bytes ?_
      rw [hscan]
      exact congrArg Except.error (Except.error.inj h)
    | ok _ =>
      rw [and_iff_right rfl]
      exact readVisited_panic reader bytes

end Wire

/-! ## Pairing messages -/

section Messages

variable (reader : Bytes → Reading Question Question.Answer String (PairingWireMessage × Nat))

variable (bytes : Bytes)

theorem decodeMessage_panic :
    bytes.length ≤ maxPairingMessageBytes ∧ ¬ NeverCuts (reader bytes) ↔
      decodeMessage reader bytes = .error .panic := by
  unfold decodeMessage
  split_ifs with hlen
  · exact iff_of_false (fun h => absurd hlen (Nat.not_lt_of_le h.1)) (by simp)
  · rw [and_iff_right (Nat.le_of_not_lt hlen), ← run_ne_panic, not_not]
    rcases hrun : (reader bytes).run visit with (text | _) | ⟨message, position⟩
    · simp
    · simp
    · dsimp only
      split_ifs <;> simp

theorem decodeConfirmMessage_panic :
    bytes.length ≤ maxPairingMessageBytes ∧ ¬ NeverCuts (reader bytes) ↔
      decodeConfirmMessage reader bytes = .error .panic := by
  rw [decodeMessage_panic, decodeConfirmMessage]
  rcases decodeMessage reader bytes with e | (confirm | ack) <;> simp

theorem decodeAckMessage_panic :
    bytes.length ≤ maxPairingMessageBytes ∧ ¬ NeverCuts (reader bytes) ↔
      decodeAckMessage reader bytes = .error .panic := by
  rw [decodeMessage_panic, decodeAckMessage]
  rcases decodeMessage reader bytes with e | (confirm | ack) <;> simp

end Messages

/-! ## All five decoders -/

/-- **Hostile bytes crash a decoder exactly through a pairing signature that is cut inside
a character.** The parser of exports never panics, and the QR parser has no way to. The
wire decoder panics only at bytes that pass its checks, and the two pairing decoders at
bytes that are not too long; then the reading of the bytes hands the pairing visitor a
text of 128 bytes whose first bad pair ends inside a character. -/
theorem decoders_panic_only_at_cut_text
    (wireReader : Bytes → Reading Question Question.Answer String WireMessage)
    (pairingReader : Bytes → Reading Question Question.Answer String (PairingWireMessage × Nat))
    (readRow : String → Except String RawPhoneRow) (parsesKey : Octets 32 → Bool)
    (probe : Octets 32 → Octets 32) (base64 : String → Option Bytes)
    (readValue : Bytes → Option (Value × Nat)) (readQr : Bytes → Option (PairingQr × Nat))
    (bytes : Bytes) (text : String) (now : Int64) :
    (decodeVisited wireReader bytes ≠ .error .panic ∧
        decodeConfirmMessage pairingReader bytes ≠ .error .panic ∧
        decodeAckMessage pairingReader bytes ≠ .error .panic ∧
        parsePhoneExport readRow text ≠ .error .panic ∧
        (PairingQr.parse parsesKey probe base64 readValue readQr text now).mapError Fault.err ≠
          .error .panic) ↔
      (bytes.length ≤ maxWireMessageBytes → scanCbor bytes = .ok () →
          NeverCuts (wireReader bytes)) ∧
        (bytes.length ≤ maxPairingMessageBytes → NeverCuts (pairingReader bytes)) := by
  rw [Ne, Ne, Ne, ← decodeVisited_panic, ← decodeConfirmMessage_panic, ← decodeAckMessage_panic]
  simp only [not_and, not_not]
  constructor
  · rintro ⟨hwire, hconfirm, -⟩
    exact ⟨hwire, hconfirm⟩
  · rintro ⟨hwire, hpairing⟩
    exact ⟨hwire, hpairing, hpairing, parsePhoneExport_ne_panic text,
      mapError_ne_panic (by simp) _⟩

namespace Sample

/-- 128 bytes; the second character takes the second and the third. -/
def cutText : String := "aé" ++ String.ofList (List.replicate 125 '0')

/-- A confirm with a text for its signature. -/
def hostile : Bytes := Cbor.write (.map [("type", .text "pairing_confirm"),
  ("phone_id_pub", octetsItem (.replicate 32 1)), ("phone_dh_pub", octetsItem (.replicate 32 2)),
  ("signature", .text cutText)])

/-- The reader of that confirm: the visitor is given its text. -/
def hostileReading {α : Type} (message : PairingConfirm → α) :
    Reading Question Question.Answer String α :=
  .ask (.pairingSignature (.text cutText)) fun signature =>
    .done (.ok (message ⟨.replicate 32 1, .replicate 32 2, signature⟩))

def wireReader (bytes : Bytes) : Reading Question Question.Answer String WireMessage :=
  if bytes = hostile then hostileReading .pairingConfirm else .done (.error "no message")

def pairingReader (bytes : Bytes) :
    Reading Question Question.Answer String (PairingWireMessage × Nat) :=
  if bytes = hostile then hostileReading fun confirm => (.pairingConfirm confirm, bytes.length)
  else .done (.error "no message")

theorem cutText_cuts : CutsCharacter cutText := by
  refine ⟨by decide +kernel, 0, by decide, fun j hj => absurd hj (Nat.not_lt_zero j), ?_⟩
  decide +kernel

theorem hostileReading_cuts {α : Type} (message : PairingConfirm → α) :
    ¬ NeverCuts (hostileReading message) := fun h => h.1 cutText rfl cutText_cuts

end Sample

/-- A confirm whose signature is a text with a two-byte character at an odd place. -/
theorem cut_signature_panics :
    decodeVisited Sample.wireReader Sample.hostile = .error .panic ∧
      decodeConfirmMessage Sample.pairingReader Sample.hostile = .error .panic ∧
      decodeAckMessage Sample.pairingReader Sample.hostile = .error .panic := by
  have hwire : ¬ NeverCuts (Sample.wireReader Sample.hostile) := by
    rw [Sample.wireReader, if_pos rfl]
    exact Sample.hostileReading_cuts _
  have hpairing : ¬ NeverCuts (Sample.pairingReader Sample.hostile) := by
    rw [Sample.pairingReader, if_pos rfl]
    exact Sample.hostileReading_cuts _
  have hshort : Sample.hostile.length ≤ maxPairingMessageBytes := by decide +kernel
  have hscan : Sample.hostile.length ≤ maxWireMessageBytes ∧ scanCbor Sample.hostile = .ok () := by
    decide +kernel
  rw [← decodeVisited_panic, ← decodeConfirmMessage_panic, ← decodeAckMessage_panic]
  exact ⟨⟨hscan.1, hscan.2, hwire⟩, ⟨hshort, hpairing⟩, ⟨hshort, hpairing⟩⟩

end Conveyance.Pairing
