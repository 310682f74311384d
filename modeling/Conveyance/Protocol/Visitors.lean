import Conveyance.Crypto.Hex
import Conveyance.Lib.Reader
import Conveyance.Lib.Text

/-!
# Visitors (conveyance-protocol, message.rs; conveyance-pairing, messages.rs)

The deserializers that are written by hand: request ids, and the signatures of the two
crates. Each is asked for whatever the input holds at its field (`deserialize_any`), so
it is given a byte string, a text, a sequence or something else.

Request ids and wire signatures decode a text octet by octet. Pairing signatures slice
it, two bytes at a time, and a slice that ends inside a character panics.
-/

namespace Conveyance.Protocol

open Lib Crypto

/-- What stands at a field of the input. -/
inductive Content where
  | bytes (b : Bytes)
  | text (s : String)
  | seq (items : List Content)
  | int (n : Int)
  /-- Anything no visitor here takes: a map, a float, a boolean, null. -/
  | other

/-- Fixed-length octets, one more in front. -/
def consOctets {n : Nat} (b : UInt8) (rest : Octets n) : Octets (n + 1) :=
  ⟨b :: rest.1, congrArg (· + 1) rest.2⟩

def tryFrom (n : Nat) (b : Bytes) : Option (Octets n) :=
  if h : b.length = n then some ⟨b, h⟩ else none

/-! ## Request ids and wire signatures -/

/-- A visitor that takes lowercase hex or raw bytes, `n` of them. -/
def hexOrRaw (n : Nat) (malformed length expecting : String) : Content → Except String (Octets n)
  | .text s =>
    match hexDecode s with
    | none => .error malformed
    | some raw => (tryFrom n raw).elim (.error length) .ok
  | .bytes b => (tryFrom n b).elim (.error length) .ok
  | _ => .error ("invalid type, expected " ++ expecting)

def ReqId.visitor : Content → Except String (Octets 16) :=
  hexOrRaw 16 "req_id hex malformed" "req_id must be 16 bytes"
    "a 128-bit req_id (hex string or 16-byte buffer)"

/-- `signature_serde` of conveyance-protocol. -/
def signatureVisitor : Content → Except String (Octets 64) :=
  hexOrRaw 64 "signature hex malformed" "signature must be 64 bytes"
    "a 64-byte Ed25519 signature (hex or raw)"

/-! ## Pairing signatures -/

def radixDigit (b : UInt8) : Option UInt8 :=
  if 48 ≤ b.toNat ∧ b.toNat ≤ 57 then some (b - 48)
  else if 97 ≤ b.toNat ∧ b.toNat ≤ 102 then some (b - 97 + 10)
  else if 65 ≤ b.toNat ∧ b.toNat ≤ 70 then some (b - 65 + 10)
  else none

/-- `u8::from_str_radix(_, 16)` of two bytes: a leading plus sign is skipped. -/
def fromStrRadix : Bytes → Option UInt8
  | [hi, lo] =>
    if hi = 43 then radixDigit lo
    else do
      let h ← radixDigit hi
      let l ← radixDigit lo
      some (h <<< 4 ||| l)
  | _ => none

/-- The loop of `visit_str`, at `index` with `left` octets to go. -/
def hexPairs (utf8 : Bytes) : (left index : Nat) → Except (Fault String) (Octets left)
  | 0, _ => .ok ⟨[], rfl⟩
  | left + 1, index =>
    match sliceStr utf8 (index * 2) (index * 2 + 2) with
    | .error e => .error e
    | .ok pair =>
      match fromStrRadix pair with
      | none => .error (.err "invalid digit found in string")
      | some byte =>
        match hexPairs utf8 left (index + 1) with
        | .error e => .error e
        | .ok rest => .ok (consOctets byte rest)

/-- `next_element::<u8>()`. -/
def Content.toU8 : Content → Option UInt8
  | .int n => if 0 ≤ n ∧ n < 256 then some (UInt8.ofNat n.toNat) else none
  | _ => none

/-- The loop of `visit_seq`, and the check that nothing follows. -/
def seqOctets : (left : Nat) → List Content → Except String (Octets left)
  | 0, [] => .ok ⟨[], rfl⟩
  | 0, _ :: _ => .error "invalid length"
  | _ + 1, [] => .error "invalid length"
  | left + 1, item :: items =>
    match item.toU8 with
    | none => .error "invalid type"
    | some byte => (seqOctets left items).map (consOctets byte)

/-- `signature_serde` of conveyance-pairing. -/
def pairingSignatureVisitor : Content → Except (Fault String) (Octets 64)
  | .bytes b => (tryFrom 64 b).elim (.error (.err "signature must be 64 bytes")) .ok
  | .seq items => (seqOctets 64 items).mapError .err
  | .text s =>
    let utf8 := s.toUTF8.data.toList
    if utf8.length ≠ 128 then .error (.err "signature must be 64 bytes") else hexPairs utf8 64 0
  | _ => .error (.err "invalid type, expected a 64-byte Ed25519 signature")

/-! ## Asking -/

/-- A visitor is given the content of its field. -/
inductive Question where
  | reqId (c : Content)
  | signature (c : Content)
  | pairingSignature (c : Content)

def Question.Answer : Question → Type
  | .reqId _ => Octets 16
  | .signature _ => Octets 64
  | .pairingSignature _ => Octets 64

def visit : (q : Question) → Except (Fault String) q.Answer
  | .reqId c => (ReqId.visitor c).mapError .err
  | .signature c => (signatureVisitor c).mapError .err
  | .pairingSignature c => pairingSignatureVisitor c

/-! ## Where it panics -/

/-- The text has the length of a signature, and the first two bytes of it that are not
read as an octet end inside a character. -/
def CutsCharacter (s : String) : Prop :=
  s.toUTF8.data.toList.length = 128 ∧ ∃ index < 64,
    (∀ j < index, ∃ byte, fromStrRadix ((s.toUTF8.data.toList.drop (j * 2)).take 2) = some byte) ∧
    isCharBoundary s.toUTF8.data.toList (index * 2 + 2) = false

/-- The first place with `Q`, before which all have `P`: here, or further on. -/
theorem exists_first_succ {P Q : Nat → Prop} {left start : Nat} :
    (∃ i < left + 1, (∀ j < i, P (start + j)) ∧ Q (start + i)) ↔
      Q start ∨ (P start ∧ ∃ i < left, (∀ j < i, P (start + 1 + j)) ∧ Q (start + 1 + i)) := by
  constructor
  · rintro ⟨i, hi, hP, hQ⟩
    cases i with
    | zero => exact .inl hQ
    | succ i =>
      refine .inr ⟨hP 0 (Nat.succ_pos _), i, by omega, fun j hj => ?_, ?_⟩
      · rw [Nat.add_right_comm]
        exact hP (j + 1) (by omega)
      · rw [Nat.add_right_comm]
        exact hQ
  · rintro (hQ | ⟨hP, i, hi, hlater, hQ⟩)
    · exact ⟨0, Nat.succ_pos _, fun _ hj => absurd hj (Nat.not_lt_zero _), hQ⟩
    · refine ⟨i + 1, by omega, fun j hj => ?_, ?_⟩
      · cases j with
        | zero => exact hP
        | succ j =>
          have hj := hlater j (by omega)
          rwa [Nat.add_right_comm] at hj
      · rwa [Nat.add_right_comm] at hQ

/-- The loop panics at the first pair that ends inside a character, if it gets there. -/
theorem hexPairs_panic {utf8 : Bytes} (left start : Nat)
    (hstart : isCharBoundary utf8 (start * 2) = true) :
    hexPairs utf8 left start = .error .panic ↔ ∃ index < left,
      (∀ j < index, ∃ byte, fromStrRadix ((utf8.drop ((start + j) * 2)).take 2) = some byte) ∧
      isCharBoundary utf8 ((start + index) * 2 + 2) = false := by
  induction left generalizing start with
  | zero =>
    refine ⟨fun h => ?_, fun ⟨_, hlt, _⟩ => absurd hlt (Nat.not_lt_zero _)⟩
    cases h
  | succ left ih =>
    rw [@exists_first_succ
      (fun i => ∃ byte, fromStrRadix ((utf8.drop (i * 2)).take 2) = some byte)
      (fun i => isCharBoundary utf8 (i * 2 + 2) = false)]
    by_cases hstop : isCharBoundary utf8 (start * 2 + 2) = true
    · have hcut : ¬ isCharBoundary utf8 (start * 2 + 2) = false := by simp [hstop]
      rw [or_iff_right hcut, ← ih (start + 1) (by rwa [Nat.add_one_mul])]
      cases hpair : fromStrRadix ((utf8.drop (start * 2)).take 2) with
      | none => simp [hexPairs, sliceStr_two hstart, hstop, hpair]
      | some byte =>
        cases hrest : hexPairs utf8 left (start + 1) with
        | error | ok => simp [hexPairs, sliceStr_two hstart, hstop, hpair, hrest]
    · simp [hexPairs, sliceStr_two hstart, hstop]

theorem pairingSignatureVisitor_panic (c : Content) :
    pairingSignatureVisitor c = .error .panic ↔ ∃ s, c = .text s ∧ CutsCharacter s := by
  cases c with
  | text s =>
    have hsame : (∃ s', Content.text s = .text s' ∧ CutsCharacter s') ↔ CutsCharacter s := by simp
    rw [hsame, CutsCharacter, pairingSignatureVisitor]
    by_cases hlen : s.toUTF8.data.toList.length = 128
    · rw [if_neg (not_not_intro hlen), hexPairs_panic 64 0 rfl, and_iff_right hlen]
      simp only [Nat.zero_add]
    · rw [if_pos hlen]
      refine ⟨fun h => ?_, fun h => absurd h.1 hlen⟩
      cases h
  | bytes b =>
    rw [pairingSignatureVisitor]
    cases tryFrom 64 b <;> simp
  | seq items =>
    have hpanic := mapError_ne_panic (f := .err) (fun e => by simp) (seqOctets 64 items)
    simp [pairingSignatureVisitor, hpanic]
  | int | other => simp [pairingSignatureVisitor]

/-- **Only a pairing signature panics**, and only at a text whose first bad pair ends
inside a character. -/
theorem visit_panic (q : Question) :
    visit q = .error .panic ↔ ∃ s, q = .pairingSignature (.text s) ∧ CutsCharacter s := by
  cases q with
  | reqId c =>
    refine ⟨fun h => absurd h (mapError_ne_panic (by simp) (ReqId.visitor c)), fun ⟨_, h, _⟩ => ?_⟩
    cases h
  | signature c =>
    refine ⟨fun h => absurd h (mapError_ne_panic (by simp) (signatureVisitor c)),
      fun ⟨_, h, _⟩ => ?_⟩
    cases h
  | pairingSignature c =>
    simp only [Question.pairingSignature.injEq]
    exact pairingSignatureVisitor_panic c

end Conveyance.Protocol
