import Conveyance.Protocol.Message
import Conveyance.Protocol.Visitors

/-!
# Pairing messages (conveyance-pairing, messages.rs and qr.rs)

The two messages of the ceremony, the bytes their signatures cover, and the QR payload
the phone scans. Ed25519, X25519, base64 and the CBOR reader are parameters; the reader
calls the signature visitor back (`Lib.Reading`).
-/

namespace Conveyance.Pairing

open Lib Crypto Protocol

/-- `PairingError` of conveyance-pairing. -/
inductive SharedError where
  | pairingFailed
  | qrExpired
  | versionMismatch (found expected : UInt16)
  | pcNameTooLong (length : Nat)
  | qrEncode (text : String)
  | qrCorrupt
deriving DecidableEq

/-! ## Signatures -/

def pairContext : Bytes := "conveyance-pair-v1".toUTF8.data.toList

/-- What both signatures of the ceremony cover, without separators. -/
def pairingPayload (pcIdPub nonce phoneIdPub phoneDhPub : Octets 32) : Bytes :=
  pairContext ++ pcIdPub.1 ++ nonce.1 ++ phoneIdPub.1 ++ phoneDhPub.1

/-- `PairingConfirm::verify`. -/
def verifyConfirm (verify : Octets 32 → Bytes → Octets 64 → Bool) (confirm : PairingConfirm)
    (phonePublic pcIdPub nonce : Octets 32) : Except SharedError Unit :=
  if verify phonePublic (pairingPayload pcIdPub nonce confirm.phoneIdPub confirm.phoneDhPub)
      confirm.signature then .ok ()
  else .error .pairingFailed

/-- `PairingAck::sign`, with the identity key's signing function. -/
def signAck (sign : Bytes → Octets 64) (nonce pcIdPub phoneIdPub phoneDhPub : Octets 32) :
    PairingAck :=
  ⟨nonce, pcIdPub, phoneIdPub, phoneDhPub,
    sign (pairingPayload pcIdPub nonce phoneIdPub phoneDhPub)⟩

/-! ## Decoding -/

def maxPairingMessageBytes : Nat := 4096

inductive PairingWireMessage where
  | pairingConfirm (confirm : PairingConfirm)
  | pairingAck (ack : PairingAck)

section Decoding

-- ciborium on a cursor: what it reads, and the position it leaves
variable (reader : Bytes → Reading Question Question.Answer String (PairingWireMessage × Nat))

def decodeMessage (bytes : Bytes) : Except (Fault SharedError) PairingWireMessage :=
  if maxPairingMessageBytes < bytes.length then .error (.err .pairingFailed)
  else
    match (reader bytes).run visit with
    | .error .panic => .error .panic
    | .error (.err _) => .error (.err .pairingFailed)
    | .ok (message, position) =>
      if position ≠ bytes.length then .error (.err .pairingFailed) else .ok message

def decodeConfirmMessage (bytes : Bytes) : Except (Fault SharedError) PairingConfirm :=
  match decodeMessage reader bytes with
  | .error e => .error e
  | .ok (.pairingConfirm confirm) => .ok confirm
  | .ok (.pairingAck _) => .error (.err .pairingFailed)

def decodeAckMessage (bytes : Bytes) : Except (Fault SharedError) PairingAck :=
  match decodeMessage reader bytes with
  | .error e => .error e
  | .ok (.pairingAck ack) => .ok ack
  | .ok (.pairingConfirm _) => .error (.err .pairingFailed)

end Decoding

/-! ## The QR payload -/

def protocolVersion : UInt16 := 1

/-- Seconds. -/
def qrTtl : Int64 := 60

def pcNameMaxBytes : Nat := 64

def maxEncodedQrBytes : Nat := 4096

def maxQrFutureSkewSeconds : Int64 := 120

def serviceUuidBytes : Octets 16 :=
  ⟨[0x70, 0x90, 0x31, 0xfe, 0xab, 0xea, 0x43, 0x7f, 0x80, 0x1e, 0xdc, 0x68, 0x72, 0x72, 0x3b, 0x1f],
    rfl⟩

structure PairingQr where
  version : UInt16
  pcIdPub : Octets 32
  pcDhPub : Octets 32
  nonce : Octets 32
  expires : Int64
  pcName : String
  bleServiceUuid : Octets 16
deriving DecidableEq

def checkedAdd (a b : Int64) : Option Int64 :=
  if Int64.minValue.toInt ≤ a.toInt + b.toInt ∧ a.toInt + b.toInt ≤ Int64.maxValue.toInt then
    some (a + b)
  else none

/-- `i64::saturating_sub`. -/
def saturatingSub (a b : Int64) : Int64 :=
  if a.toInt - b.toInt < Int64.minValue.toInt then Int64.minValue
  else if Int64.maxValue.toInt < a.toInt - b.toInt then Int64.maxValue
  else a - b

section Qr

-- the keys that parse, and the shared secret of the probe key with a DH key
variable (parsesKey : Octets 32 → Bool) (probe : Octets 32 → Octets 32)

def PairingQr.isExpired (qr : PairingQr) (now : Int64) : Bool := qr.expires ≤ now

def PairingQr.validateFields (qr : PairingQr) (now : Int64) (checkExpiry : Bool) :
    Except SharedError Unit :=
  if pcNameMaxBytes < qr.pcName.utf8ByteSize ∨ qr.bleServiceUuid ≠ serviceUuidBytes ∨
      qr.nonce.1.all (· = 0) then .error .pairingFailed
  else if ¬ parsesKey qr.pcIdPub then .error .pairingFailed
  -- a low-order point gives an all-zero secret
  else if (probe qr.pcDhPub).1.all (· = 0) then .error .pairingFailed
  else if checkExpiry then
    if qr.isExpired now then .error .qrExpired
    else if maxQrFutureSkewSeconds < saturatingSub qr.expires now then .error .pairingFailed
    else .ok ()
  else .ok ()

def PairingQr.new (now : Int64) (pcIdPub pcDhPub nonce : Octets 32) (pcName : String)
    (serviceUuid : Octets 16) : Except SharedError PairingQr :=
  if pcNameMaxBytes < pcName.utf8ByteSize then .error (.pcNameTooLong pcName.utf8ByteSize)
  else
    match checkedAdd now qrTtl with
    | none => .error .pairingFailed
    | some expires =>
      let qr : PairingQr := ⟨protocolVersion, pcIdPub, pcDhPub, nonce, expires, pcName, serviceUuid⟩
      (qr.validateFields parsesKey probe now false).map fun _ => qr

/-- `ciborium::value::Value`. -/
inductive Value where
  | integer (n : Int)
  | bytes (b : Bytes)
  | float (bits : UInt64)
  | text (s : String)
  | bool (b : Bool)
  | null
  | tag (number : UInt64) (value : Value)
  | array (items : List Value)
  | map (entries : List (Value × Value))

/-- `u16::try_from`. -/
def toU16 (n : Int) : Option UInt16 :=
  if 0 ≤ n ∧ n < 65536 then some (UInt16.ofNat n.toNat) else none

/-- The version a field gives. -/
def fieldVersion : Value × Value → Option UInt16
  | (.text key, .integer version) => if key = "v" then toU16 version else none
  | _ => none

-- base64url without padding, and ciborium for a value and for the payload
variable (base64 : String → Option Bytes) (readValue : Bytes → Option (Value × Nat))
  (readQr : Bytes → Option (PairingQr × Nat))

/-- The version field, read before the payload's shape is. -/
def decodeVersion (cbor : Bytes) : Option UInt16 :=
  match readValue cbor with
  | some (.map fields, position) =>
    if position ≠ cbor.length then none else fields.findSome? fieldVersion
  | _ => none

/-- `PairingQr::parse` from the CBOR bytes on. -/
def PairingQr.parseCbor (cbor : Bytes) (now : Int64) : Except SharedError PairingQr :=
  if maxEncodedQrBytes < cbor.length then .error .qrCorrupt
  else
    match (decodeVersion readValue cbor).filter (· ≠ protocolVersion) with
    | some found => .error (.versionMismatch found protocolVersion)
    | none =>
      match readQr cbor with
      | none => .error .qrCorrupt
      | some (qr, position) =>
        if position ≠ cbor.length then .error .qrCorrupt
        else if qr.version ≠ protocolVersion then
          .error (.versionMismatch qr.version protocolVersion)
        else (qr.validateFields parsesKey probe now true).map fun _ => qr

def PairingQr.parse (encoded : String) (now : Int64) : Except SharedError PairingQr :=
  if maxEncodedQrBytes < encoded.utf8ByteSize then .error .qrCorrupt
  else
    match base64 (trim encoded) with
    | none => .error .qrCorrupt
    | some cbor => PairingQr.parseCbor parsesKey probe readValue readQr cbor now

end Qr

end Conveyance.Pairing
