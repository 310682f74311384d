import Conveyance.Protocol.Message

/-!
# Errors a caller can see (conveyance-core, error.rs; conveyance-daemon, session.rs)

The table of named codes, and the shape an operation of the session owner fails
with.
-/

namespace Conveyance.Daemon

open Lib

inductive ConveyanceError where
  | noSession
  | phoneUnreachable
  | approvalDenied
  | approvalTimeout
  | sessionEnded
  | handshakeFailed
  | peerIdentityMismatch
  | phoneNotPaired
  | signatureVerificationFailed
  | approvalMismatch
  | serviceUnknown
  | messageTooLarge
  | keychainUnavailable
deriving DecidableEq

def ConveyanceError.message : ConveyanceError → String
  | .noSession => "No active Conveyance session. User must start one on the paired phone."
  | .phoneUnreachable => "Could not reach the paired phone to establish a session."
  | .approvalDenied => "The request was denied on the phone."
  | .approvalTimeout => "No approval decision arrived within the approval window."
  | .sessionEnded => "The session ended while the request was in flight."
  | .handshakeFailed => "Session handshake failed."
  | .peerIdentityMismatch =>
    "Peer identity does not match the stored pairing. Re-pairing is required."
  | .phoneNotPaired => "No paired phone. Run `conveyance pair` first."
  | .signatureVerificationFailed => "A signed response from the phone could not be verified."
  | .approvalMismatch => "Executed payload does not match the approved payload."
  | .serviceUnknown => "No credentials are stored for the requested service."
  | .messageTooLarge => "Message exceeded the reassembly buffer limit."
  | .keychainUnavailable =>
    "The OS keychain is unavailable; Conveyance refuses to fall back silently."

def ConveyanceError.code : ConveyanceError → String
  | .noSession => "conveyance/no_session"
  | .phoneUnreachable => "conveyance/phone_unreachable"
  | .approvalDenied => "conveyance/approval_denied"
  | .approvalTimeout => "conveyance/approval_timeout"
  | .sessionEnded => "conveyance/session_ended"
  | .handshakeFailed => "conveyance/handshake_failed"
  | .peerIdentityMismatch => "conveyance/peer_identity_mismatch"
  | .phoneNotPaired => "conveyance/phone_not_paired"
  | .signatureVerificationFailed => "conveyance/signature_verification_failed"
  | .approvalMismatch => "conveyance/approval_mismatch"
  | .serviceUnknown => "conveyance/service_unknown"
  | .messageTooLarge => "conveyance/message_too_large"
  | .keychainUnavailable => "conveyance/keychain_unavailable"

def ConveyanceError.retryable : ConveyanceError → Bool
  | .noSession => true
  | .phoneUnreachable => true
  | .approvalTimeout => true
  | .sessionEnded => true
  | _ => false

structure OpError where
  code : String
  message : String
  retryable : Bool
deriving DecidableEq

namespace OpError

def fromCore (e : ConveyanceError) : OpError := ⟨e.code, e.message, e.retryable⟩

def phoneUnreachable (context : String) : OpError :=
  ⟨"conveyance/phone_unreachable",
    "Could not reach the paired phone to establish a session (" ++ context ++ ").", true⟩

def handshakeFailed : OpError :=
  ⟨"conveyance/handshake_failed", "Session handshake failed.", false⟩

def noPairing : OpError := fromCore .phoneNotPaired

def internal (context : String) : OpError := ⟨"conveyance/internal", context, false⟩

def busy : OpError :=
  ⟨"conveyance/internal", "another request is awaiting the phone; retry shortly", true⟩

end OpError

/-- The answers the session owner gives to a routed request. -/
inductive IpcResponse where
  | services (names : List String)
  | body (value : Json.Value)

end Conveyance.Daemon
