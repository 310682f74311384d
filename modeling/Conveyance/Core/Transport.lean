import Conveyance.Lib.Bytes
import Conveyance.Core.Session

/-!
# The Noise transport (conveyance-noise, lib.rs)

Sealing one transport message. `TransportState::write_message` is snow's and a parameter. What
is known of it are the fields of `Cipher`: a message that is too long with its tag is refused,
and before the last nonce any other is sealed where there is room for it, a tag longer.
-/

namespace Conveyance.Core

open Lib

/-- `MAX_MESSAGE`: the largest Noise message. -/
def maxMessage : Nat := 65535

def tagLen : Nat := 16

/-- The `u64` nonce that is never used. -/
def lastNonce : Nat := 2 ^ 64 - 1

/-- snow's transport in one direction, under one key. -/
structure Cipher where
  /-- `write_message` under a nonce, into a buffer of so many bytes; an error is its text. -/
  writeMessage : (nonce : Nat) → (payload : Bytes) → (room : Nat) → Except String Bytes
  size_limit : ∀ nonce payload room, maxMessage < payload.length + tagLen →
    ∃ e, writeMessage nonce payload room = .error e
  seals : ∀ nonce payload room, nonce < lastNonce → payload.length + tagLen ≤ maxMessage →
    payload.length + tagLen ≤ room →
    ∃ sealed, writeMessage nonce payload room = .ok sealed ∧
      sealed.length = payload.length + tagLen

inductive NoiseError where
  | handshakeFailed
  | sessionEnded
deriving DecidableEq

def SessionTransport.send (cipher : Cipher) (nonce : Nat) (plaintext : Bytes) :
    Except NoiseError Bytes :=
  (cipher.writeMessage nonce plaintext (plaintext.length + tagLen)).mapError fun _ => .sessionEnded

/-- Before the last nonce, size alone decides. -/
theorem SessionTransport.send_sealed (cipher : Cipher) {nonce : Nat} (hnonce : nonce < lastNonce)
    {plaintext : Bytes} (hlen : plaintext.length + tagLen ≤ maxMessage) :
    ∃ ciphertext, SessionTransport.send cipher nonce plaintext = .ok ciphertext ∧
      ciphertext.length = plaintext.length + tagLen := by
  obtain ⟨ciphertext, hsealed, hlength⟩ :=
    cipher.seals nonce plaintext (plaintext.length + tagLen) hnonce hlen (Nat.le_refl _)
  exact ⟨ciphertext, by rw [SessionTransport.send, hsealed]; rfl, hlength⟩

theorem SessionTransport.send_refused (cipher : Cipher) (nonce : Nat) {plaintext : Bytes}
    (hlong : ¬ plaintext.length + tagLen ≤ maxMessage) :
    SessionTransport.send cipher nonce plaintext = .error .sessionEnded := by
  obtain ⟨e, hrefused⟩ := cipher.size_limit nonce plaintext (plaintext.length + tagLen)
    (Nat.lt_of_not_le hlong)
  rw [SessionTransport.send, hrefused]
  rfl

/-- A cipher that seals with an empty tag. -/
def plainCipher : Cipher where
  writeMessage _ payload _ :=
    if payload.length + tagLen ≤ maxMessage then .ok (payload ++ List.replicate tagLen 0)
    else .error "too long"
  size_limit _ _ _ hlong := ⟨"too long", if_neg (Nat.not_le_of_lt hlong)⟩
  seals _ _ _ _ hlen _ := ⟨_, if_pos hlen, by simp⟩

end Conveyance.Core
