import Conveyance.Lib.Bytes

/-!
# The identity file

The model of `IdentityContainer.kt`: the two layouts of `identity.enc`. A legacy
file (version 1) holds the wrapped content key and the sealed identity; a version 2
file names its authentication method and carries the generation that ties it to a
credential migration.

`decode_of_encode` and `encode_of_decode`: reading and writing are inverse to each
other, on the containers that can be encoded and the files that are read.
-/

namespace Conveyance.Phone

open Lib

/-- The exceptions of the identity vault and of the credential migration. -/
inductive VaultError where
  | identityCorrupt (message : String)
  | identityInvalidated
  | identityUnlockFailed
  | authMethodMismatch
  | credentialWrapMigration (message : String)
  /-- `require` -/
  | illegalArgument (message : String)
  /-- `SQLiteConstraintException` -/
  | constraint
deriving DecidableEq

def require (condition : Prop) [Decidable condition] (message : String) : Except VaultError Unit :=
  if condition then .ok () else .error (.illegalArgument message)

def requireNotNull {α : Type} (value : Option α) (message : String) : Except VaultError α :=
  match value with
  | some a => .ok a
  | none => .error (.illegalArgument message)

section

variable {α β : Type} {message : String}

theorem require_bind {condition : Prop} [Decidable condition] {f : Unit → Except VaultError β}
    {b : β} : (require condition message >>= f) = .ok b ↔ condition ∧ f () = .ok b := by
  rw [require]
  split_ifs with h
  · exact (and_iff_right h).symm
  · constructor
    · intro h'
      cases h'
    · intro h'
      exact absurd h'.1 h

theorem requireNotNull_bind {value : Option α} {f : α → Except VaultError β} {b : β} :
    (requireNotNull value message >>= f) = .ok b ↔ ∃ a, value = some a ∧ f a = .ok b := by
  cases value with
  | none =>
    constructor
    · intro h
      cases h
    · rintro ⟨a, ha, -⟩
      cases ha
  | some a =>
    constructor
    · intro h
      exact ⟨a, rfl, h⟩
    · rintro ⟨a', ha, h⟩
      cases ha
      exact h

end

inductive Tier1AuthMethod where
  | biometric
  | passphrase
deriving DecidableEq

namespace Tier1AuthMethod

def wireTag : Tier1AuthMethod → UInt8
  | biometric => 1
  | passphrase => 2

/-- `Enum.name`. -/
def name : Tier1AuthMethod → String
  | biometric => "BIOMETRIC"
  | passphrase => "PASSPHRASE"

def fromWireTag (tag : UInt8) : Except VaultError Tier1AuthMethod :=
  if tag = 1 then .ok biometric
  else if tag = 2 then .ok passphrase
  else .error (.identityCorrupt "unsupported Tier 1 auth method")

theorem fromWireTag_wireTag (method : Tier1AuthMethod) :
    fromWireTag method.wireTag = .ok method := by
  cases method <;> rfl

theorem wireTag_of_fromWireTag {tag : UInt8} {method : Tier1AuthMethod}
    (h : fromWireTag tag = .ok method) : method.wireTag = tag := by
  rw [fromWireTag] at h
  split_ifs at h with hbiometric hpassphrase
  · cases h
    exact hbiometric.symm
  · cases h
    exact hpassphrase.symm

end Tier1AuthMethod

structure IdentityContainer where
  wrappedContentKey : Bytes
  sealedBlob : Bytes
  /-- `null` only in the legacy format. -/
  authMethod : Option Tier1AuthMethod
  salt : Option Bytes
  nonce : Option Bytes
  generation : Option Bytes
  version : UInt8
deriving DecidableEq

namespace IdentityContainer

def magic : Bytes := [0x43, 0x56, 0x49, 0x44]

def legacyVersion : UInt8 := 1
def currentVersion : UInt8 := 2

def generationLen : Nat := 16
def saltLen : Nat := 16
def nonceLen : Nat := 12
def aesGcmWrappedKeyLen : Nat := 32 + 16 + 12
def aeadWrappedKeyLen : Nat := 32 + 16

/-! ## Writing -/

section

variable (c : IdentityContainer)

def encodeLegacy : Except VaultError Bytes := do
  require (c.authMethod = none ∧ c.salt = none ∧ c.nonce = none ∧ c.generation = none)
    "legacy identity container cannot carry v2 fields"
  require (1 ≤ c.wrappedContentKey.length ∧ c.wrappedContentKey.length ≤ 0xFFFF)
    "wrapped key length out of range"
  return magic ++ [legacyVersion] ++ u16ToBe (UInt16.ofNat c.wrappedContentKey.length) ++
    c.wrappedContentKey ++ c.sealedBlob

/-- The `payload` of a version 2 file, by method. -/
def envelope : Tier1AuthMethod → Except VaultError Bytes
  | .biometric => do
    require (c.salt = none ∧ c.nonce = none) "biometric envelope cannot carry passphrase fields"
    require (c.wrappedContentKey.length = aesGcmWrappedKeyLen) "invalid biometric envelope length"
    return c.wrappedContentKey
  | .passphrase => do
    let kdfSalt ← requireNotNull c.salt "passphrase envelope needs a salt"
    let aeadNonce ← requireNotNull c.nonce "passphrase envelope needs a nonce"
    require (kdfSalt.length = saltLen) "salt must be 16 bytes"
    require (aeadNonce.length = nonceLen) "nonce must be 12 bytes"
    require (c.wrappedContentKey.length = aeadWrappedKeyLen) "invalid passphrase envelope length"
    return kdfSalt ++ aeadNonce ++ c.wrappedContentKey

def encodeV2 : Except VaultError Bytes := do
  let method ← requireNotNull c.authMethod "v2 identity container needs an auth method"
  let id ← requireNotNull c.generation "v2 identity container needs a generation"
  require (id.length = generationLen) "generation must be 16 bytes"
  let payload ← c.envelope method
  require (payload.length ≤ 0xFFFF) "auth envelope length out of range"
  return magic ++ [currentVersion] ++ [method.wireTag] ++ id ++
    u16ToBe (UInt16.ofNat payload.length) ++ payload ++ c.sealedBlob

def encode : Except VaultError Bytes := do
  require (c.sealedBlob ≠ []) "sealed blob is empty"
  if c.version = legacyVersion then c.encodeLegacy
  else if c.version = currentVersion then c.encodeV2
  else .error (.illegalArgument
    ("unsupported identity container version " ++ toString c.version.toInt8.toInt))

end

/-! ## Reading -/

/-- `decodeLegacy`, from behind the version. -/
def decodeLegacy : Bytes → Except VaultError IdentityContainer
  | hi :: lo :: rest =>
    let wrappedLen := (u16OfBe hi lo).toNat
    if wrappedLen = 0 ∨ rest.length ≤ wrappedLen then
      .error (.identityCorrupt "identity.enc length fields inconsistent")
    else
      .ok ⟨rest.take wrappedLen, rest.drop wrappedLen, none, none, none, none, legacyVersion⟩
  | _ => .error (.identityCorrupt "identity.enc truncated")

/-- The container of a version 2 file whose parts have been cut out. -/
def ofEnvelope (method : Tier1AuthMethod) (generation payload blob : Bytes) :
    Except VaultError IdentityContainer :=
  match method with
  | .biometric =>
    if payload.length ≠ aesGcmWrappedKeyLen then
      .error (.identityCorrupt "invalid biometric envelope length")
    else .ok ⟨payload, blob, some method, none, none, some generation, currentVersion⟩
  | .passphrase =>
    if payload.length ≠ saltLen + nonceLen + aeadWrappedKeyLen then
      .error (.identityCorrupt "invalid passphrase envelope length")
    else
      .ok ⟨payload.drop (saltLen + nonceLen), blob, some method, some (payload.take saltLen),
        some ((payload.drop saltLen).take nonceLen), some generation, currentVersion⟩

/-- What follows the generation: the length of the envelope, the envelope, the sealed identity. -/
def decodeEnvelope (method : Tier1AuthMethod) (generation : Bytes) :
    Bytes → Except VaultError IdentityContainer
  | hi :: lo :: rest =>
    let payloadLen := (u16OfBe hi lo).toNat
    if rest.length ≤ payloadLen then
      .error (.identityCorrupt "identity.enc v2 length fields inconsistent")
    else ofEnvelope method generation (rest.take payloadLen) (rest.drop payloadLen)
  | _ => .error (.identityCorrupt "identity.enc v2 header truncated")

/-- `decodeV2`, from behind the version. -/
def decodeV2 (buf : Bytes) : Except VaultError IdentityContainer :=
  if buf.length < 1 + generationLen + 2 then
    .error (.identityCorrupt "identity.enc v2 header truncated")
  else
    match buf with
    | tag :: rest => do
      let method ← Tier1AuthMethod.fromWireTag tag
      decodeEnvelope method (rest.take generationLen) (rest.drop generationLen)
    | [] => .error (.identityCorrupt "identity.enc v2 header truncated")

def decode (bytes : Bytes) : Except VaultError IdentityContainer :=
  if bytes.length < 5 then .error (.identityCorrupt "identity.enc truncated")
  else if bytes.take 4 ≠ magic then .error (.identityCorrupt "bad magic")
  else
    match bytes.drop 4 with
    | version :: buf =>
      if version = legacyVersion then decodeLegacy buf
      else if version = currentVersion then decodeV2 buf
      else .error (.identityCorrupt ("unsupported version " ++ toString version.toInt8.toInt))
    | [] => .error (.identityCorrupt "identity.enc truncated")

/-! ## What is read -/

theorem decode_magic (version : UInt8) (buf : Bytes) :
    decode (magic ++ [version] ++ buf) =
      if version = legacyVersion then decodeLegacy buf
      else if version = currentVersion then decodeV2 buf
      else .error (.identityCorrupt ("unsupported version " ++ toString version.toInt8.toInt)) := by
  have hlong : ¬(magic ++ [version] ++ buf).length < 5 := by
    simp [magic]
  rw [decode, if_neg hlong]
  rfl

theorem u16_cut {a b : Bytes} (ha : a.length ≤ 0xFFFF) (hb : b ≠ []) :
    (u16OfBe (UInt8.ofNat ((UInt16.ofNat a.length).toNat / 256))
      (UInt8.ofNat ((UInt16.ofNat a.length).toNat % 256))).toNat = a.length ∧
    ¬(a ++ b).length ≤ a.length ∧ (a ++ b).take a.length = a ∧ (a ++ b).drop a.length = b := by
  have hpos := List.length_pos_iff.2 hb
  refine ⟨?_, ?_, List.take_left, List.drop_left⟩
  · rw [u16OfBe_u16ToBe, u16OfNat_toNat ha]
  · rw [List.length_append]
    omega

variable {c : IdentityContainer} {bytes generation payload buf : Bytes} {method : Tier1AuthMethod}

theorem decode_of_encodeLegacy (hversion : c.version = legacyVersion) (hblob : c.sealedBlob ≠ [])
    (h : c.encodeLegacy = .ok bytes) : decode bytes = .ok c := by
  obtain ⟨wrapped, blob, method, salt, nonce, generation, version⟩ := c
  simp only [encodeLegacy, require_bind] at h hversion hblob
  obtain ⟨⟨rfl, rfl, rfl, rfl⟩, ⟨hpos, hlen⟩, h⟩ := h
  subst hversion
  cases h
  obtain ⟨hheader, hlong, htake, hdrop⟩ := u16_cut hlen hblob
  rw [List.append_assoc, List.append_assoc, decode_magic, if_pos rfl]
  show decodeLegacy (_ :: _ :: (wrapped ++ blob)) = _
  rw [decodeLegacy, hheader, if_neg (by omega), htake, hdrop]

/-- The parts that `envelope` puts together are taken apart again. -/
theorem ofEnvelope_of_envelope (hversion : c.version = currentVersion)
    (hmethod : c.authMethod = some method) (hgeneration : c.generation = some generation)
    (h : c.envelope method = .ok payload) :
    ofEnvelope method generation payload c.sealedBlob = .ok c := by
  obtain ⟨wrapped, blob, method', salt, nonce, generation', version⟩ := c
  dsimp only at hversion hmethod hgeneration
  subst hversion hmethod hgeneration
  cases method with
  | biometric =>
    simp only [envelope, require_bind] at h
    obtain ⟨⟨rfl, rfl⟩, hlen, h⟩ := h
    cases h
    rw [ofEnvelope, if_neg (not_not_intro hlen)]
  | passphrase =>
    simp only [envelope, requireNotNull_bind, require_bind] at h
    obtain ⟨kdfSalt, rfl, aeadNonce, rfl, hsalt, hnonce, hlen, h⟩ := h
    cases h
    have htotal : (kdfSalt ++ aeadNonce ++ wrapped).length =
        saltLen + nonceLen + aeadWrappedKeyLen := by
      rw [List.length_append, List.length_append, hsalt, hnonce, hlen]
    have hboth : (kdfSalt ++ aeadNonce).length = saltLen + nonceLen := by
      rw [List.length_append, hsalt, hnonce]
    rw [ofEnvelope, if_neg (not_not_intro htotal), ← hboth, List.drop_left, ← hsalt, ← hnonce,
      List.append_assoc, List.take_left, List.drop_left, List.take_left]

theorem decode_of_encodeV2 (hversion : c.version = currentVersion) (hblob : c.sealedBlob ≠ [])
    (h : c.encodeV2 = .ok bytes) : decode bytes = .ok c := by
  rw [encodeV2, requireNotNull_bind] at h
  obtain ⟨method, hmethod, h⟩ := h
  rw [requireNotNull_bind] at h
  obtain ⟨generation, hgeneration, h⟩ := h
  rw [require_bind, bind_eq_ok] at h
  obtain ⟨hsize, payload, hpayload, h⟩ := h
  rw [require_bind] at h
  obtain ⟨hlen, h⟩ := h
  cases h
  obtain ⟨hheader, hlong, htake, hdrop⟩ := u16_cut hlen hblob
  have hrest : ([method.wireTag] ++ (generation ++ (u16ToBe (UInt16.ofNat payload.length) ++
      (payload ++ c.sealedBlob)))).length ≥ 1 + generationLen + 2 := by
    simp only [List.length_append, List.length_singleton, u16ToBe_length, hsize]
    omega
  simp only [List.append_assoc]
  rw [← List.append_assoc magic, decode_magic, if_neg (by decide), if_pos rfl]
  unfold decodeV2
  rw [if_neg (Nat.not_lt.2 hrest)]
  show (Tier1AuthMethod.fromWireTag method.wireTag >>= _) = _
  rw [Tier1AuthMethod.fromWireTag_wireTag]
  show decodeEnvelope method ((generation ++ _).take generationLen)
    ((generation ++ _).drop generationLen) = _
  rw [← hsize, List.take_left, List.drop_left]
  show decodeEnvelope method generation (_ :: _ :: (payload ++ c.sealedBlob)) = _
  rw [decodeEnvelope, hheader, if_neg hlong, htake, hdrop]
  exact ofEnvelope_of_envelope hversion hmethod hgeneration hpayload

theorem decode_of_encode (h : c.encode = .ok bytes) : decode bytes = .ok c := by
  rw [encode, require_bind] at h
  obtain ⟨hblob, h⟩ := h
  split_ifs at h with hlegacy hcurrent
  · exact decode_of_encodeLegacy hlegacy hblob h
  · exact decode_of_encodeV2 hcurrent hblob h

theorem encode_of_decodeLegacy (h : decodeLegacy buf = .ok c) :
    c.encode = .ok (magic ++ [legacyVersion] ++ buf) := by
  rcases buf with _ | ⟨hi, _ | ⟨lo, rest⟩⟩
  · cases h
  · cases h
  rw [decodeLegacy] at h
  split_ifs at h with hshort
  cases h
  have hword := (u16OfBe hi lo).toNat_lt
  generalize hlen : (u16OfBe hi lo).toNat = len at *
  have htake : (rest.take len).length = len := List.length_take_of_le (by omega)
  have hdrop : rest.drop len ≠ [] := by
    rw [← List.length_pos_iff, List.length_drop]
    omega
  rw [encode, require_bind, encodeLegacy]
  refine ⟨hdrop, ?_⟩
  rw [if_pos rfl, require_bind, require_bind, htake, ← hlen, UInt16.ofNat_toNat, u16ToBe_u16OfBe]
  refine ⟨⟨rfl, rfl, rfl, rfl⟩, by omega, ?_⟩
  rw [List.append_assoc _ (rest.take _), List.take_append_drop]
  rfl

theorem envelope_of_ofEnvelope {blob : Bytes}
    (h : ofEnvelope method generation payload blob = .ok c) :
    c.version = currentVersion ∧ c.authMethod = some method ∧ c.generation = some generation ∧
      c.sealedBlob = blob ∧ c.envelope method = .ok payload := by
  cases method with
  | biometric =>
    rw [ofEnvelope] at h
    split_ifs at h with hlen
    cases h
    refine ⟨rfl, rfl, rfl, rfl, ?_⟩
    rw [envelope, require_bind, require_bind]
    exact ⟨⟨rfl, rfl⟩, not_not.1 hlen, rfl⟩
  | passphrase =>
    rw [ofEnvelope] at h
    split_ifs at h with hlen
    cases h
    refine ⟨rfl, rfl, rfl, rfl, ?_⟩
    have hsalt : (payload.take saltLen).length = saltLen := List.length_take_of_le (by omega)
    have hnonce : ((payload.drop saltLen).take nonceLen).length = nonceLen := by
      apply List.length_take_of_le
      rw [List.length_drop]
      omega
    have hkey : (payload.drop (saltLen + nonceLen)).length = aeadWrappedKeyLen := by
      rw [List.length_drop]
      omega
    rw [envelope, requireNotNull_bind]
    refine ⟨_, rfl, ?_⟩
    rw [requireNotNull_bind]
    refine ⟨_, rfl, ?_⟩
    rw [require_bind, require_bind, require_bind]
    refine ⟨hsalt, hnonce, hkey, ?_⟩
    show Except.ok _ = _
    rw [← List.drop_drop, List.append_assoc, List.take_append_drop, List.take_append_drop]

theorem encode_of_decodeV2 (h : decodeV2 buf = .ok c) :
    c.encode = .ok (magic ++ [currentVersion] ++ buf) := by
  unfold decodeV2 at h
  split_ifs at h with hheader
  rcases buf with _ | ⟨tag, buf⟩
  · cases h
  obtain ⟨method, htag, h⟩ := bind_eq_ok.1 h
  have hgeneration : (buf.take generationLen).length = generationLen := by
    apply List.length_take_of_le
    rw [List.length_cons] at hheader
    omega
  have hbuf := List.take_append_drop generationLen buf
  generalize buf.take generationLen = generation at *
  generalize buf.drop generationLen = framed at *
  rcases framed with _ | ⟨hi, _ | ⟨lo, rest⟩⟩
  · cases h
  · cases h
  rw [decodeEnvelope] at h
  split_ifs at h with hshort
  have hword := (u16OfBe hi lo).toNat_lt
  generalize hlen : (u16OfBe hi lo).toNat = len at *
  have htake : (rest.take len).length = len := List.length_take_of_le (by omega)
  have hdrop : rest.drop len ≠ [] := by
    rw [← List.length_pos_iff, List.length_drop]
    omega
  obtain ⟨hversion, hmethod, hid, hblob, henvelope⟩ := envelope_of_ofEnvelope h
  rw [encode, require_bind, if_neg (by rw [hversion]; decide), if_pos hversion, encodeV2,
    requireNotNull_bind, hblob]
  refine ⟨hdrop, method, hmethod, ?_⟩
  rw [requireNotNull_bind]
  refine ⟨generation, hid, ?_⟩
  rw [require_bind, bind_eq_ok]
  refine ⟨hgeneration, rest.take len, henvelope, ?_⟩
  rw [require_bind, htake, ← hlen, UInt16.ofNat_toNat, u16ToBe_u16OfBe]
  refine ⟨by omega, ?_⟩
  show Except.ok _ = _
  rw [List.append_assoc _ (rest.take _), List.take_append_drop, ← hbuf,
    Tier1AuthMethod.wireTag_of_fromWireTag htag]
  simp only [List.append_assoc, List.cons_append, List.nil_append]

theorem encode_of_decode (h : decode bytes = .ok c) : c.encode = .ok bytes := by
  rw [decode] at h
  split_ifs at h with _ hmagic
  have hbytes := List.take_append_drop 4 bytes
  rw [not_not.1 hmagic] at hbytes
  generalize bytes.drop 4 = versioned at *
  rcases versioned with _ | ⟨version, buf⟩
  · cases h
  dsimp only at h
  split_ifs at h with hlegacy hcurrent
  · rw [← hbytes, hlegacy, encode_of_decodeLegacy h, List.append_assoc]
    rfl
  · rw [← hbytes, hcurrent, encode_of_decodeV2 h, List.append_assoc]
    rfl

/-- A file that is read has a sealed identity in it. -/
theorem sealedBlob_ne_nil (h : decode bytes = .ok c) : c.sealedBlob ≠ [] := by
  have hencode := encode_of_decode h
  rw [encode, require_bind] at hencode
  exact hencode.1

theorem authMethod_of_legacy (h : decode bytes = .ok c) (hlegacy : c.version = legacyVersion) :
    c.authMethod = none := by
  have hencode := encode_of_decode h
  rw [encode, require_bind, if_pos hlegacy, encodeLegacy, require_bind] at hencode
  exact hencode.2.1.1

end IdentityContainer

end Conveyance.Phone
