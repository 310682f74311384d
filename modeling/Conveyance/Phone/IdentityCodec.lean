import Conveyance.Lib.ByteBuffer
import Conveyance.Phone.IdentityContainer

/-!
# The identity file through a buffer

`IdentityContainer.kt` as it is written: over a `java.nio.ByteBuffer`, with sizes that are
32-bit integers and lengths that travel as signed shorts. `decode_eq` and `encode_eq_ok`
say that it computes the functions on byte strings, so that what holds of those holds of
the code: no read goes past the end of its buffer, and a file is written into a buffer of
exactly its size.
-/

namespace Conveyance.Phone.IdentityCodec

open Lib Lib.ByteBuffer
open IdentityContainer (legacyVersion currentVersion generationLen saltLen nonceLen
  aesGcmWrappedKeyLen aeadWrappedKeyLen)

/-- What an operation on identity files throws. -/
abbrev Exception := BufferFault VaultError

def corrupt {α : Type} (message : String) : BufferM VaultError α :=
  raise (.identityCorrupt message)

/-- A call that touches no buffer. -/
def call {α : Type} (result : Except VaultError α) : Except Exception α :=
  result.mapError .thrown

/-- `array.size`. -/
def size (array : Bytes) : Int32 := Int32.ofNat array.length

def legacyHeader : Int32 := 4 + 1 + 2

def v2Header : Int32 := 4 + 1 + 1 + 16 + 2

/-! ## Writing -/

/-- What `putShort(n.toShort())` puts. -/
def shortBytes (n : Int32) : Bytes := u16ToBe n.toInt16.toUInt16

def encodeLegacy (c : IdentityContainer) : Except Exception SizedBytes := do
  call (require (c.authMethod = none ∧ c.salt = none ∧ c.nonce = none ∧ c.generation = none)
    "legacy identity container cannot carry v2 fields")
  call (require (1 ≤ c.wrappedContentKey.length ∧ c.wrappedContentKey.length ≤ 0xFFFF)
    "wrapped key length out of range")
  fill (legacyHeader + size c.wrappedContentKey + size c.sealedBlob)
    [IdentityContainer.magic, [legacyVersion],
      shortBytes (size c.wrappedContentKey), c.wrappedContentKey, c.sealedBlob]

def encodeV2 (c : IdentityContainer) : Except Exception SizedBytes := do
  let method ← call (requireNotNull c.authMethod "v2 identity container needs an auth method")
  let id ← call (requireNotNull c.generation "v2 identity container needs a generation")
  call (require (id.length = generationLen) "generation must be 16 bytes")
  let payload ← call (c.envelope method)
  call (require (payload.length ≤ 0xFFFF) "auth envelope length out of range")
  fill (v2Header + size payload + size c.sealedBlob)
    [IdentityContainer.magic, [currentVersion], [method.wireTag], id,
      shortBytes (size payload), payload, c.sealedBlob]

def encode (c : IdentityContainer) : Except Exception SizedBytes := do
  call (require (c.sealedBlob ≠ []) "sealed blob is empty")
  if c.version = legacyVersion then encodeLegacy c
  else if c.version = currentVersion then encodeV2 c
  else .error (.thrown (.illegalArgument
    ("unsupported identity container version " ++ toString c.version.toInt8.toInt)))

/-! ## Reading -/

/-- `buf.short.toInt() and 0xFFFF`. -/
def getLength : BufferM VaultError Int32 := do
  let short ← getShort
  return short.toInt32 &&& 0xFFFF

/-- `ByteArray(buf.remaining()).also { buf.get(it) }`. -/
def getRemaining : BufferM VaultError SizedBytes := do
  let n ← remaining
  getArray n

def decodeLegacy : BufferM VaultError IdentityContainer := do
  let left ← remaining
  if left < Int32.ofNat 2 then corrupt "identity.enc truncated"
  else
    let wrappedLen ← getLength
    let left ← remaining
    if wrappedLen = 0 ∨ left ≤ wrappedLen then corrupt "identity.enc length fields inconsistent"
    else
      let wrapped ← getArray wrappedLen
      let blob ← getRemaining
      return ⟨wrapped.val, blob.val, none, none, none, none, legacyVersion⟩

/-- The passphrase branch: salt, nonce and wrapped key. -/
def splitEnvelope (generation blob : SizedBytes) : BufferM VaultError IdentityContainer := do
  let salt ← getArray (Int32.ofNat saltLen)
  let nonce ← getArray (Int32.ofNat nonceLen)
  let wrapped ← getRemaining
  return ⟨wrapped.val, blob.val, some .passphrase, some salt.val, some nonce.val,
    some generation.val, currentVersion⟩

def ofEnvelope (method : Tier1AuthMethod) (generation payload blob : SizedBytes) :
    Except Exception IdentityContainer :=
  match method with
  | .biometric =>
    if size payload.val ≠ Int32.ofNat aesGcmWrappedKeyLen then
      .error (.thrown (.identityCorrupt "invalid biometric envelope length"))
    else
      .ok ⟨payload.val, blob.val, some method, none, none, some generation.val,
        currentVersion⟩
  | .passphrase =>
    if size payload.val ≠ Int32.ofNat (saltLen + nonceLen +
        aeadWrappedKeyLen) then
      .error (.thrown (.identityCorrupt "invalid passphrase envelope length"))
    -- the envelope is read through a buffer of its own
    else (splitEnvelope generation blob).run' (wrap payload)

/-- What follows the generation. -/
def decodeEnvelope (method : Tier1AuthMethod) (generation : SizedBytes) :
    BufferM VaultError IdentityContainer := do
  let payloadLen ← getLength
  let left ← remaining
  if left ≤ payloadLen then corrupt "identity.enc v2 length fields inconsistent"
  else
    let payload ← getArray payloadLen
    let blob ← getRemaining
    ofEnvelope method generation payload blob

def decodeV2 : BufferM VaultError IdentityContainer := do
  let left ← remaining
  if left < Int32.ofNat (1 + generationLen + 2) then
    corrupt "identity.enc v2 header truncated"
  else
    let tag ← getByte
    let method ← call (Tier1AuthMethod.fromWireTag tag)
    let generation ← getArray (Int32.ofNat generationLen)
    decodeEnvelope method generation

def decodeVersioned : BufferM VaultError IdentityContainer := do
  let magic ← getArray (Int32.ofNat 4)
  if magic.val ≠ IdentityContainer.magic then corrupt "bad magic"
  else
    let version ← getByte
    if version = legacyVersion then decodeLegacy
    else if version = currentVersion then decodeV2
    else corrupt ("unsupported version " ++ toString version.toInt8.toInt)

def decode (bytes : SizedBytes) : Except Exception IdentityContainer :=
  if size bytes.val < Int32.ofNat 5 then
    .error (.thrown (.identityCorrupt "identity.enc truncated"))
  else decodeVersioned.run' (wrap bytes)

/-! ## What is written -/

variable {α β : Type} {x : Except VaultError α} {b : β} {condition : Prop} {message : String}
  {bytes : SizedBytes} {c : IdentityContainer}

theorem call_bind {f : α → Except Exception β} :
    (call x >>= f) = .ok b ↔ ∃ a, x = .ok a ∧ f a = .ok b := by
  rw [bind_eq_ok]
  exact exists_congr fun a => and_congr_left fun _ => mapError_eq_ok

theorem require_eq_ok [Decidable condition] {u : Unit} :
    require condition message = .ok u ↔ condition := by
  unfold require
  split_ifs with h
  · exact iff_of_true rfl h
  · constructor
    · intro hok
      cases hok
    · exact fun hcondition => absurd hcondition h

theorem call_require_bind [Decidable condition] {f : Unit → Except Exception β} :
    (call (require condition message) >>= f) = .ok b ↔ condition ∧ f () = .ok b := by
  rw [call_bind]
  constructor
  · rintro ⟨u, hrequire, h⟩
    exact ⟨require_eq_ok.mp hrequire, h⟩
  · rintro ⟨hcondition, h⟩
    exact ⟨(), require_eq_ok.mpr hcondition, h⟩

theorem shortBytes_size (array : Bytes) :
    shortBytes (size array) = u16ToBe (UInt16.ofNat array.length) := by
  rw [shortBytes, size, toInt16_int32_ofNat]

/-- A header of `n` octets, an envelope and a sealed identity, in a buffer for just these. -/
theorem fill_framed {capacity : Int32} {header : List Bytes} {n : Nat} {envelope blob : Bytes}
    (hcapacity : capacity = Int32.ofNat n + size envelope + size blob)
    (hheader : header.flatten.length = n) :
    (fill capacity (header ++ [envelope, blob]) : Except Exception SizedBytes) = .ok bytes ↔
      header.flatten ++ envelope ++ blob = bytes.val := by
  have hflat : (header ++ [envelope, blob]).flatten = header.flatten ++ envelope ++ blob := by
    simp
  have hsize : capacity = Int32.ofNat (header ++ [envelope, blob]).flatten.length := by
    rw [hcapacity, hflat, List.length_append, List.length_append, hheader, Int32.ofNat_add,
      Int32.ofNat_add]
    rfl
  rw [hsize, fill_eq_ok, hflat]
  exact eq_comm

theorem encodeLegacy_eq_ok : encodeLegacy c = .ok bytes ↔ c.encodeLegacy = .ok bytes.val := by
  unfold encodeLegacy IdentityContainer.encodeLegacy
  rw [call_require_bind, call_require_bind, require_bind, require_bind]
  refine and_congr_right fun _ => and_congr_right fun _ => ?_
  have hheader : [IdentityContainer.magic, [legacyVersion],
      shortBytes (size c.wrappedContentKey)].flatten.length = 7 := rfl
  refine (fill_framed rfl hheader).trans ?_
  rw [shortBytes_size]
  show _ ↔ Except.ok _ = Except.ok _
  rw [Except.ok.injEq]
  rfl

theorem encodeV2_eq_ok : encodeV2 c = .ok bytes ↔ c.encodeV2 = .ok bytes.val := by
  unfold encodeV2 IdentityContainer.encodeV2
  rw [call_bind, bind_eq_ok]
  refine exists_congr fun method => and_congr_right fun _ => ?_
  rw [call_bind, bind_eq_ok]
  refine exists_congr fun id => and_congr_right fun _ => ?_
  rw [call_require_bind, require_bind]
  refine and_congr_right fun hid => ?_
  rw [call_bind, bind_eq_ok]
  refine exists_congr fun payload => and_congr_right fun _ => ?_
  rw [call_require_bind, require_bind]
  refine and_congr_right fun _ => ?_
  have hheader : [IdentityContainer.magic, [currentVersion], [method.wireTag],
      id, shortBytes (size payload)].flatten.length = 24 := by
    simp [IdentityContainer.magic, shortBytes, hid, generationLen]
  refine (fill_framed rfl hheader).trans ?_
  rw [shortBytes_size]
  show _ ↔ Except.ok _ = Except.ok _
  rw [Except.ok.injEq]
  simp only [List.flatten_cons, List.flatten_nil, List.append_nil, List.append_assoc]

/-- The code writes what the container is encoded to, and fails where that does not exist
or is too large for an array. -/
theorem encode_eq_ok : encode c = .ok bytes ↔ c.encode = .ok bytes.val := by
  unfold encode IdentityContainer.encode
  rw [call_require_bind, require_bind]
  refine and_congr_right fun _ => ?_
  split_ifs
  · exact encodeLegacy_eq_ok
  · exact encodeV2_eq_ok
  · constructor <;> intro h <;> cases h

/-! ## What is read -/

section Reading

variable {α : Type} {buf : ByteBuffer}

theorem corrupt_result (message : String) (buf : ByteBuffer) :
    (corrupt message : BufferM VaultError α).run' buf = call (.error (.identityCorrupt message)) :=
  rfl

theorem pure_result (a : α) (buf : ByteBuffer) :
    (pure a : BufferM VaultError α).run' buf = call (.ok a) :=
  rfl

theorem getLength_run {hi lo : UInt8} {r : Bytes} (h : buf.rest = hi :: lo :: r) :
    ∃ buf', getLength.run buf = .ok (Int32.ofNat (u16OfBe hi lo).toNat, buf') ∧ buf'.rest = r := by
  obtain ⟨next, hnext, hrest⟩ := @getShort_run VaultError buf hi lo r h
  refine ⟨next, ?_, hrest⟩
  rw [getLength, run_bind_ok hnext, toInt32_and_ffff]
  rfl

theorem getRemaining_run (buf : ByteBuffer) :
    ∃ array buf', getRemaining.run buf = .ok (array, buf') ∧ array.val = buf.rest := by
  obtain ⟨array, next, hnext, harray, -⟩ := @getArray_run VaultError buf _ (Nat.le_refl _)
  refine ⟨array, next, ?_, by rw [harray, List.take_length]⟩
  rw [getRemaining, run_bind_ok (remaining_run buf)]
  exact hnext

theorem decodeLegacy_result (buf : ByteBuffer) :
    decodeLegacy.run' buf = call (IdentityContainer.decodeLegacy buf.rest) := by
  have hsize := buf.rest_length_lt
  rw [decodeLegacy, result_bind_ok (remaining_run buf)]
  rcases hrest : buf.rest with _ | ⟨hi, _ | ⟨lo, rest⟩⟩
  · rfl
  · rfl
  rw [hrest, List.length_cons, List.length_cons] at hsize
  have hlong : ¬ Int32.ofNat (rest.length + 1 + 1) < Int32.ofNat 2 := by
    rw [Int32.ofNat_lt_iff_lt hsize (by decide)]
    omega
  rw [List.length_cons, List.length_cons, if_neg hlong]
  obtain ⟨next, hnext, hleft⟩ := getLength_run hrest
  rw [result_bind_ok hnext, result_bind_ok (remaining_run next), hleft,
    IdentityContainer.decodeLegacy]
  have hword := (u16OfBe hi lo).toNat_lt
  generalize (u16OfBe hi lo).toNat = wrappedLen at *
  have hlen : wrappedLen < 2 ^ 31 := by omega
  have hzero : Int32.ofNat wrappedLen = 0 ↔ wrappedLen = 0 := int32_ofNat_inj hlen (by decide)
  rw [if_congr (or_congr hzero (Int32.ofNat_le_iff_le (by omega) hlen)) rfl rfl]
  split_ifs with hshort
  · rw [corrupt_result]
  · obtain ⟨wrapped, after, hafter, hwrapped, hblob⟩ :=
      @getArray_run VaultError next wrappedLen (by rw [hleft]; omega)
    obtain ⟨blob, last, hlast, hall⟩ := getRemaining_run after
    rw [result_bind_ok hafter, result_bind_ok hlast, pure_result, hwrapped, hall, hblob, hleft]

theorem splitEnvelope_result (generation payload blob : SizedBytes)
    (h : payload.val.length = saltLen + nonceLen + aeadWrappedKeyLen) :
    (splitEnvelope generation blob).run' (wrap payload) =
      call (IdentityContainer.ofEnvelope .passphrase generation.val payload.val blob.val) := by
  obtain ⟨salt, next, hnext, hsalt, hrest⟩ :=
    @getArray_run VaultError (wrap payload) saltLen (by rw [rest_wrap]; omega)
  obtain ⟨nonce, after, hafter, hnonce, hleft⟩ :=
    @getArray_run VaultError next nonceLen (by
      rw [hrest, rest_wrap, List.length_drop]
      omega)
  obtain ⟨wrapped, last, hlast, hwrapped⟩ := getRemaining_run after
  rw [splitEnvelope, result_bind_ok hnext, result_bind_ok hafter, result_bind_ok hlast,
    pure_result, IdentityContainer.ofEnvelope, if_neg (not_not_intro h), hsalt, hnonce, hwrapped,
    hleft, hrest, rest_wrap, List.drop_drop]

theorem ofEnvelope_eq (method : Tier1AuthMethod) (generation payload blob : SizedBytes) :
    ofEnvelope method generation payload blob =
      call (IdentityContainer.ofEnvelope method generation.val payload.val blob.val) := by
  have hlen {n : Nat} (hn : n < 2 ^ 31) : size payload.val = Int32.ofNat n ↔
      payload.val.length = n :=
    int32_ofNat_inj payload.property hn
  cases method with
  | biometric =>
    rw [ofEnvelope, IdentityContainer.ofEnvelope, if_congr (not_congr (hlen (by decide))) rfl rfl]
    split <;> rfl
  | passphrase =>
    by_cases h : payload.val.length = saltLen + nonceLen +
        aeadWrappedKeyLen
    · rw [ofEnvelope, if_neg (not_not_intro ((hlen (by decide)).mpr h)),
        splitEnvelope_result _ _ _ h]
    · rw [ofEnvelope, IdentityContainer.ofEnvelope, if_pos (mt (hlen (by decide)).mp h), if_pos h]
      rfl

/-- A call that succeeds leaves the buffer alone, one that fails is the end. -/
theorem result_call_bind (x : Except VaultError α) (f : α → BufferM VaultError β)
    (buf : ByteBuffer) :
    ((call x : BufferM VaultError α) >>= f).run' buf =
      call x >>= fun a => (f a).run' buf := by
  cases x <;> rfl

theorem decodeEnvelope_result (method : Tier1AuthMethod) (generation : SizedBytes)
    (h : 2 ≤ buf.rest.length) :
    (decodeEnvelope method generation).run' buf =
      call (IdentityContainer.decodeEnvelope method generation.val buf.rest) := by
  have hsize := buf.rest_length_lt
  rcases hrest : buf.rest with _ | ⟨hi, _ | ⟨lo, rest⟩⟩
  · simp [hrest] at h
  · simp [hrest] at h
  rw [hrest, List.length_cons, List.length_cons] at hsize
  obtain ⟨next, hnext, hleft⟩ := getLength_run hrest
  rw [decodeEnvelope, result_bind_ok hnext, result_bind_ok (remaining_run next), hleft,
    IdentityContainer.decodeEnvelope]
  have hword := (u16OfBe hi lo).toNat_lt
  generalize (u16OfBe hi lo).toNat = payloadLen at *
  rw [if_congr (Int32.ofNat_le_iff_le (by omega) (by omega)) rfl rfl]
  split_ifs with hshort
  · rw [corrupt_result]
  · obtain ⟨payload, after, hafter, hpayload, hblob⟩ :=
      @getArray_run VaultError next payloadLen (by rw [hleft]; omega)
    obtain ⟨blob, last, hlast, hall⟩ := getRemaining_run after
    rw [result_bind_ok hafter, result_bind_ok hlast, ofEnvelope_eq, hpayload, hall, hblob, hleft]
    cases IdentityContainer.ofEnvelope method generation.val _ _ <;> rfl

theorem decodeV2_result (buf : ByteBuffer) :
    decodeV2.run' buf = call (IdentityContainer.decodeV2 buf.rest) := by
  have hsize := buf.rest_length_lt
  unfold IdentityContainer.decodeV2
  rw [decodeV2, result_bind_ok (remaining_run buf),
    if_congr (Int32.ofNat_lt_iff_lt hsize (by decide)) rfl rfl]
  split_ifs with hheader
  · rw [corrupt_result]
  rcases hrest : buf.rest with _ | ⟨tag, rest⟩
  · simp [hrest] at hheader
  rw [hrest, List.length_cons] at hheader
  obtain ⟨next, hnext, hnextRest⟩ := @getByte_run VaultError buf tag rest hrest
  obtain ⟨generation, after, hafter, hgeneration, hleft⟩ :=
    @getArray_run VaultError next generationLen (by rw [hnextRest]; omega)
  rw [result_bind_ok hnext, result_call_bind]
  dsimp only
  cases Tier1AuthMethod.fromWireTag tag with
  | error e => rfl
  | ok method =>
    show StateT.run' _ next = call (IdentityContainer.decodeEnvelope method _ _)
    rw [result_bind_ok hafter, decodeEnvelope_result method generation (by
      rw [hleft, hnextRest, List.length_drop]
      omega), hgeneration, hleft, hnextRest]

/-- The code reads a file as the function on byte strings does. -/
theorem decode_eq (bytes : SizedBytes) :
    decode bytes = call (IdentityContainer.decode bytes.val) := by
  rw [decode, IdentityContainer.decode, size,
    if_congr (Int32.ofNat_lt_iff_lt bytes.property (by decide)) rfl rfl]
  by_cases hshort : bytes.val.length < 5
  · rw [if_pos hshort, if_pos hshort]
    rfl
  rw [if_neg hshort, if_neg hshort]
  obtain ⟨magic, next, hnext, hmagic, hrest⟩ :=
    @getArray_run VaultError (wrap bytes) 4 (by rw [rest_wrap]; omega)
  rw [decodeVersioned, result_bind_ok hnext, hmagic, rest_wrap]
  by_cases hbad : bytes.val.take 4 ≠ IdentityContainer.magic
  · rw [if_pos hbad, if_pos hbad, corrupt_result]
  rw [if_neg hbad, if_neg hbad]
  rcases hversioned : bytes.val.drop 4 with _ | ⟨version, buf⟩
  · have hlen := congrArg List.length hversioned
    rw [List.length_drop, List.length_nil] at hlen
    omega
  rw [rest_wrap, hversioned] at hrest
  obtain ⟨after, hafter, hleft⟩ := @getByte_run VaultError next version buf hrest
  rw [result_bind_ok hafter]
  dsimp only
  split_ifs
  · rw [decodeLegacy_result, hleft]
  · rw [decodeV2_result, hleft]
  · rw [corrupt_result]

end Reading

/-! ## The codec -/

/-- The exception a file that is not one is refused with. -/
def Refused (result : Except VaultError IdentityContainer) : Prop :=
  ∀ e, result = .error e → ∃ message, e = .identityCorrupt message

theorem refused_error (message : String) : Refused (.error (.identityCorrupt message)) := by
  intro e h
  cases h
  exact ⟨message, rfl⟩

theorem refused_ok (c : IdentityContainer) : Refused (.ok c) := by
  intro e h
  cases h

theorem decodeLegacy_refused (buf : Bytes) : Refused (IdentityContainer.decodeLegacy buf) := by
  unfold IdentityContainer.decodeLegacy
  split
  · dsimp only
    split
    · exact refused_error _
    · exact refused_ok _
  · exact refused_error _

theorem ofEnvelope_refused (method : Tier1AuthMethod) (generation payload blob : Bytes) :
    Refused (IdentityContainer.ofEnvelope method generation payload blob) := by
  cases method with
  | biometric | passphrase =>
    rw [IdentityContainer.ofEnvelope]
    split
    · exact refused_error _
    · exact refused_ok _

theorem decodeEnvelope_refused (method : Tier1AuthMethod) (generation buf : Bytes) :
    Refused (IdentityContainer.decodeEnvelope method generation buf) := by
  unfold IdentityContainer.decodeEnvelope
  split
  · dsimp only
    split
    · exact refused_error _
    · exact ofEnvelope_refused _ _ _ _
  · exact refused_error _

theorem decodeV2_refused (buf : Bytes) : Refused (IdentityContainer.decodeV2 buf) := by
  unfold IdentityContainer.decodeV2
  split
  · exact refused_error _
  · split
    · unfold Tier1AuthMethod.fromWireTag
      -- the tag names a method, or the file is refused for it
      split
      · exact decodeEnvelope_refused _ _ _
      · split
        · exact decodeEnvelope_refused _ _ _
        · exact refused_error _
    · exact refused_error _

theorem decode_refused (bytes : Bytes) : Refused (IdentityContainer.decode bytes) := by
  unfold IdentityContainer.decode
  split
  · exact refused_error _
  · split
    · exact refused_error _
    · split
      · split
        · exact decodeLegacy_refused _
        · split
          · exact decodeV2_refused _
          · exact refused_error _
      · exact refused_error _

theorem call_eq_ok {a : α} : call x = .ok a ↔ x = .ok a :=
  mapError_eq_ok

/-- Encoding and decoding are inverse to each other on what can be encoded and on what is
read; all other files are refused as corrupt. -/
theorem identity_codec_bijective : (∀ c bytes, encode c = .ok bytes → decode bytes = .ok c) ∧
    (∀ bytes c, decode bytes = .ok c → encode c = .ok bytes) ∧
    ∀ bytes, (∃ c, decode bytes = .ok c) ∨
      ∃ message, decode bytes = .error (.thrown (.identityCorrupt message)) := by
  refine ⟨?_, ?_, ?_⟩
  · intro c bytes h
    rw [decode_eq, call_eq_ok]
    exact IdentityContainer.decode_of_encode (encode_eq_ok.mp h)
  · intro bytes c h
    rw [decode_eq, call_eq_ok] at h
    exact encode_eq_ok.mpr (IdentityContainer.encode_of_decode h)
  · intro bytes
    rw [decode_eq]
    cases hread : IdentityContainer.decode bytes.val with
    | ok c => exact .inl ⟨c, rfl⟩
    | error e =>
      obtain ⟨message, rfl⟩ := decode_refused bytes.val e hread
      exact .inr ⟨message, rfl⟩

/-- The file of one octet of wrapped key and one of sealed identity is written as it is read. -/
theorem smallest_legacy_file :
    decode ⟨[0x43, 0x56, 0x49, 0x44, 1, 0, 1, 7, 9], by decide⟩ =
        .ok ⟨[7], [9], none, none, none, none, 1⟩ ∧
      encode ⟨[7], [9], none, none, none, none, 1⟩ =
        .ok ⟨[0x43, 0x56, 0x49, 0x44, 1, 0, 1, 7, 9], by decide⟩ := by
  have hread : decode ⟨[0x43, 0x56, 0x49, 0x44, 1, 0, 1, 7, 9], by decide⟩ =
      .ok ⟨[7], [9], none, none, none, none, 1⟩ := by
    rw [decode_eq]
    rfl
  exact ⟨hread, identity_codec_bijective.2.1 _ _ hread⟩

end Conveyance.Phone.IdentityCodec
