import Conveyance.Lib.Base64
import Conveyance.Pairing.Messages
import Conveyance.Protocol.Cbor

/-!
# The QR code (conveyance-pairing, qr.rs)

Writing the payload and reading it back. ciborium and base64 are parameters: what is asked of
the writer is the layout of a struct (`WritesStruct`), of the readers, for a `Value` and for
the payload, that they read it back (`ReadsBack`), and of base64 its round trip and its length
(`Base64Laws`, which `Lib.Base64` meets). Reading looks at the bytes twice: first for a
version, in whatever map they are, then for the payload.
-/

namespace Conveyance.Pairing

open Lib Protocol

/-! ## Writing -/

/-- The fields of a payload behind its version. -/
def PairingQr.entries (qr : PairingQr) : List (String × Cbor.Item) :=
  [("pc_id_pub", octetsItem qr.pcIdPub), ("pc_dh_pub", octetsItem qr.pcDhPub),
    ("nonce", octetsItem qr.nonce), ("expires", Cbor.ofInt64 qr.expires),
    ("pc_name", .text qr.pcName), ("ble_service_uuid", octetsItem qr.bleServiceUuid)]

/-- The map serde makes of a payload. -/
def PairingQr.item (qr : PairingQr) : Cbor.Item :=
  .map (("v", .unsigned qr.version.toUInt64) :: qr.entries)

section Writing

-- `ciborium::ser::into_writer` and `URL_SAFE_NO_PAD`
variable (intoWriter : PairingQr → Except String Bytes) (encode64 : Bytes → String)

def PairingQr.encode (qr : PairingQr) : Except SharedError String :=
  match intoWriter qr with
  | .error text => .error (.qrEncode text)
  | .ok cbor =>
    if maxEncodedQrBytes < cbor.length then .error (.qrEncode "payload too large")
    else .ok (encode64 cbor)

/-- ciborium writes a payload as the map serde makes of it. -/
def WritesStruct : Prop := ∀ qr, intoWriter qr = .ok (Cbor.write qr.item)

/-- What is asked of base64url without padding. -/
structure Base64Laws (decode64 : String → Option Bytes) : Prop where
  back : ∀ bytes, decode64 (encode64 bytes) = some bytes
  trimmed : ∀ bytes, trim (encode64 bytes) = encode64 bytes
  size : ∀ bytes, (encode64 bytes).utf8ByteSize = (4 * bytes.length + 2) / 3

end Writing

theorem base64Laws : Base64Laws Base64.encode Base64.decode :=
  ⟨Base64.decode_encode, Base64.trim_encode, Base64.encode_size⟩

theorem head_length_le (major n : Nat) : (Cbor.head major n).length ≤ 9 := by
  unfold Cbor.head
  split_ifs <;> simp [Cbor.bigEndian]

theorem head_length_octet (major : Nat) {n : Nat} (h : n < 256) :
    (Cbor.head major n).length ≤ 2 := by
  unfold Cbor.head
  split_ifs
  · simp
  · simp [Cbor.bigEndian]
  all_goals omega

theorem writeItems_octets_length (bytes : Bytes) :
    (Cbor.writeItems (bytes.map fun x => .unsigned x.toUInt64)).length ≤ 2 * bytes.length := by
  induction bytes with
  | nil => simp [Cbor.writeItems]
  | cons b bytes ih =>
    have hhead := head_length_octet 0 b.toNat_lt
    rw [List.map_cons, Cbor.writeItems, List.length_append, Cbor.write, List.length_cons,
      UInt8.toNat_toUInt64]
    omega

theorem write_octetsItem_length {n : Nat} (octets : Octets n) :
    (Cbor.write (octetsItem octets)).length ≤ 9 + 2 * n := by
  have hhead := head_length_le 4 (octets.1.map fun x => Cbor.Item.unsigned x.toUInt64).length
  have hitems := writeItems_octets_length octets.1
  rw [octetsItem, Cbor.write, List.length_append]
  rw [octets.2] at hitems
  omega

theorem write_ofInt64_length (n : Int64) : (Cbor.write (Cbor.ofInt64 n)).length ≤ 9 := by
  unfold Cbor.ofInt64
  split <;> exact head_length_le _ _

theorem writeText_length (s : String) : (Cbor.writeText s).length ≤ 9 + s.utf8ByteSize := by
  have hhead := head_length_le 3 s.toUTF8.data.toList.length
  have hsize : s.toUTF8.data.toList.length = s.utf8ByteSize := Array.length_toList
  rw [Cbor.writeText, List.length_append, hsize]
  rw [hsize] at hhead
  omega

/-- A payload is far from the limits. -/
theorem write_item_length {qr : PairingQr} (h : qr.pcName.utf8ByteSize ≤ pcNameMaxBytes) :
    (Cbor.write qr.item).length ≤ 1024 := by
  have hkey : ∀ key ∈ ["v", "pc_id_pub", "pc_dh_pub", "nonce", "expires", "pc_name",
      "ble_service_uuid"], (Cbor.writeText key).length ≤ 25 := by
    intro key hmem
    have hsize : key.utf8ByteSize ≤ 16 := by
      revert key
      decide
    exact Nat.le_trans (writeText_length key) (by omega)
  simp only [List.forall_mem_cons] at hkey
  obtain ⟨hv, hid, hdh, hnonce, hexpires, hname, huuid, -⟩ := hkey
  have hversion := head_length_le 0 qr.version.toUInt64.toNat
  have htext := writeText_length qr.pcName
  have hmap := head_length_le 5 (0 + 1 + 1 + 1 + 1 + 1 + 1 + 1)
  have hidItem := write_octetsItem_length qr.pcIdPub
  have hdhItem := write_octetsItem_length qr.pcDhPub
  have hnonceItem := write_octetsItem_length qr.nonce
  have huuidItem := write_octetsItem_length qr.bleServiceUuid
  have hexpiresItem := write_ofInt64_length qr.expires
  unfold pcNameMaxBytes at h
  simp only [PairingQr.item, PairingQr.entries, Cbor.write, Cbor.writeEntries,
    List.length_append, List.length_cons, List.length_nil]
  omega

theorem encode_eq_ok {intoWriter : PairingQr → Except String Bytes} {encode64 : Bytes → String}
    {qr : PairingQr} (hwrites : WritesStruct intoWriter)
    (h : qr.pcName.utf8ByteSize ≤ pcNameMaxBytes) :
    qr.encode intoWriter encode64 = .ok (encode64 (Cbor.write qr.item)) := by
  have hlen := write_item_length h
  unfold PairingQr.encode maxEncodedQrBytes
  rw [hwrites qr]
  exact if_neg (by omega)

/-! ## Reading -/

namespace Value

mutual
/-- The value of an item. -/
def ofItem : Cbor.Item → Value
  | .unsigned n => .integer n.toNat
  | .negative n => .integer (-1 - n.toNat)
  | .bytes b => .bytes b
  | .text s => .text s
  | .array items => .array (ofItems items)
  | .map entries => .map (ofEntries entries)
  | .bool b => .bool b
  | .null => .null
  | .double bits => .float bits
def ofItems : List Cbor.Item → List Value
  | [] => []
  | item :: items => ofItem item :: ofItems items
def ofEntries : List (String × Cbor.Item) → List (Value × Value)
  | [] => []
  | (key, item) :: entries => (.text key, ofItem item) :: ofEntries entries
end

end Value

section Scanning

-- ciborium for a value and for the payload
variable (readValue : Bytes → Option (Value × Nat)) (readQr : Bytes → Option (PairingQr × Nat))

/-- ciborium reads a payload back as it wrote it, as a value and as the payload. -/
structure ReadsBack (qr : PairingQr) : Prop where
  value : readValue (Cbor.write qr.item) =
    some (.ofItem qr.item, (Cbor.write qr.item).length)
  payload : readQr (Cbor.write qr.item) = some (qr, (Cbor.write qr.item).length)

/-- The first integer under the key `v`. -/
def FirstVersion (fields : List (Value × Value)) (n : Int) : Prop :=
  ∃ before after, fields = before ++ (.text "v", .integer n) :: after ∧
    ∀ m, (.text "v", .integer m) ∉ before

variable {parsesKey : Octets 32 → Bool} {probe : Octets 32 → Octets 32} {readValue readQr}
  {encode64 : Bytes → String} {decode64 : String → Option Bytes} {qr : PairingQr} {cbor : Bytes}
  {now t : Int64}

/-- A text that came from octets is those octets, if they are few enough. -/
theorem parse_encode (h64 : Base64Laws encode64 decode64)
    (h : (encode64 cbor).utf8ByteSize ≤ maxEncodedQrBytes) :
    PairingQr.parse parsesKey probe decode64 readValue readQr (encode64 cbor) now =
      PairingQr.parseCbor parsesKey probe readValue readQr cbor now := by
  rw [PairingQr.parse, if_neg (Nat.not_lt.mpr h), h64.trimmed, h64.back]

/-! ### The version -/

theorem fieldVersion_some {field : Value × Value} {found : UInt16}
    (h : fieldVersion field = some found) : ∃ m, field = (.text "v", .integer m) := by
  unfold fieldVersion at h
  split at h
  next key m =>
    split_ifs at h with hkey
    exact ⟨m, by rw [hkey]⟩
  next => cases h

theorem decodeVersion_of_first {fields : List (Value × Value)} {n : Int}
    (hread : readValue cbor = some (.map fields, cbor.length)) (hfirst : FirstVersion fields n)
    (hlow : 0 ≤ n) (hhigh : n < 65536) :
    decodeVersion readValue cbor = some (UInt16.ofNat n.toNat) := by
  obtain ⟨before, after, rfl, hbefore⟩ := hfirst
  have hnone : before.findSome? fieldVersion = none := by
    rw [List.findSome?_eq_none_iff]
    intro field hfield
    by_contra hsome
    obtain ⟨found, hfound⟩ := Option.ne_none_iff_exists'.mp hsome
    obtain ⟨m, rfl⟩ := fieldVersion_some hfound
    exact hbefore m hfield
  have hn : fieldVersion (.text "v", .integer n) = some (UInt16.ofNat n.toNat) := by
    rw [fieldVersion, if_pos rfl, toU16, if_pos ⟨hlow, hhigh⟩]
  unfold decodeVersion
  rw [hread]
  dsimp only
  rw [if_neg (not_not_intro rfl), List.findSome?_append, hnone, Option.none_or]
  exact (List.findSome?_cons_of_isSome (Option.isSome_iff_exists.mpr ⟨_, hn⟩)).trans hn

theorem parse_of_first (h64 : Base64Laws encode64 decode64) {fields : List (Value × Value)}
    {n : Int} (hread : readValue cbor = some (.map fields, cbor.length))
    (hfirst : FirstVersion fields n) (hlow : 0 ≤ n) (hhigh : n < 65536)
    (hother : n ≠ protocolVersion.toNat)
    (hsize : (encode64 cbor).utf8ByteSize ≤ maxEncodedQrBytes) :
    PairingQr.parse parsesKey probe decode64 readValue readQr (encode64 cbor) now =
      .error (.versionMismatch (UInt16.ofNat n.toNat) protocolVersion) := by
  have hcbor : ¬ maxEncodedQrBytes < cbor.length := by
    rw [h64.size] at hsize
    omega
  have hne : UInt16.ofNat n.toNat ≠ protocolVersion := by
    intro heq
    have hnat := congrArg UInt16.toNat heq
    rw [u16OfNat_toNat (by omega)] at hnat
    omega
  rw [parse_encode h64 hsize, PairingQr.parseCbor, if_neg hcbor,
    decodeVersion_of_first hread hfirst hlow hhigh, Option.filter_some,
    if_pos (by simpa using hne)]

/-! ### The window -/

theorem checkedAdd_toInt {a b sum : Int64} (h : checkedAdd a b = some sum) :
    sum.toInt = a.toInt + b.toInt := by
  unfold checkedAdd at h
  split_ifs at h with hfits
  cases h
  have hmin : Int64.minValue.toInt = -2 ^ 63 := rfl
  have hmax : Int64.maxValue.toInt = 2 ^ 63 - 1 := rfl
  rw [Int64.toInt_add]
  exact Int.bmod_eq_of_le (by omega) (by omega)

/-- Saturated or not, a difference is above a bound that an `i64` holds if the true one is. -/
theorem lt_saturatingSub {bound a b : Int64} (hbound : bound.toInt < Int64.maxValue.toInt)
    (h : b.toInt < a.toInt) : bound < saturatingSub a b ↔ bound.toInt < a.toInt - b.toInt := by
  have hmin : Int64.minValue.toInt = -2 ^ 63 := rfl
  have hmax : Int64.maxValue.toInt = 2 ^ 63 - 1 := rfl
  unfold saturatingSub
  rw [if_neg (by omega), Int64.lt_iff_toInt_lt]
  split_ifs with hover
  · omega
  · rw [Int64.toInt_sub, Int.bmod_eq_of_le (by omega) (by omega)]

/-- What `new` has checked of the payload it gives, and when that expires. -/
structure Produced (parsesKey : Octets 32 → Bool) (probe : Octets 32 → Octets 32) (t : Int64)
    (qr : PairingQr) : Prop where
  version : qr.version = protocolVersion
  expires : qr.expires.toInt = t.toInt + 60
  name : qr.pcName.utf8ByteSize ≤ pcNameMaxBytes
  fields : qr.validateFields parsesKey probe t false = .ok ()

theorem produced_of_new {idPub dhPub nonce : Octets 32} {name : String} {uuid : Octets 16}
    (h : PairingQr.new parsesKey probe t idPub dhPub nonce name uuid = .ok qr) :
    Produced parsesKey probe t qr := by
  unfold PairingQr.new at h
  split_ifs at h with hname
  cases hadd : checkedAdd t qrTtl with
  | none =>
    rw [hadd] at h
    cases h
  | some expires =>
    rw [hadd] at h
    dsimp only at h
    generalize hvalid : PairingQr.validateFields parsesKey probe _ t false = valid at h
    cases valid with
    | error e => cases h
    | ok u =>
      cases h
      exact ⟨rfl, checkedAdd_toInt hadd, Nat.le_of_not_lt hname, hvalid⟩

/-- With the other fields in order, only the window decides. -/
theorem Produced.validateFields (h : Produced parsesKey probe t qr) (now : Int64) :
    qr.validateFields parsesKey probe now true =
      if qr.isExpired now then .error .qrExpired
      else if maxQrFutureSkewSeconds < saturatingSub qr.expires now then .error .pairingFailed
      else .ok () := by
  have hfields := h.fields
  unfold PairingQr.validateFields at hfields ⊢
  by_cases hname : pcNameMaxBytes < qr.pcName.utf8ByteSize ∨ qr.bleServiceUuid ≠ serviceUuidBytes ∨
      qr.nonce.1.all (· = 0)
  · rw [if_pos hname] at hfields
    cases hfields
  by_cases hkey : ¬ parsesKey qr.pcIdPub
  · rw [if_neg hname, if_pos hkey] at hfields
    cases hfields
  by_cases hprobe : (probe qr.pcDhPub).1.all (· = 0)
  · rw [if_neg hname, if_neg hkey, if_pos hprobe] at hfields
    cases hfields
  rw [if_neg hname, if_neg hkey, if_neg hprobe]
  rfl

theorem isExpired_iff : qr.isExpired now = true ↔ qr.expires.toInt ≤ now.toInt := by
  rw [PairingQr.isExpired, decide_eq_true_iff, Int64.le_iff_toInt_le]

/-- A payload that was read back is judged by its fields. -/
theorem parse_of_readsBack (h64 : Base64Laws encode64 decode64) (h : Produced parsesKey probe t qr)
    (hread : ReadsBack readValue readQr qr) (now : Int64) :
    PairingQr.parse parsesKey probe decode64 readValue readQr (encode64 (Cbor.write qr.item)) now =
      (qr.validateFields parsesKey probe now true).map fun _ => qr := by
  have hlen := write_item_length h.name
  have hsize : (encode64 (Cbor.write qr.item)).utf8ByteSize ≤ maxEncodedQrBytes := by
    rw [h64.size]
    unfold maxEncodedQrBytes
    omega
  have hcbor : ¬ maxEncodedQrBytes < (Cbor.write qr.item).length := by
    unfold maxEncodedQrBytes
    omega
  have hfirst : FirstVersion
      (Value.ofEntries (("v", .unsigned qr.version.toUInt64) :: qr.entries)) 1 := by
    refine ⟨[], Value.ofEntries qr.entries, ?_, fun m => List.not_mem_nil⟩
    rw [h.version]
    rfl
  have hversion : decodeVersion readValue (Cbor.write qr.item) = some protocolVersion :=
    decodeVersion_of_first hread.value hfirst (by decide) (by decide)
  rw [parse_encode h64 hsize, PairingQr.parseCbor, if_neg hcbor, hversion, Option.filter_some,
    if_neg (by simp), hread.payload]
  dsimp only
  rw [if_neg (not_not_intro rfl), if_neg (not_not_intro h.version)]

end Scanning

/-- A fresh code is read back for as long as it is valid, and up to a minute before it was
made; a map of another version is refused for its version, whatever else is in it. -/
theorem qr_window_and_version (parsesKey : Octets 32 → Bool) (probe : Octets 32 → Octets 32)
    (intoWriter : PairingQr → Except String Bytes) (readValue : Bytes → Option (Value × Nat))
    (readQr : Bytes → Option (PairingQr × Nat)) (encode64 : Bytes → String)
    (decode64 : String → Option Bytes) (hwrites : WritesStruct intoWriter)
    (h64 : Base64Laws encode64 decode64) :
    (∀ (t now : Int64) (idPub dhPub nonce : Octets 32) (name : String) (uuid : Octets 16)
        (qr : PairingQr), PairingQr.new parsesKey probe t idPub dhPub nonce name uuid = .ok qr →
        ReadsBack readValue readQr qr →
      ∃ text, qr.encode intoWriter encode64 = .ok text ∧
        (t.toInt - 60 ≤ now.toInt → now.toInt < t.toInt + 60 →
          PairingQr.parse parsesKey probe decode64 readValue readQr text now = .ok qr) ∧
        (t.toInt + 60 ≤ now.toInt →
          PairingQr.parse parsesKey probe decode64 readValue readQr text now = .error .qrExpired) ∧
        (now.toInt < t.toInt - 60 →
          ∃ e, PairingQr.parse parsesKey probe decode64 readValue readQr text now = .error e ∧
            e ≠ .qrExpired)) ∧
    ∀ (cbor : Bytes) (fields : List (Value × Value)) (n : Int) (now : Int64),
      readValue cbor = some (.map fields, cbor.length) → FirstVersion fields n →
      0 ≤ n → n < 65536 → n ≠ protocolVersion.toNat →
      (encode64 cbor).utf8ByteSize ≤ maxEncodedQrBytes →
      PairingQr.parse parsesKey probe decode64 readValue readQr (encode64 cbor) now =
        .error (.versionMismatch (UInt16.ofNat n.toNat) protocolVersion) := by
  constructor
  · intro t now idPub dhPub nonce name uuid qr hnew hread
    have hqr := produced_of_new hnew
    have hskew : maxQrFutureSkewSeconds.toInt = 120 := rfl
    have hmax : Int64.maxValue.toInt = 2 ^ 63 - 1 := rfl
    have hexpires := hqr.expires
    refine ⟨_, encode_eq_ok hwrites hqr.name, ?_, ?_, ?_⟩
    · intro hearly hlate
      rw [parse_of_readsBack h64 hqr hread, hqr.validateFields,
        if_neg (by rw [isExpired_iff]; omega),
        if_neg (by rw [lt_saturatingSub (by omega) (by omega)]; omega)]
      rfl
    · intro hlate
      rw [parse_of_readsBack h64 hqr hread, hqr.validateFields,
        if_pos (by rw [isExpired_iff]; omega)]
      rfl
    · intro hearly
      refine ⟨.pairingFailed, ?_, by decide⟩
      rw [parse_of_readsBack h64 hqr hread, hqr.validateFields,
        if_neg (by rw [isExpired_iff]; omega),
        if_pos (by rw [lt_saturatingSub (by omega) (by omega)]; omega)]
      rfl
  · intro cbor fields n now hread hfirst hlow hhigh hother hsize
    exact parse_of_first h64 hread hfirst hlow hhigh hother hsize

/-- A payload made at second 0. -/
def sampleQr : PairingQr :=
  ⟨1, .replicate 32 1, .replicate 32 2, .replicate 32 3, 60, "pc",
    serviceUuidBytes⟩

/-- ciborium, on that payload and on the map with `v = 2` and nothing else. -/
def sampleValue (bytes : Bytes) : Option (Value × Nat) :=
  if bytes = [0xa1, 0x61, 0x76, 0x02] then some (.map [(.text "v", .integer 2)], 4)
  else some (.ofItem sampleQr.item, bytes.length)

/-- The payload is read in its last second, and the other map is refused for its version. -/
theorem sample_read_in_last_second :
    (∃ text, sampleQr.encode (fun qr => .ok (Cbor.write qr.item)) Base64.encode = .ok text ∧
      PairingQr.parse (fun _ => true) (fun key => key) Base64.decode sampleValue
        (fun bytes => some (sampleQr, bytes.length)) text 59 = .ok sampleQr) ∧
    PairingQr.parse (fun _ => true) (fun key => key) Base64.decode sampleValue
      (fun bytes => some (sampleQr, bytes.length)) (Base64.encode [0xa1, 0x61, 0x76, 0x02]) 59 =
        .error (.versionMismatch 2 1) := by
  have hboth := qr_window_and_version (fun _ => true) (fun key => key)
    (fun qr => .ok (Cbor.write qr.item)) sampleValue (fun bytes => some (sampleQr, bytes.length))
    Base64.encode Base64.decode (fun _ => rfl) base64Laws
  constructor
  · have hread : ReadsBack sampleValue (fun bytes => some (sampleQr, bytes.length)) sampleQr :=
      ⟨if_neg (by decide), rfl⟩
    obtain ⟨text, htext, hvalid, -⟩ := hboth.1 0 59 (Octets.replicate 32 1) (Octets.replicate 32 2)
      (Octets.replicate 32 3) "pc" serviceUuidBytes sampleQr (by rfl) hread
    exact ⟨text, htext, hvalid (by decide) (by decide)⟩
  · exact hboth.2 _ [(.text "v", .integer 2)] 2 59 rfl
      ⟨[], [], rfl, fun m => List.not_mem_nil⟩ (by decide) (by decide) (by decide)
      (by rw [Base64.encode_size]; decide)

end Conveyance.Pairing
