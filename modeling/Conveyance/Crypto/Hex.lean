import Conveyance.Lib.Bytes

/-!
# Lowercase hex (conveyance-crypto, lib.rs)

Binary identifiers enter canonical JSON as lowercase hex. `hexEncode_inj` is
what makes that harmless.
-/

namespace Conveyance.Crypto

open Lib

/-- `HEX[i]`. -/
def hexDigit (d : Nat) : Char := Nat.digitChar d

def hexPair (b : UInt8) : List Char := [hexDigit (b.toNat / 16), hexDigit (b.toNat % 16)]

/-- Two lowercase digits for each octet. -/
def hexEncode (bytes : Bytes) : String := String.ofList (bytes.flatMap hexPair)

theorem hexDigit_inj {d e : Nat} (hd : d < 16) (he : e < 16) (h : hexDigit d = hexDigit e) :
    d = e := by
  have hall : ∀ d < 16, ∀ e < 16, hexDigit d = hexDigit e → d = e := by decide
  exact hall d hd e he h

/-- The first two digits are those of the first octet. -/
theorem hexPair_inj {a b : UInt8} {as bs : List Char} (h : hexPair a ++ as = hexPair b ++ bs) :
    a = b ∧ as = bs := by
  have ha : a.toNat < 256 := a.toNat_lt
  have hb : b.toNat < 256 := b.toNat_lt
  obtain ⟨hhigh, hlow, htail⟩ : hexDigit (a.toNat / 16) = hexDigit (b.toNat / 16) ∧
      hexDigit (a.toNat % 16) = hexDigit (b.toNat % 16) ∧ as = bs := by
    simpa [hexPair] using h
  have hhigh := hexDigit_inj (by omega) (by omega) hhigh
  have hlow := hexDigit_inj (by omega) (by omega) hlow
  exact ⟨UInt8.toNat_inj.mp (by omega), htail⟩

theorem flatMap_hexPair_inj {a b : Bytes} (h : a.flatMap hexPair = b.flatMap hexPair) : a = b := by
  induction a generalizing b with
  | nil =>
    cases b with
    | nil => rfl
    | cons y b => exact absurd h (by simp [hexPair])
  | cons x a ih =>
    cases b with
    | nil => exact absurd h (by simp [hexPair])
    | cons y b =>
      obtain ⟨rfl, htail⟩ := hexPair_inj h
      rw [ih htail]

/-- Two byte strings with one rendering are equal. -/
theorem hexEncode_inj {a b : Bytes} (h : hexEncode a = hexEncode b) : a = b :=
  flatMap_hexPair_inj (String.ofList_injective h)

/-! ## Reading -/

/-- Uppercase digits are not taken. -/
def fromLowerHexDigit (c : UInt8) : Option UInt8 :=
  if 48 ≤ c.toNat ∧ c.toNat ≤ 57 then some (c - 48)
  else if 97 ≤ c.toNat ∧ c.toNat ≤ 102 then some (c - 97 + 10)
  else none

/-- The pairs of an even number of octets. -/
def decodePairs : Bytes → Option Bytes
  | hi :: lo :: rest => do
    let h ← fromLowerHexDigit hi
    let l ← fromLowerHexDigit lo
    let out ← decodePairs rest
    some ((h <<< 4 ||| l) :: out)
  | _ => some []

/-- Reading goes over the octets of the text, whatever characters they belong to. -/
def hexDecode (s : String) : Option Bytes :=
  let bytes := s.toUTF8.data.toList
  if bytes.length % 2 ≠ 0 then none else decodePairs bytes

def hexDecodeArray (n : Nat) (s : String) : Option (Octets n) :=
  if s.toUTF8.data.toList.length ≠ n * 2 then none
  else (hexDecode s).bind fun out => if h : out.length = n then some ⟨out, h⟩ else none

/-- A digit is one octet, and is read as its value. -/
theorem fromLowerHexDigit_hexDigit {d : Nat} (hd : d < 16) :
    String.utf8EncodeChar (hexDigit d) = [(hexDigit d).toUInt8] ∧
      fromLowerHexDigit (hexDigit d).toUInt8 = some (UInt8.ofNat d) := by
  have hall : ∀ d < 16, String.utf8EncodeChar (hexDigit d) = [(hexDigit d).toUInt8] ∧
      fromLowerHexDigit (hexDigit d).toUInt8 = some (UInt8.ofNat d) := by
    decide
  exact hall d hd

/-- The two octets of the rendering of an octet. -/
def hexOctets (b : UInt8) : Bytes :=
  [(hexDigit (b.toNat / 16)).toUInt8, (hexDigit (b.toNat % 16)).toUInt8]

theorem toUTF8_hexEncode (bytes : Bytes) :
    (hexEncode bytes).toUTF8.data.toList = bytes.flatMap hexOctets := by
  rw [hexEncode, toUTF8_ofList, List.flatMap_assoc]
  refine List.flatMap_congr fun b _ => ?_
  have hb : b.toNat < 256 := b.toNat_lt
  have hhigh := (fromLowerHexDigit_hexDigit (d := b.toNat / 16) (by omega)).1
  have hlow := (fromLowerHexDigit_hexDigit (d := b.toNat % 16) (by omega)).1
  rw [hexPair, List.flatMap_cons, List.flatMap_cons, hhigh, hlow]
  rfl

/-- A shift and an or put two digits together. -/
theorem joinDigits {d e : Nat} (hd : d < 16) (he : e < 16) :
    UInt8.ofNat d <<< 4 ||| UInt8.ofNat e = UInt8.ofNat (d * 16 + e) := by
  have hall : ∀ d < 16, ∀ e < 16,
      UInt8.ofNat d <<< 4 ||| UInt8.ofNat e = UInt8.ofNat (d * 16 + e) := by
    decide
  exact hall d hd e he

theorem length_hexOctets (bytes : Bytes) : (bytes.flatMap hexOctets).length = bytes.length * 2 := by
  induction bytes with
  | nil => rfl
  | cons b bytes ih =>
    rw [List.flatMap_cons, List.length_append, ih, List.length_cons, hexOctets]
    simp only [List.length_cons, List.length_nil]
    omega

theorem decodePairs_hexOctets (bytes : Bytes) :
    decodePairs (bytes.flatMap hexOctets) = some bytes := by
  induction bytes with
  | nil => rfl
  | cons b bytes ih =>
    have hb : b.toNat < 256 := b.toNat_lt
    have hhigh := (fromLowerHexDigit_hexDigit (d := b.toNat / 16) (by omega)).2
    have hlow := (fromLowerHexDigit_hexDigit (d := b.toNat % 16) (by omega)).2
    have hjoin : UInt8.ofNat (b.toNat / 16) <<< 4 ||| UInt8.ofNat (b.toNat % 16) = b := by
      rw [joinDigits (by omega) (by omega), Nat.div_add_mod', UInt8.ofNat_toNat]
    rw [List.flatMap_cons, hexOctets, List.cons_append, List.cons_append, List.nil_append,
      decodePairs, hhigh, hlow, ih]
    exact congrArg (fun x => some (x :: bytes)) hjoin

theorem hexDecode_hexEncode (bytes : Bytes) : hexDecode (hexEncode bytes) = some bytes := by
  unfold hexDecode
  dsimp only
  rw [toUTF8_hexEncode, length_hexOctets, if_neg (by omega), decodePairs_hexOctets]

/-- What was written is read back. -/
theorem hexDecodeArray_hexEncode {n : Nat} (bytes : Octets n) :
    hexDecodeArray n (hexEncode bytes.1) = some bytes := by
  unfold hexDecodeArray
  rw [toUTF8_hexEncode, length_hexOctets, bytes.2, if_neg (by simp), hexDecode_hexEncode]
  exact dif_pos bytes.2

end Conveyance.Crypto
