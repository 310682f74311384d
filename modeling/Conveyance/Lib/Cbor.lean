import Conveyance.Lib.Bytes

/-!
# CBOR data items

The items a serializer of structs, strings and integers writes, and their
definite-length encoding with the shortest heads.
-/

namespace Lib.Cbor

/-- The data items that are written. -/
inductive Item where
  | unsigned (n : UInt64)
  /-- The integer `-1 - n`. -/
  | negative (n : UInt64)
  | bytes (b : Bytes)
  | text (s : String)
  | array (items : List Item)
  | map (entries : List (String × Item))
  | bool (b : Bool)
  | null
  | double (bits : UInt64)

/-- The octets of `n`, most significant first, as `count` of them. -/
def bigEndian : Nat → Nat → Bytes
  | 0, _ => []
  | count + 1, n => UInt8.ofNat (n / 256 ^ count % 256) :: bigEndian count n

/-- The head of an item: its major type and argument. -/
def head (major n : Nat) : Bytes :=
  if n < 24 then [UInt8.ofNat (major * 32 + n)]
  else if n < 2 ^ 8 then UInt8.ofNat (major * 32 + 24) :: bigEndian 1 n
  else if n < 2 ^ 16 then UInt8.ofNat (major * 32 + 25) :: bigEndian 2 n
  else if n < 2 ^ 32 then UInt8.ofNat (major * 32 + 26) :: bigEndian 4 n
  else UInt8.ofNat (major * 32 + 27) :: bigEndian 8 n

def writeText (s : String) : Bytes :=
  let utf8 := s.toUTF8.data.toList
  head 3 utf8.length ++ utf8

mutual
def write : Item → Bytes
  | .unsigned n => head 0 n.toNat
  | .negative n => head 1 n.toNat
  | .bytes b => head 2 b.length ++ b
  | .text s => writeText s
  | .array items => head 4 items.length ++ writeItems items
  | .map entries => head 5 entries.length ++ writeEntries entries
  | .bool false => [0xf4]
  | .bool true => [0xf5]
  | .null => [0xf6]
  | .double bits => 0xfb :: bigEndian 8 bits.toNat
def writeItems : List Item → Bytes
  | [] => []
  | item :: items => write item ++ writeItems items
def writeEntries : List (String × Item) → Bytes
  | [] => []
  | (key, item) :: entries => writeText key ++ write item ++ writeEntries entries
end

/-- A negative `n` is written as `-1 - n`. -/
def ofInt64 (n : Int64) : Item :=
  if n < 0 then .negative (-1 - n).toUInt64 else .unsigned n.toUInt64

end Lib.Cbor
