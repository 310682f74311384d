import Mathlib.Data.Nat.Bitwise
import Conveyance.Lib.Bytes

/-!
# Octets and words in signed machine integers

A platform whose octets are signed eight-bit numbers and whose arithmetic is
signed 32-bit reads a byte as `b.toInt32 &&& 0xFF`, puts two of them together by
a shift and an or, and takes them apart by a logical shift and a mask. The
lemmas here say what these come to in terms of natural numbers.
-/

namespace Lib

/-- Logical shift to the right. -/
def ushr (x : Int32) (n : UInt32) : Int32 := (x.toUInt32 >>> n).toInt32

/-- A byte string as a platform with signed octets holds it. -/
def octets (b : Bytes) : List Int8 := b.map UInt8.toInt8

@[simp] theorem octets_length (b : Bytes) : (octets b).length = b.length := List.length_map _

theorem octets_append (a b : Bytes) : octets (a ++ b) = octets a ++ octets b := List.map_append

theorem octets_take (n : Nat) (b : Bytes) : octets (b.take n) = (octets b).take n := List.map_take

theorem octets_drop (n : Nat) (b : Bytes) : octets (b.drop n) = (octets b).drop n := List.map_drop

/-- The signed reading loses nothing. -/
@[simp] theorem octets_map_toUInt8 (b : Bytes) : (octets b).map Int8.toUInt8 = b := by
  rw [octets, List.map_map]
  exact List.map_id b

theorem octets_eq_nil {b : Bytes} : octets b = [] ↔ b = [] := List.map_eq_nil_iff

/-! ## Numbers below 2 ^ 31 -/

section

variable {a b : Nat}

/-- Below `2 ^ 31` the words are the numbers. -/
theorem int32_ofNat_inj (ha : a < 2 ^ 31) (hb : b < 2 ^ 31) :
    Int32.ofNat a = Int32.ofNat b ↔ a = b := by
  rw [← Int32.toInt_inj, Int32.toInt_ofNat_of_lt ha, Int32.toInt_ofNat_of_lt hb, Int.natCast_inj]

theorem int32_ofNat_not_neg (ha : a < 2 ^ 31) : ¬ Int32.ofNat a < 0 := by
  rw [Int32.lt_iff_toInt_lt, Int32.toInt_ofNat_of_lt ha]
  exact Int.not_lt.mpr (Int.natCast_nonneg a)

/-- The smaller word is that of the smaller number. -/
theorem int32_ofNat_min (ha : a < 2 ^ 31) (hb : b < 2 ^ 31) :
    min (Int32.ofNat a) (Int32.ofNat b) = Int32.ofNat (min a b) := by
  show (if Int32.ofNat a ≤ Int32.ofNat b then Int32.ofNat a else Int32.ofNat b) = _
  simp only [Int32.ofNat_le_iff_le ha hb, Nat.min_def, apply_ite Int32.ofNat]

theorem toInt_max (x y : Int32) : (max x y).toInt = max x.toInt y.toInt := by
  show (if x ≤ y then y else x).toInt = _
  simp only [Int32.le_iff_toInt_le, Int.max_def, apply_ite Int32.toInt]

theorem int32_ofNat_max (ha : a < 2 ^ 31) (hb : b < 2 ^ 31) :
    max (Int32.ofNat a) (Int32.ofNat b) = Int32.ofNat (max a b) := by
  show (if Int32.ofNat a ≤ Int32.ofNat b then Int32.ofNat b else Int32.ofNat a) = _
  simp only [Int32.ofNat_le_iff_le ha hb, Nat.max_def, apply_ite Int32.ofNat]

/-- Quotients stay in range. -/
theorem int32_ofNat_div (ha : a < 2 ^ 31) (hb : b < 2 ^ 31) :
    Int32.ofNat a / Int32.ofNat b = Int32.ofNat (a / b) := by
  have hq : a / b < 2 ^ 31 := Nat.lt_of_le_of_lt (Nat.div_le_self a b) ha
  rw [← Int32.toInt_inj, Int32.toInt_div, Int32.toInt_ofNat_of_lt ha, Int32.toInt_ofNat_of_lt hb,
    Int32.toInt_ofNat_of_lt hq, ← Int.ofNat_tdiv]
  exact Int.bmod_eq_of_le (by have := Int.natCast_nonneg (a / b); omega) (by omega)

end

/-! ## Masks and octets -/

theorem int32_and_ofNat (a b : Nat) : Int32.ofNat a &&& Int32.ofNat b = Int32.ofNat (a &&& b) := by
  rw [← Int32.toBitVec_inj, Int32.toBitVec_and]
  exact BitVec.ofNat_and.symm

/-- A mask of the low `k` bits keeps the remainder modulo `2 ^ k`. -/
theorem int32_and_mask (a k : Nat) :
    Int32.ofNat a &&& Int32.ofNat (2 ^ k - 1) = Int32.ofNat (a % 2 ^ k) := by
  rw [int32_and_ofNat, Nat.and_two_pow_sub_one_eq_mod]

/-- A signed octet is widened with its sign; the mask takes the sign off. -/
theorem toInt32_and_ff (b : UInt8) : b.toInt8.toInt32 &&& 0xFF = Int32.ofNat b.toNat := by
  -- there are only 256 octets
  have hall : ∀ v : BitVec 8, v.signExtend 32 &&& 0xFF#32 = BitVec.ofNat 32 v.toNat := by decide
  rw [← Int32.toBitVec_inj, Int32.toBitVec_and, Int8.toBitVec_toInt32, UInt8.toBitVec_toInt8]
  exact hall b.toBitVec

/-- The same of a 16-bit word. -/
theorem toInt32_and_ffff (w : UInt16) : w.toInt16.toInt32 &&& 0xFFFF = Int32.ofNat w.toNat := by
  have hw := w.toNat_lt
  rw [← Int32.toBitVec_inj, Int32.toBitVec_and, Int16.toBitVec_toInt32, UInt16.toBitVec_toInt16]
  apply BitVec.eq_of_toNat_eq
  show _ &&& (2 ^ 16 - 1) = w.toNat % 2 ^ 32
  rw [Nat.and_two_pow_sub_one_eq_mod, BitVec.toNat_signExtend, BitVec.toNat_setWidth,
    UInt16.toNat_toBitVec]
  split <;> omega

/-- Two octets put together big-endian are the word they encode. -/
theorem shl_or_octets (hi lo : UInt8) :
    (Int32.ofNat hi.toNat <<< 8) ||| Int32.ofNat lo.toNat = Int32.ofNat (u16OfBe hi lo).toNat := by
  have hhi : hi.toNat < 256 := hi.toNat_lt
  have hlo : lo.toNat < 2 ^ 8 := lo.toNat_lt
  have hword : (u16OfBe hi lo).toNat = hi.toNat <<< 8 ||| lo.toNat := by
    rw [u16OfBe, u16OfNat_toNat (by omega), ← Nat.shiftLeft_add_eq_or_of_lt hlo, Nat.shiftLeft_eq]
  have hshift : Int32.ofNat hi.toNat <<< 8 = Int32.ofNat (hi.toNat <<< 8) := by
    rw [← Int32.toBitVec_inj, Int32.toBitVec_shiftLeft]
    show BitVec.ofNat 32 hi.toNat <<< (8 : Nat) = BitVec.ofNat 32 (hi.toNat <<< 8)
    apply BitVec.eq_of_toNat_eq
    simp only [BitVec.toNat_shiftLeft, BitVec.toNat_ofNat, Nat.shiftLeft_eq]
    omega
  rw [hword, hshift, ← Int32.toBitVec_inj, Int32.toBitVec_or]
  exact BitVec.ofNat_or.symm

theorem toInt8_int32_ofNat (n : Nat) : (Int32.ofNat n).toInt8 = (UInt8.ofNat n).toInt8 := by
  rw [← Int8.toBitVec_inj, Int32.toBitVec_toInt8, UInt8.toBitVec_toInt8]
  show (BitVec.ofNat 32 n).signExtend 8 = BitVec.ofNat 8 n
  rw [BitVec.signExtend_eq_setWidth_of_le _ (by omega), BitVec.setWidth_ofNat_of_le (by omega)]

theorem toInt16_int32_ofNat (n : Nat) : (Int32.ofNat n).toInt16.toUInt16 = UInt16.ofNat n := by
  rw [← UInt16.toBitVec_inj, Int16.toBitVec_toUInt16, Int32.toBitVec_toInt16]
  show (BitVec.ofNat 32 n).signExtend 16 = BitVec.ofNat 16 n
  rw [BitVec.signExtend_eq_setWidth_of_le _ (by omega), BitVec.setWidth_ofNat_of_le (by omega)]

/-- The low octet of a word. -/
theorem low_octet (n : Nat) : (Int32.ofNat n &&& 0xFF).toInt8 = (UInt8.ofNat (n % 256)).toInt8 := by
  have hmask : Int32.ofNat n &&& 0xFF = Int32.ofNat (n % 256) := int32_and_mask n 8
  rw [hmask, toInt8_int32_ofNat]

/-- The octet above it. -/
theorem high_octet (n : Nat) :
    (ushr (Int32.ofNat n) 8 &&& 0xFF).toInt8 = (UInt8.ofNat (n / 256)).toInt8 := by
  have hshift : ushr (Int32.ofNat n) 8 = Int32.ofNat (n % 2 ^ 32 / 256) := by
    rw [← Int32.toBitVec_inj]
    show BitVec.ofNat 32 n >>> (8 : Nat) = BitVec.ofNat 32 (n % 2 ^ 32 / 256)
    apply BitVec.eq_of_toNat_eq
    simp only [BitVec.toNat_ushiftRight, BitVec.toNat_ofNat, Nat.shiftRight_eq_div_pow]
    omega
  have hoctet : n % 2 ^ 32 / 256 % 256 = n / 256 % 2 ^ 8 := by omega
  rw [hshift, low_octet, hoctet, UInt8.ofNat_mod_size]

/-- A sum masked to 16 bits is the sum of the words. -/
theorem add_and_ffff (x : UInt16) (n : Nat) :
    (Int32.ofNat x.toNat + Int32.ofNat n) &&& 0xFFFF = Int32.ofNat (x + UInt16.ofNat n).toNat := by
  have hmask : Int32.ofNat (x.toNat + n) &&& 0xFFFF = Int32.ofNat ((x.toNat + n) % 2 ^ 16) :=
    int32_and_mask (x.toNat + n) 16
  rw [← Int32.ofNat_add, hmask, UInt16.toNat_add, UInt16.toNat_ofNat', Nat.add_mod_mod]

end Lib
