import Conveyance.Lib.Text

/-!
# Base64 for URLs, without padding

Three octets are four digits of six bits. One or two octets at the end are two or three
digits, whose unused bits are zero; a decoder that insists on that takes back exactly what
an encoder writes (`decode_encode`).
-/

namespace Lib.Base64

def alphabet : List Char :=
  "ABCDEFGHIJKLMNOPQRSTUVWXYZabcdefghijklmnopqrstuvwxyz0123456789-_".toList

def digit (n : Nat) : Char := alphabet.getD n 'A'

def value (c : Char) : Option Nat := alphabet.idxOf? c

/-- Octets to digits. -/
def digits : Bytes → List Nat
  | [] => []
  | [a] => [a.toNat / 4, a.toNat % 4 * 16]
  | [a, b] => [a.toNat / 4, a.toNat % 4 * 16 + b.toNat / 16, b.toNat % 16 * 4]
  | a :: b :: c :: rest =>
    a.toNat / 4 :: (a.toNat % 4 * 16 + b.toNat / 16) :: (b.toNat % 16 * 4 + c.toNat / 64) ::
      c.toNat % 64 :: digits rest

/-- Digits to octets. One digit alone is no octet, and no bit is left over. -/
def octets : List Nat → Option Bytes
  | [] => some []
  | [_] => none
  | [x, y] => if y % 16 = 0 then some [UInt8.ofNat (x * 4 + y / 16)] else none
  | [x, y, z] =>
    if z % 4 = 0 then some [UInt8.ofNat (x * 4 + y / 16), UInt8.ofNat (y % 16 * 16 + z / 4)]
    else none
  | x :: y :: z :: w :: rest => do
    let bytes ← octets rest
    return UInt8.ofNat (x * 4 + y / 16) :: UInt8.ofNat (y % 16 * 16 + z / 4) ::
      UInt8.ofNat (z % 4 * 64 + w) :: bytes

variable (bytes : Bytes)

def encode : String := String.ofList ((digits bytes).map digit)

def decode (text : String) : Option Bytes := do
  let values ← text.toList.mapM value
  octets values

/-! ## Round trip -/

theorem ofNat_toNat_eq {n : Nat} {a : UInt8} (h : n = a.toNat) : UInt8.ofNat n = a := by
  rw [h, UInt8.ofNat_toNat]

/-- The digits give the octets back. -/
theorem octets_digits : octets (digits bytes) = some bytes := by
  induction bytes using digits.induct with
  | case1 => rfl
  | case2 a =>
    have ha := a.toNat_lt
    -- the unused bits of the last digit are zero
    rw [digits, octets, if_pos (by omega), ofNat_toNat_eq (a := a) (by omega)]
  | case3 a b =>
    have ha := a.toNat_lt
    have hb := b.toNat_lt
    rw [digits, octets, if_pos (by omega), ofNat_toNat_eq (a := a) (by omega),
      ofNat_toNat_eq (a := b) (by omega)]
  | case4 a b c rest ih =>
    have ha := a.toNat_lt
    have hb := b.toNat_lt
    have hc := c.toNat_lt
    rw [digits, octets, ih, ofNat_toNat_eq (a := a) (by omega), ofNat_toNat_eq (a := b) (by omega),
      ofNat_toNat_eq (a := c) (by omega)]
    rfl

/-- A digit has six bits. -/
theorem digits_lt : ∀ n ∈ digits bytes, n < 64 := by
  induction bytes using digits.induct with
  | case1 => simp [digits]
  | case2 a =>
    have ha := a.toNat_lt
    simp only [digits, List.mem_cons, List.not_mem_nil, or_false, forall_eq_or_imp, forall_eq]
    omega
  | case3 a b =>
    have ha := a.toNat_lt
    have hb := b.toNat_lt
    simp only [digits, List.mem_cons, List.not_mem_nil, or_false, forall_eq_or_imp, forall_eq]
    omega
  | case4 a b c rest ih =>
    have ha := a.toNat_lt
    have hb := b.toNat_lt
    have hc := c.toNat_lt
    simp only [digits, List.mem_cons, forall_eq_or_imp]
    exact ⟨by omega, by omega, by omega, by omega, ih⟩

theorem digits_length : (digits bytes).length = (4 * bytes.length + 2) / 3 := by
  induction bytes using digits.induct with
  | case1 => rfl
  | case2 | case3 => simp [digits]
  | case4 a b c rest ih =>
    simp only [digits, List.length_cons, ih]
    omega

/-- What is known of a digit's letter. -/
theorem digit_spec : ∀ n < 64, value (digit n) = some n ∧ (digit n).utf8Size = 1 ∧
    isWhiteSpace (digit n) = false := by
  decide

/-- Letters give their digits back. -/
theorem mapM_value {ns : List Nat} (h : ∀ n ∈ ns, n < 64) :
    (ns.map digit).mapM value = some ns := by
  induction ns with
  | nil => rfl
  | cons n ns ih =>
    obtain ⟨hn, hns⟩ := List.forall_mem_cons.mp h
    rw [List.map_cons, List.mapM_cons, (digit_spec n hn).1, ih hns]
    rfl

/-- **Round trip.** -/
theorem decode_encode : decode (encode bytes) = some bytes := by
  rw [decode, encode, String.toList_ofList, mapM_value (digits_lt bytes)]
  exact octets_digits bytes

/-! ## The text -/

/-- A letter is one octet of UTF-8. -/
theorem encode_size : (encode bytes).utf8ByteSize = (4 * bytes.length + 2) / 3 := by
  have hutf8 : (encode bytes).utf8ByteSize = (encode bytes).toUTF8.data.toList.length :=
    Array.length_toList.symm
  have hone : ∀ c ∈ (digits bytes).map digit, (String.utf8EncodeChar c).length = 1 := by
    intro c hc
    obtain ⟨n, hn, rfl⟩ := List.mem_map.mp hc
    rw [String.length_utf8EncodeChar]
    exact (digit_spec n (digits_lt bytes n hn)).2.1
  rw [hutf8, encode, toUTF8_ofList, List.length_flatMap, List.map_congr_left hone, List.map_const',
    List.sum_replicate_nat, List.length_map, Nat.mul_one, digits_length]

theorem dropWhile_of_visible {cs : List Char} (h : ∀ c ∈ cs, isWhiteSpace c = false) :
    cs.dropWhile isWhiteSpace = cs := by
  cases cs with
  | nil => rfl
  | cons c cs => exact List.dropWhile_cons_of_neg (by simp [h c List.mem_cons_self])

/-- Nothing is trimmed off an encoded text. -/
theorem trim_encode : trim (encode bytes) = encode bytes := by
  have hvisible : ∀ c ∈ (digits bytes).map digit, isWhiteSpace c = false := by
    intro c hc
    obtain ⟨n, hn, rfl⟩ := List.mem_map.mp hc
    exact (digit_spec n (digits_lt bytes n hn)).2.2
  rw [trim, encode, String.toList_ofList, dropWhile_of_visible hvisible,
    dropWhile_of_visible (by simpa using hvisible), List.reverse_reverse]

end Lib.Base64
