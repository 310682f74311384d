import Conveyance.Lib.Bytes
import Conveyance.Lib.JsonParser
import Mathlib.Data.List.Perm.Basic

/-!
# Canonical JSON (conveyance-crypto, canonical_json.rs)

The RFC 8785 writer every signature, hash and approval comparison goes
through: members sorted by UTF-16 code units, minimal escapes, exact 64-bit
integers, and doubles refused. `reads_writeValue` is the round trip: whatever is written
reads back as the value, in any context a value can stand in.
-/

namespace Conveyance.Crypto

open Lib

inductive CryptoError where
  | signatureInvalid
  | decryptionFailed
  | entropyFailure
  | badRecoveryPhrase
  | badKeyBytes
  | kdfFailure
  | outsideCanonicalDomain
deriving DecidableEq

/-! ## The writer -/

/-- The UTF-16 code units of a scalar. -/
def utf16Units (c : Char) : List Nat :=
  if c.toNat < 0x10000 then [c.toNat]
  else [0xD800 + (c.toNat - 0x10000) / 0x400, 0xDC00 + (c.toNat - 0x10000) % 0x400]

def encodeUtf16 (s : String) : List Nat := s.toList.flatMap utf16Units

/-- The text `write_string` pushes for one character. -/
def escapeChar (c : Char) : List Char :=
  if c = '"' then ['\\', '"']
  else if c = '\\' then ['\\', '\\']
  else if c = '\x08' then ['\\', 'b']
  else if c = '\x09' then ['\\', 't']
  else if c = '\x0a' then ['\\', 'n']
  else if c = '\x0c' then ['\\', 'f']
  else if c = '\x0d' then ['\\', 'r']
  else if c.toNat < 0x20 then
    -- `format!("\\u{:04x}", c as u32)` with two leading zeros
    ['\\', 'u', '0', '0', Nat.digitChar (c.toNat / 16), Nat.digitChar (c.toNat % 16)]
  else [c]

def writeString (s : String) : List Char :=
  '"' :: s.toList.flatMap escapeChar ++ ['"']

def asU64 : Json.Number → Option UInt64
  | .posInt n => some n
  | _ => none

def asI64 : Json.Number → Option Int
  | .posInt n => if n.toNat < 2 ^ 63 then some n.toNat else none
  | .negInt i _ _ => some i
  | .float _ => none

/-- `i64::to_string`. -/
def intText (i : Int) : List Char :=
  if i < 0 then '-' :: Nat.toDigits 10 i.natAbs else Nat.toDigits 10 i.natAbs

/-- Integers in decimal. A double is outside the domain. -/
def writeNumber (n : Json.Number) : Except CryptoError (List Char) :=
  match asU64 n with
  | some u => .ok (Nat.toDigits 10 u.toNat)
  | none =>
    match asI64 n with
    | some i => .ok (intText i)
    | none => .error .outsideCanonicalDomain

/-- The order of an object's members: by UTF-16 code units of the key. -/
def keyLe (a b : String × List Char) : Prop := encodeUtf16 a.1 ≤ encodeUtf16 b.1

instance : DecidableRel keyLe := fun a b =>
  inferInstanceAs (Decidable (encodeUtf16 a.1 ≤ encodeUtf16 b.1))

def memberText (m : String × List Char) : List Char := writeString m.1 ++ ':' :: m.2

mutual
/-- The text the source pushes onto its output buffer. An object's member texts are computed in
map order and then sorted, which is the source's sort-then-look-up because keys are distinct and
the only error carries no position. -/
def writeValue : Json → Except CryptoError (List Char)
  | .null => .ok ['n', 'u', 'l', 'l']
  | .bool true => .ok ['t', 'r', 'u', 'e']
  | .bool false => .ok ['f', 'a', 'l', 's', 'e']
  | .number n => writeNumber n
  | .string s => .ok (writeString s)
  | .array items => do
    let texts ← writeItems items
    .ok ('[' :: [','].intercalate texts ++ [']'])
  | .object members => do
    let texts ← writeMembers members
    .ok ('{' :: [','].intercalate ((texts.insertionSort keyLe).map memberText) ++ ['}'])
def writeItems : List Json → Except CryptoError (List (List Char))
  | [] => .ok []
  | x :: xs => do
    let t ← writeValue x
    let ts ← writeItems xs
    .ok (t :: ts)
def writeMembers : List (String × Json) → Except CryptoError (List (String × List Char))
  | [] => .ok []
  | (k, x) :: xs => do
    let t ← writeValue x
    let ts ← writeMembers xs
    .ok ((k, t) :: ts)
end

def canonicalize (value : Json) : Except CryptoError String := do
  let out ← writeValue value
  .ok (String.ofList out)

/-! ## Characters and numbers -/

/-- An escaped character reads back as itself. -/
theorem reads_escapeChar (c : Char) : Json.CharReads (escapeChar c) c := by
  unfold escapeChar
  split_ifs with hquote hback hb ht hn hf hr hctl
  case pos | pos | pos | pos | pos | pos | pos =>
    subst_vars
    exact ⟨⟨'\\', _, rfl, by decide⟩, fun r => by simp [Json.stringChar, Json.shortEscape]⟩
  · refine ⟨⟨'\\', _, rfl, by decide⟩, fun r => ?_⟩
    have hzero : Json.hexVal '0' = some 0 := by decide
    have hhigh := Json.hexVal_digitChar (d := c.toNat / 16) (by omega)
    have hlow := Json.hexVal_digitChar (d := c.toNat % 16) (by omega)
    have hchar : Char.ofNat (c.toNat / 16 * 16 + c.toNat % 16) = c := by
      rw [Nat.div_add_mod']
      exact Char.ofNat_toNat c
    have hhex : Json.hex4 (['0', '0', Nat.digitChar (c.toNat / 16),
        Nat.digitChar (c.toNat % 16)] ++ r) = some (c.toNat / 16 * 16 + c.toNat % 16, r) := by
      simp [Json.hex4, hzero, hhigh, hlow]
    have hunit : ¬ 0xD800 ≤ c.toNat / 16 * 16 + c.toNat % 16 := by omega
    have hescape : Json.unicodeEscape (['0', '0', Nat.digitChar (c.toNat / 16),
        Nat.digitChar (c.toNat % 16)] ++ r) = some (c, r) := by
      rw [Json.unicodeEscape, hhex]
      simp only [hchar]
      rw [if_neg (fun h => hunit h.1), if_neg (fun h => hunit (by omega))]
    simpa [Json.stringChar] using hescape
  · refine ⟨⟨c, [], rfl, hquote⟩, fun r => ?_⟩
    simp [Json.stringChar, hback, hctl]

section RoundTrip

variable (toF64 : List Char → Option UInt64)

theorem reads_writeString (s : String) : Json.Reads toF64 (writeString s) (.string s) := by
  have h : Json.Reads toF64 (writeString s) (.string (String.ofList s.toList)) :=
    .string (.flatMap reads_escapeChar s.toList)
  rwa [String.ofList_toList] at h

theorem ofInteger_posInt (n : UInt64) : Json.Number.ofInteger false n.toNat = some (.posInt n) := by
  have hlt : n.toNat < 2 ^ 64 := n.toNat_lt
  rw [Json.Number.ofInteger, if_neg Bool.false_ne_true, if_pos hlt, UInt64.ofNat_toNat]

/-- The absolute value and the sign give a negative integer back. -/
theorem ofInteger_negInt {i : Int} (hlow : -2 ^ 63 ≤ i) (hneg : i < 0) :
    Json.Number.ofInteger true i.natAbs = some (.negInt i hlow hneg) := by
  have hrange : 0 < i.natAbs ∧ i.natAbs ≤ 2 ^ 63 := by omega
  have habs : -(i.natAbs : Int) = i := by omega
  rw [Json.Number.ofInteger, if_pos rfl, dif_pos hrange]
  simp only [habs]

variable {t : List Char} {items : List Json} {members : List (String × Json)} {text : String}
  {v : Json.Value}

/-- A number that is written reads back exactly. -/
theorem reads_writeNumber {n : Json.Number} (h : writeNumber n = .ok t) :
    Json.Reads toF64 t (.number n) := by
  cases n with
  | posInt n =>
    cases h
    exact .natural (ofInteger_posInt n)
  | negInt i hlow hneg =>
    have htext : t = '-' :: Nat.toDigits 10 i.natAbs := by
      simpa [writeNumber, asU64, asI64, intText, hneg] using h.symm
    rw [htext]
    exact .negative (ofInteger_negInt hlow hneg)
  | float bits => cases h

/-! ## Values -/

/-- What is written for the items, one by one. -/
theorem writeItems_ok : ∀ {ts : List (List Char)},
    writeItems items = .ok ts → List.Forall₂ (fun t x => writeValue x = .ok t) ts items := by
  induction items with
  | nil =>
    intro ts h
    cases h
    exact .nil
  | cons x xs ih =>
    intro ts h
    rw [writeItems] at h
    obtain ⟨t, ht, h⟩ := bind_eq_ok.mp h
    obtain ⟨ts, hts, h⟩ := bind_eq_ok.mp h
    cases h
    exact .cons ht (ih hts)

theorem writeMembers_ok : ∀ {ts : List (String × List Char)},
    writeMembers members = .ok ts →
      List.Forall₂ (fun t m => t.1 = m.1 ∧ writeValue m.2 = .ok t.2) ts members := by
  induction members with
  | nil =>
    intro ts h
    cases h
    exact .nil
  | cons m ms ih =>
    intro ts h
    obtain ⟨k, x⟩ := m
    rw [writeMembers] at h
    obtain ⟨t, ht, h⟩ := bind_eq_ok.mp h
    obtain ⟨ts, hts, h⟩ := bind_eq_ok.mp h
    cases h
    exact .cons ⟨rfl, ht⟩ (ih hts)

theorem reads_memberText {k : String} {x : Json} (h : Json.Reads toF64 t x) :
    Json.MemberReads toF64 (memberText (k, t)) (k, x) :=
  ⟨k.toList.flatMap escapeChar, t, by simp [memberText, writeString],
    .flatMap reads_escapeChar k.toList, h⟩

/-- **Round trip**: what the writer accepts reads back as the value. -/
theorem reads_writeValue (j : Json) : j.Ordered → ∀ {t : List Char}, writeValue j = .ok t →
    Json.Reads toF64 t j := by
  induction j using Json.induct with
  | null =>
    intro _ t h
    cases h
    exact .null
  | bool b =>
    intro _ t h
    cases b <;> cases h
    · exact .boolFalse
    · exact .boolTrue
  | number n =>
    intro _ t h
    rw [writeValue] at h
    exact reads_writeNumber toF64 h
  | string s =>
    intro _ t h
    cases h
    exact reads_writeString toF64 s
  | array items ih =>
    intro hord t h
    rw [Json.Ordered, Json.orderedItems_iff] at hord
    rw [writeValue] at h
    obtain ⟨ts, hts, h⟩ := bind_eq_ok.mp h
    cases h
    have hreads : List.Forall₂ (fun x t => x.Ordered ∧ writeValue x = .ok t) items ts :=
      (List.forall₂_and_left _ _).mpr ⟨hord, (writeItems_ok hts).flip⟩
    have hih := ((List.forall₂_and_left _ _).mpr ⟨ih, hreads⟩).flip
    exact .array (hih.imp fun t x ⟨ihx, hx, ht⟩ => ihx hx ht)
  | object members ih =>
    intro hord t h
    rw [Json.Ordered, Json.orderedMembers_iff] at hord
    rw [writeValue] at h
    obtain ⟨ts, hts, h⟩ := bind_eq_ok.mp h
    cases h
    -- the sorted texts match the members in some order, and a map has no order
    obtain ⟨ms, hms, hperm⟩ := List.perm_comp_forall₂ (List.perm_insertionSort keyLe ts)
      (writeMembers_ok hts)
    rw [← Json.insertAll_of_perm hord.1 hperm]
    have hord' : ∀ m ∈ ms, m.2.Ordered := fun m hm => hord.2 m (hperm.mem_iff.mp hm)
    have ih' : ∀ m ∈ ms, m.2.Ordered → ∀ {t}, writeValue m.2 = .ok t → Json.Reads toF64 t m.2 :=
      fun m hm => ih m (hperm.mem_iff.mp hm)
    have hreads := (List.forall₂_and_left _ _).mpr ⟨hord', hms.flip⟩
    have hih := ((List.forall₂_and_left _ _).mpr ⟨ih', hreads⟩).flip
    refine .object (List.forall₂_map_left_iff.mpr (hih.imp ?_))
    rintro ⟨k, t⟩ ⟨k', x⟩ ⟨ihx, hx, rfl, ht⟩
    exact reads_memberText toF64 (ihx hx ht)

/-! ## The domain -/

theorem writeItems_ok_iff :
    (∃ ts, writeItems items = .ok ts) ↔ ∀ x ∈ items, ∃ t, writeValue x = .ok t := by
  induction items with
  | nil => simp [writeItems]
  | cons x xs ih =>
    rw [List.forall_mem_cons, ← ih]
    simp only [writeItems, bind_eq_ok, Except.ok.injEq]
    grind

theorem writeMembers_ok_iff :
    (∃ ts, writeMembers members = .ok ts) ↔ ∀ m ∈ members, ∃ t, writeValue m.2 = .ok t := by
  induction members with
  | nil => simp [writeMembers]
  | cons m ms ih =>
    rw [List.forall_mem_cons, ← ih]
    simp only [writeMembers, bind_eq_ok, Except.ok.injEq]
    grind

/-- The writer fails exactly on a tree with a double in it. -/
theorem writeValue_ok_iff (j : Json) : (∃ t, writeValue j = .ok t) ↔ ¬ j.HasFloat := by
  induction j using Json.induct with
  | null | string => exact ⟨fun _ => nofun, fun _ => ⟨_, rfl⟩⟩
  | bool b => cases b <;> exact ⟨fun _ => nofun, fun _ => ⟨_, rfl⟩⟩
  | number n =>
    cases n with
    | posInt | negInt => exact ⟨fun _ => nofun, fun _ => ⟨_, rfl⟩⟩
    | float bits => exact ⟨nofun, fun h => absurd (.here bits) h⟩
  | array items ih =>
    rw [Json.hasFloat_array]
    push Not
    rw [← forall₂_congr ih, ← writeItems_ok_iff]
    simp only [writeValue, bind_eq_ok]
    grind
  | object members ih =>
    rw [Json.hasFloat_object]
    push Not
    rw [← forall₂_congr ih, ← writeMembers_ok_iff]
    simp only [writeValue, bind_eq_ok]
    grind

/-! ## Canonical texts -/

theorem canonicalize_ok {j : Json} :
    canonicalize j = .ok text ↔ writeValue j = .ok text.toList := by
  rw [canonicalize, bind_eq_ok]
  constructor
  · rintro ⟨out, hout, h⟩
    cases h
    rw [hout, String.toList_ofList]
  · exact fun h => ⟨_, h, by rw [String.ofList_toList]⟩

/-- Only doubles are refused. -/
theorem canonicalize_ok_iff (j : Json) : (∃ text, canonicalize j = .ok text) ↔ ¬ j.HasFloat := by
  rw [← writeValue_ok_iff]
  constructor
  · exact fun ⟨_, h⟩ => ⟨_, canonicalize_ok.mp h⟩
  · exact fun ⟨out, h⟩ => ⟨String.ofList out, canonicalize_ok.mpr (by rw [String.toList_ofList, h])⟩

/-- A standard parser reads the canonical text back. -/
theorem parse_canonicalize (h : canonicalize v.1 = .ok text) :
    Json.parseBytes toF64 text.toUTF8 = some v.1 := by
  have hutf8 : String.fromUTF8? text.toUTF8 = some text :=
    dif_pos text.isValidUTF8
  rw [Json.parseBytes, hutf8]
  exact (reads_writeValue toF64 v.1 v.2 (canonicalize_ok.mp h)).parse

theorem readValue_canonicalize (h : canonicalize v.1 = .ok text) :
    Json.readValue toF64 text = some v := by
  rw [Json.readValue, parse_canonicalize toF64 h]
  exact dif_pos v.2

/-- One text is of one value. -/
theorem canonicalize_inj {w : Json.Value} (hv : canonicalize v.1 = .ok text)
    (hw : canonicalize w.1 = .ok text) : v = w := by
  have hparse := parse_canonicalize (fun _ => none) hv
  rw [parse_canonicalize (fun _ => none) hw] at hparse
  exact Subtype.ext (Option.some.inj hparse).symm

end RoundTrip

end Conveyance.Crypto
