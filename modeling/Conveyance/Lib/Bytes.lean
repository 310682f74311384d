import Mathlib.Data.List.Basic
import Mathlib.Algebra.Group.Nat.Defs
import Mathlib.Algebra.Ring.Int.Defs

/-!
# Byte strings and faults

The vocabulary the models share. Bytes are lists of octets; a 16-bit word
travels as two of them, most significant first. `Fault` separates the two ways
a call can fail to return a value: a typed error its caller can match on, and
a failed assertion, which no caller sees.
-/

namespace Lib

/-- A byte string. -/
abbrev Bytes := List UInt8

/-- A byte string of fixed length, as the arrays `[u8; N]`. -/
abbrev Octets (n : Nat) := { b : Bytes // b.length = n }

/-- `[octet; N]`. -/
def Octets.replicate (n : Nat) (octet : UInt8) : Octets n :=
  ⟨List.replicate n octet, List.length_replicate⟩

/-- How a fallible call fails: with an error value, or by a panic. -/
inductive Fault (ε : Type) where
  | err (e : ε)
  | panic
deriving DecidableEq

variable {ε α β ε' : Type} {x : Except ε α} {as bs : Bytes}

/-- A sequence of two calls succeeds when both do. -/
theorem bind_eq_ok {f : α → Except ε β} {b : β} :
    (x >>= f) = .ok b ↔ ∃ a, x = .ok a ∧ f a = .ok b := by
  cases x with
  | error e => exact ⟨nofun, nofun⟩
  | ok a => exact ⟨fun h => ⟨a, rfl, h⟩, fun ⟨_, ha, h⟩ => Except.ok.inj ha ▸ h⟩

theorem exists_of_toBool (h : x.toBool = true) : ∃ a, x = .ok a := by
  cases x with
  | error e => cases h
  | ok a => exact ⟨a, rfl⟩

/-- No panic where neither part panics. -/
theorem bind_ne_panic {x : Except (Fault ε) α} {f : α → Except (Fault ε) β} (hx : x ≠ .error .panic)
    (hf : ∀ a, f a ≠ .error .panic) : (x >>= f) ≠ .error .panic := by
  cases x with
  | error e => exact fun h => hx (congrArg Except.error (Except.error.inj h))
  | ok a => exact hf a

theorem mapError_ne_panic {f : ε → Fault ε'} (hf : ∀ e, f e ≠ .panic) (x : Except ε α) :
    x.mapError f ≠ .error .panic := by
  cases x with
  | error e => exact fun h => hf e (Except.error.inj h)
  | ok a => intro h; cases h

theorem mapError_eq_ok {f : ε → ε'} {a : α} : x.mapError f = .ok a ↔ x = .ok a := by
  cases x <;> simp [Except.mapError]

/-- A string is its octets. -/
theorem toUTF8_inj {s t : String} (h : s.toUTF8.data.toList = t.toUTF8.data.toList) : s = t :=
  String.toByteArray_inj.mp (ByteArray.ext (Array.toList_inj.mp h))

theorem toUTF8_ofList (cs : List Char) :
    (String.ofList cs).toUTF8.data.toList = cs.flatMap String.utf8EncodeChar := by
  rw [show (String.ofList cs).toUTF8 = cs.utf8Encode from String.toByteArray_ofList]
  simp [List.utf8Encode]

/-! ## Lexicographic order -/

/-- How byte strings are ordered: by their first difference. -/
def lexLe : Bytes → Bytes → Bool
  | [], _ => true
  | _ :: _, [] => false
  | a :: as, b :: bs => a.toNat < b.toNat || (a = b && lexLe as bs)

theorem lexLe_total (as bs : Bytes) : lexLe as bs = true ∨ lexLe bs as = true := by
  induction as generalizing bs with
  | nil => exact .inl rfl
  | cons a as ih =>
    cases bs with
    | nil => exact .inr rfl
    | cons b bs =>
      rcases Nat.lt_trichotomy a.toNat b.toNat with hlt | heq | hlt
      · simp [lexLe, hlt]
      · have hab : a = b := UInt8.toNat_inj.mp heq
        subst hab
        simpa [lexLe] using ih bs
      · simp [lexLe, hlt]

theorem lexLe_trans {cs : Bytes} (h : lexLe as bs = true) (h' : lexLe bs cs = true) :
    lexLe as cs = true := by
  induction as generalizing bs cs with
  | nil => rfl
  | cons a as ih =>
    cases bs with
    | nil => cases h
    | cons b bs =>
      cases cs with
      | nil => cases h'
      | cons c cs =>
        simp only [lexLe, Bool.or_eq_true, Bool.and_eq_true, decide_eq_true_eq] at h h' ⊢
        rcases h with hab | ⟨rfl, hrest⟩
        · rcases h' with hbc | ⟨rfl, -⟩
          · exact .inl (Nat.lt_trans hab hbc)
          · exact .inl hab
        · exact h'.imp_right fun hbc => ⟨hbc.1, ih hrest hbc.2⟩

theorem lexLe_antisymm (h : lexLe as bs = true) (h' : lexLe bs as = true) : as = bs := by
  induction as generalizing bs with
  | nil =>
    cases bs with
    | nil => rfl
    | cons b bs => cases h'
  | cons a as ih =>
    cases bs with
    | nil => cases h
    | cons b bs =>
      simp only [lexLe, Bool.or_eq_true, Bool.and_eq_true, decide_eq_true_eq] at h h'
      rcases h with hab | ⟨rfl, hrest⟩
      · rcases h' with hba | ⟨rfl, -⟩
        · exact absurd hba (Nat.lt_asymm hab)
        · exact absurd hab (Nat.lt_irrefl _)
      · rcases h' with hba | ⟨-, hrest'⟩
        · exact absurd hba (Nat.lt_irrefl _)
        · rw [ih hrest hrest']

/-! ## Big-endian 16-bit words -/

/-- `u16::to_be_bytes`. -/
def u16ToBe (n : UInt16) : Bytes :=
  [UInt8.ofNat (n.toNat / 256), UInt8.ofNat (n.toNat % 256)]

/-- `u16::from_be_bytes`. -/
def u16OfBe (hi lo : UInt8) : UInt16 :=
  UInt16.ofNat (hi.toNat * 256 + lo.toNat)

@[simp] theorem u16ToBe_length (n : UInt16) : (u16ToBe n).length = 2 := rfl

theorem u16OfBe_u16ToBe (n : UInt16) :
    u16OfBe (UInt8.ofNat (n.toNat / 256)) (UInt8.ofNat (n.toNat % 256)) = n := by
  have hn : n.toNat < 65536 := n.toNat_lt
  have hhi : (UInt8.ofNat (n.toNat / 256)).toNat = n.toNat / 256 := by
    rw [UInt8.toNat_ofNat']
    omega
  have hlo : (UInt8.ofNat (n.toNat % 256)).toNat = n.toNat % 256 := by
    rw [UInt8.toNat_ofNat']
    omega
  rw [u16OfBe, hhi, hlo, show n.toNat / 256 * 256 + n.toNat % 256 = n.toNat by omega,
    UInt16.ofNat_toNat]

theorem u16OfNat_toNat {n : Nat} (h : n ≤ 65535) : (UInt16.ofNat n).toNat = n := by
  rw [UInt16.toNat_ofNat']
  omega

/-- Two octets are a word and back. -/
theorem u16ToBe_u16OfBe (hi lo : UInt8) : u16ToBe (u16OfBe hi lo) = [hi, lo] := by
  have hhi := hi.toNat_lt
  have hlo := lo.toNat_lt
  rw [u16ToBe, u16OfBe, u16OfNat_toNat (by omega),
    show (hi.toNat * 256 + lo.toNat) / 256 = hi.toNat by omega,
    show (hi.toNat * 256 + lo.toNat) % 256 = lo.toNat by omega, UInt8.ofNat_toNat,
    UInt8.ofNat_toNat]

end Lib
