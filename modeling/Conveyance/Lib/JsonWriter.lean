import Conveyance.Lib.JsonParser

/-!
# Compact JSON texts

What a serializer writes without any white space. How a character stands inside a
string and how a double is written are parameters; members come in the order they are
given.

`Printable` texts have no control characters, and so no line breaks, whatever the
strings hold.
-/

namespace Lib.Json

section Compact

variable (esc : Char → List Char) (f64Text : UInt64 → List Char)

/-- A string in quotes. -/
def quoted (s : String) : List Char := '"' :: s.toList.flatMap esc ++ ['"']

def numberText : Number → List Char
  | .posInt n => Nat.toDigits 10 n.toNat
  | .negInt i _ _ => '-' :: Nat.toDigits 10 i.natAbs
  | .float bits => f64Text bits

/-- A name, a colon and a text. -/
def memberText (m : String × List Char) : List Char := quoted esc m.1 ++ ':' :: m.2

/-- An object whose values are written already. -/
def objectText (members : List (String × List Char)) : List Char :=
  '{' :: [','].intercalate (members.map (memberText esc)) ++ ['}']

mutual
def compact : Json → List Char
  | .null => ['n', 'u', 'l', 'l']
  | .bool true => ['t', 'r', 'u', 'e']
  | .bool false => ['f', 'a', 'l', 's', 'e']
  | .number n => numberText f64Text n
  | .string s => quoted esc s
  | .array items => '[' :: [','].intercalate (compactItems items) ++ [']']
  | .object members => objectText esc (compactMembers members)
def compactItems : List Json → List (List Char)
  | [] => []
  | x :: xs => compact x :: compactItems xs
def compactMembers : List (String × Json) → List (String × List Char)
  | [] => []
  | (k, x) :: xs => (k, compact x) :: compactMembers xs
end

variable {esc f64Text}

theorem compactMembers_eq (members : List (String × Json)) :
    compactMembers esc f64Text members = members.map fun m => (m.1, compact esc f64Text m.2) := by
  induction members with
  | nil => rfl
  | cons m ms ih =>
    obtain ⟨k, x⟩ := m
    rw [compactMembers, ih, List.map_cons]

/-! ## Reading back -/

section Reading

variable {toF64 : List Char → Option UInt64} (hesc : ∀ c, CharReads (esc c) c)

include hesc

/-- A string is read back if its characters are. -/
theorem reads_quoted (s : String) : Reads toF64 (quoted esc s) (.string s) := by
  have h : Reads toF64 (quoted esc s) (.string (String.ofList s.toList)) :=
    .string (.flatMap hesc s.toList)
  rwa [String.ofList_toList] at h

/-- So is a member whose value is. -/
theorem memberReads_text {k : String} {t : List Char} {x : Json} (h : Reads toF64 t x) :
    MemberReads toF64 (memberText esc (k, t)) (k, x) := by
  refine ⟨k.toList.flatMap esc, t, ?_, .flatMap hesc k.toList, h⟩
  rw [memberText, quoted]
  simp

end Reading

/-- Every 64-bit integer has an exact form. -/
theorem reads_int64 {toF64 : List Char → Option UInt64} (i : Int64) :
    Reads toF64 (numberText f64Text (.ofInt64 i)) (.number (.ofInt64 i)) := by
  have hlow := i.le_toInt
  have hhigh := i.toInt_lt
  unfold Number.ofInt64
  split_ifs with hneg
  · refine .negative ?_
    have hrange : 0 < i.toInt.natAbs ∧ i.toInt.natAbs ≤ 2 ^ 63 := by omega
    have habs : -(i.toInt.natAbs : Int) = i.toInt := by omega
    rw [Number.ofInteger, if_pos rfl, dif_pos hrange]
    simp only [habs]
  · refine .natural ?_
    have hlt : (UInt64.ofNat i.toInt.toNat).toNat < 2 ^ 64 := UInt64.toNat_lt _
    rw [Number.ofInteger, if_neg Bool.false_ne_true, if_pos hlt, UInt64.ofNat_toNat]

/-! ## Printable texts -/

/-- No control characters. -/
def Printable (t : List Char) : Prop := ∀ c ∈ t, 0x20 ≤ c.toNat

theorem Printable.nil : Printable [] := List.forall_mem_nil _

theorem Printable.append {t u : List Char} (ht : Printable t) (hu : Printable u) :
    Printable (t ++ u) :=
  List.forall_mem_append.mpr ⟨ht, hu⟩

theorem Printable.cons {c : Char} {t : List Char} (hc : 0x20 ≤ c.toNat) (ht : Printable t) :
    Printable (c :: t) :=
  List.forall_mem_cons.mpr ⟨hc, ht⟩

/-- The commas are printable. -/
theorem Printable.intercalate {ts : List (List Char)} (h : ∀ t ∈ ts, Printable t) :
    Printable ([','].intercalate ts) := by
  induction ts with
  | nil => exact .nil
  | cons t ts ih =>
    cases ts with
    | nil =>
      rw [List.intercalate_singleton]
      exact h t List.mem_cons_self
    | cons u us =>
      rw [List.intercalate_cons_cons]
      have hrest := ih fun v hv => h v (List.mem_cons_of_mem _ hv)
      exact ((h t List.mem_cons_self).append (.cons (by decide) .nil)).append hrest

theorem printable_quoted (hesc : ∀ c, Printable (esc c)) (s : String) :
    Printable (quoted esc s) := by
  refine .append (.cons (by decide) fun c hc => ?_) (.cons (by decide) .nil)
  obtain ⟨d, -, hd⟩ := List.mem_flatMap.mp hc
  exact hesc d c hd

theorem printable_digits (n : Nat) : Printable (Nat.toDigits 10 n) := by
  intro c hc
  have hdigit : c.isDigit = true := isDigit_toDigits hc
  rw [Char.isDigit, Bool.and_eq_true, decide_eq_true_eq] at hdigit
  have hle : (48 : Nat) ≤ c.toNat := hdigit.1
  omega

theorem printable_int64 (i : Int64) : Printable (numberText f64Text (.ofInt64 i)) := by
  unfold Number.ofInt64
  split_ifs
  · exact .cons (by decide) (printable_digits _)
  · exact printable_digits _

theorem printable_objectText (hesc : ∀ c, Printable (esc c)) {members : List (String × List Char)}
    (h : ∀ m ∈ members, Printable m.2) : Printable (objectText esc members) := by
  refine .append (.cons (by decide) (.intercalate fun t ht => ?_))
    (.cons (by decide) .nil)
  obtain ⟨m, hm, rfl⟩ := List.mem_map.mp ht
  exact (printable_quoted hesc m.1).append (.cons (by decide) (h m hm))

end Compact

end Lib.Json
