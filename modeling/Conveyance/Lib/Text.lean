import Conveyance.Lib.Bytes

/-!
# Texts

Rust's `str`: what it takes for white space, its lines, and slices by byte index. A slice
must begin and end between two characters; one that does not panics.
-/

namespace Lib

/-! ## Lines and white space -/

def isWhiteSpace (c : Char) : Bool :=
  (9 ≤ c.toNat && c.toNat ≤ 13) || c.toNat = 0x20 || c.toNat = 0x85 || c.toNat = 0xA0 ||
    c.toNat = 0x1680 || (0x2000 ≤ c.toNat && c.toNat ≤ 0x200A) || c.toNat = 0x2028 ||
    c.toNat = 0x2029 || c.toNat = 0x202F || c.toNat = 0x205F || c.toNat = 0x3000

def trim (s : String) : String :=
  String.ofList ((s.toList.dropWhile isWhiteSpace).reverse.dropWhile isWhiteSpace).reverse

/-- The lines of what follows `line`, which is read backwards. -/
def splitLines : List Char → (line : List Char) → List (List Char)
  | [], [] => []
  | [], c :: line => [(c :: line).reverse]
  | '\n' :: rest, '\r' :: line => line.reverse :: splitLines rest []
  | '\n' :: rest, line => line.reverse :: splitLines rest []
  | c :: rest, line => splitLines rest (c :: line)

/-- `str::lines`. Nothing follows the last line break. -/
def lines (s : String) : List String := (splitLines s.toList []).map String.ofList

theorem splitLines_cons {c : Char} (h : c ≠ '\n') (rest line : List Char) :
    splitLines (c :: rest) line = splitLines rest (c :: line) := by
  rw [splitLines]
  · exact h
  · exact fun _ _ => h

/-- Characters before a line break that are no part of one. -/
def Unbroken (t : List Char) : Prop := ∀ c ∈ t, c ≠ '\n' ∧ c ≠ '\r'

theorem splitLines_unbroken {t : List Char} (h : Unbroken t) (rest line : List Char) :
    splitLines (t ++ rest) line = splitLines rest (t.reverse ++ line) := by
  induction t generalizing line with
  | nil => rfl
  | cons c t ih =>
    have hc := h c List.mem_cons_self
    have ht : Unbroken t := fun d hd => h d (List.mem_cons_of_mem _ hd)
    rw [List.cons_append, splitLines_cons hc.1, ih ht, List.reverse_cons, List.append_assoc]
    rfl

theorem splitLines_line {t : List Char} (h : Unbroken t) (rest : List Char) :
    splitLines (t ++ '\n' :: rest) [] = t :: splitLines rest [] := by
  rw [splitLines_unbroken h, List.append_nil]
  cases hrev : t.reverse with
  | nil =>
    rw [List.reverse_eq_nil_iff.mp hrev]
    rfl
  | cons c line =>
    have hc := h c (List.mem_reverse.mp (hrev ▸ List.mem_cons_self))
    rw [splitLines, ← hrev, List.reverse_reverse]
    exact fun _ hline => hc.2 (List.cons.inj hline).1

theorem splitLines_last {t : List Char} (h : Unbroken t) (hne : t ≠ []) :
    splitLines t [] = [t] := by
  have hsplit := splitLines_unbroken h [] []
  rw [List.append_nil, List.append_nil] at hsplit
  rw [hsplit]
  cases hrev : t.reverse with
  | nil => exact absurd (List.reverse_eq_nil_iff.mp hrev) hne
  | cons c line => rw [splitLines, ← hrev, List.reverse_reverse]

/-- A text that begins and ends with something visible. -/
theorem trim_ofList {a b : Char} {t : List Char} (ha : isWhiteSpace a = false)
    (hb : isWhiteSpace b = false) :
    trim (String.ofList (a :: t ++ [b])) = String.ofList (a :: t ++ [b]) := by
  rw [trim, String.toList_ofList, List.cons_append, List.dropWhile_cons_of_neg (by simp [ha]),
    ← List.cons_append, List.reverse_append, List.reverse_singleton, List.singleton_append,
    List.dropWhile_cons_of_neg (by simp [hb]), List.reverse_cons, List.reverse_reverse]

/-! ## Slices -/

/-- An octet inside a UTF-8 sequence. -/
def isContinuation (b : UInt8) : Bool := 0x80 ≤ b.toNat && b.toNat < 0xC0

def isCharBoundary (utf8 : Bytes) (i : Nat) : Bool :=
  if i = 0 then true
  else
    match utf8[i]? with
    | none => i = utf8.length
    | some b => !isContinuation b

/-- `&value[start..stop]`. -/
def sliceStr (utf8 : Bytes) (start stop : Nat) : Except (Fault String) Bytes :=
  if start ≤ stop ∧ isCharBoundary utf8 start ∧ isCharBoundary utf8 stop then
    .ok ((utf8.drop start).take (stop - start))
  else .error .panic

/-- A slice of two bytes that begins at a character. -/
theorem sliceStr_two {utf8 : Bytes} {i : Nat} (hstart : isCharBoundary utf8 i = true) :
    sliceStr utf8 i (i + 2) =
      if isCharBoundary utf8 (i + 2) = true then .ok ((utf8.drop i).take 2) else .error .panic := by
  unfold sliceStr
  by_cases hstop : isCharBoundary utf8 (i + 2) = true
  · rw [if_pos ⟨by omega, hstart, hstop⟩, if_pos hstop, Nat.add_sub_cancel_left]
  · rw [if_neg fun h => hstop h.2.2, if_neg hstop]

end Lib
