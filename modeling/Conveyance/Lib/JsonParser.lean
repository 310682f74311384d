import Conveyance.Lib.Json

/-!
# A standard JSON parser

`parse` reads a text by the grammar of RFC 8259: whitespace between tokens,
the escapes of a string with surrogate pairs, fractions and exponents. A
repeated member name keeps its last value. An integer that fits 64 bits is read
exactly; how any other number rounds to a double is a parameter (`toF64`, which
may refuse a number out of range).

There is no depth limit. The recursive descent is by fuel, and `parse` gives it
one more than the length of the text.

`Reads t j` says that `t`, before anything that can follow a value, is read as
`j` with as much fuel as `t` is long. A printer's round trip is assembled from its rules.
-/

namespace Lib.Json

/-! ## Tokens -/

/-- The white space of the grammar. -/
def isSpace (c : Char) : Bool :=
  c = ' ' || c = '\n' || c = '\t' || c = '\r'

def skipSpace : List Char → List Char
  | [] => []
  | c :: cs => if isSpace c then skipSpace cs else c :: cs

variable {c : Char} {n : Nat} {cs r t : List Char} {x : Number} {ts : List (List Char)}
  {xs : List Json} {ms : List (String × Json)}

theorem skipSpace_cons (h : isSpace c = false) (cs : List Char) :
    skipSpace (c :: cs) = c :: cs := by
  simp [skipSpace, h]

/-- Read the given letters. -/
def literal : List Char → List Char → Option (List Char)
  | [], cs => some cs
  | _ :: _, [] => none
  | w :: ws, c :: cs => if w = c then literal ws cs else none

/-! ## Strings -/

def hexVal (c : Char) : Option Nat :=
  if '0' ≤ c ∧ c ≤ '9' then some (c.toNat - '0'.toNat)
  else if 'a' ≤ c ∧ c ≤ 'f' then some (c.toNat - 'a'.toNat + 10)
  else if 'A' ≤ c ∧ c ≤ 'F' then some (c.toNat - 'A'.toNat + 10)
  else none

theorem hexVal_digitChar {d : Nat} (h : d < 16) : hexVal (Nat.digitChar d) = some d := by
  have hall : ∀ d < 16, hexVal (Nat.digitChar d) = some d := by decide
  exact hall d h

/-- Four hex digits: one UTF-16 code unit. -/
def hex4 : List Char → Option (Nat × List Char)
  | a :: b :: c :: d :: r => do
    let a ← hexVal a
    let b ← hexVal b
    let c ← hexVal c
    let d ← hexVal d
    some (((a * 16 + b) * 16 + c) * 16 + d, r)
  | _ => none

/-- The one-letter escapes. -/
def shortEscape (c : Char) : Option Char :=
  if c = '"' then some '"'
  else if c = '\\' then some '\\'
  else if c = '/' then some '/'
  else if c = 'b' then some '\x08'
  else if c = 'f' then some '\x0c'
  else if c = 'n' then some '\n'
  else if c = 'r' then some '\r'
  else if c = 't' then some '\t'
  else none

/-- What follows `\u`: a code unit, or a high surrogate and its low one. -/
def unicodeEscape (cs : List Char) : Option (Char × List Char) :=
  match hex4 cs with
  | none => none
  | some (high, r) =>
    if 0xD800 ≤ high ∧ high < 0xDC00 then
      match (literal ['\\', 'u'] r).bind hex4 with
      | none => none
      | some (low, r) =>
        if 0xDC00 ≤ low ∧ low < 0xE000 then
          some (Char.ofNat (0x10000 + (high - 0xD800) * 0x400 + (low - 0xDC00)), r)
        else none
    else if 0xDC00 ≤ high ∧ high < 0xE000 then none
    else some (Char.ofNat high, r)

/-- One character of a string, escaped or not. -/
def stringChar : List Char → Option (Char × List Char)
  | [] => none
  | c :: r =>
    if c = '\\' then
      match r with
      | [] => none
      | e :: r => if e = 'u' then unicodeEscape r else (shortEscape e).map fun c => (c, r)
    else if c.toNat < 0x20 then none
    else some (c, r)

/-- The rest of a string, after its opening quote. -/
def stringBody : Nat → List Char → Option (List Char × List Char)
  | 0, _ => none
  | _ + 1, [] => none
  | n + 1, c :: cs =>
    if c = '"' then some ([], cs)
    else do
      let (d, r) ← stringChar (c :: cs)
      let (ds, r) ← stringBody n r
      some (d :: ds, r)

theorem stringBody_quote (n : Nat) (r : List Char) :
    stringBody (n + 1) ('"' :: r) = some ([], r) := by
  simp [stringBody]

theorem stringBody_char {d : Char} {r' : List Char} {ds : List Char} (hquote : c ≠ '"')
    (hchar : stringChar (c :: cs) = some (d, r)) (hrest : stringBody n r = some (ds, r')) :
    stringBody (n + 1) (c :: cs) = some (d :: ds, r') := by
  simp [stringBody, hquote, hchar, hrest]

/-! ## Numbers -/

/-- The optional fraction: its text and what follows it. -/
def fraction : List Char → Option (List Char × List Char)
  | '.' :: r =>
    if r.takeWhile Char.isDigit = [] then none
    else some ('.' :: r.takeWhile Char.isDigit, r.dropWhile Char.isDigit)
  | r => some ([], r)

/-- The optional sign of an exponent. -/
def exponentSign : List Char → List Char × List Char
  | '+' :: r => (['+'], r)
  | '-' :: r => (['-'], r)
  | r => ([], r)

/-- The optional exponent: its text and what follows it. -/
def exponent : List Char → Option (List Char × List Char)
  | [] => some ([], [])
  | e :: r =>
    if e = 'e' ∨ e = 'E' then
      let (sign, r) := exponentSign r
      if r.takeWhile Char.isDigit = [] then none
      else some (e :: sign ++ r.takeWhile Char.isDigit, r.dropWhile Char.isDigit)
    else some ([], e :: r)

/-- The number an integer literal denotes; `none` when it has no exact form. -/
def Number.ofInteger (neg : Bool) (n : Nat) : Option Number :=
  if neg then
    if h : 0 < n ∧ n ≤ 2 ^ 63 then
      some (.negInt (-(n : Int)) (by omega) (by omega))
    else none
  else if n < 2 ^ 64 then some (.posInt (UInt64.ofNat n))
  else none

/-- The optional sign of a number. -/
def optionalMinus : List Char → Bool × List Char
  | '-' :: r => (true, r)
  | r => (false, r)

variable (toF64 : List Char → Option UInt64)

/-- A number without superfluous zeros; exact if it can be. -/
def parseNumber (cs : List Char) : Option (Number × List Char) :=
  let (neg, r) := optionalMinus cs
  let ds := r.takeWhile Char.isDigit
  if ds = [] ∨ (ds.head? = some '0' ∧ 1 < ds.length) then none
  else do
    let (frac, r) ← fraction (r.dropWhile Char.isDigit)
    let (exp, r) ← exponent r
    let sign := if neg then ['-'] else []
    let exact := if frac = [] ∧ exp = [] then Number.ofInteger neg (Nat.ofDigitChars 10 ds 0)
      else none
    match exact with
    | some x => some (x, r)
    | none => do
      let bits ← toF64 (sign ++ ds ++ frac ++ exp)
      some (.float bits, r)

/-! ## Values -/

mutual
/-- A value, after any whitespace. -/
def parseValue : Nat → List Char → Option (Json × List Char)
  | 0, _ => none
  | n + 1, cs =>
    match skipSpace cs with
    | [] => none
    | c :: cs =>
      if c = '"' then do
        let (s, r) ← stringBody n cs
        some (.string (String.ofList s), r)
      else if c = '[' then
        match skipSpace cs with
        | ']' :: r => some (.array [], r)
        | cs => do
          let (xs, r) ← parseItems n cs
          some (.array xs, r)
      else if c = '{' then
        match skipSpace cs with
        | '}' :: r => some (.object [], r)
        | cs => do
          let (ms, r) ← parseMembers n cs
          some (.object (insertAll [] ms), r)
      else if c = 'n' then do
        let r ← literal ['u', 'l', 'l'] cs
        some (.null, r)
      else if c = 't' then do
        let r ← literal ['r', 'u', 'e'] cs
        some (.bool true, r)
      else if c = 'f' then do
        let r ← literal ['a', 'l', 's', 'e'] cs
        some (.bool false, r)
      else do
        let (x, r) ← parseNumber toF64 (c :: cs)
        some (.number x, r)
/-- The items of a non-empty array, with its closing bracket. -/
def parseItems : Nat → List Char → Option (List Json × List Char)
  | 0, _ => none
  | n + 1, cs => do
    let (x, r) ← parseValue n cs
    match skipSpace r with
    | ',' :: r => do
      let (xs, r) ← parseItems n r
      some (x :: xs, r)
    | ']' :: r => some ([x], r)
    | _ => none
/-- The members of a non-empty object, with its closing brace. -/
def parseMembers : Nat → List Char → Option (List (String × Json) × List Char)
  | 0, _ => none
  | n + 1, cs =>
    match skipSpace cs with
    | '"' :: r => do
      let (k, r) ← stringBody n r
      match skipSpace r with
      | ':' :: r => do
        let (x, r) ← parseValue n r
        match skipSpace r with
        | ',' :: r => do
          let (ms, r) ← parseMembers n r
          some ((String.ofList k, x) :: ms, r)
        | '}' :: r => some ([(String.ofList k, x)], r)
        | _ => none
      | _ => none
    | _ => none
end

/-- Parse a whole text. -/
def parse (text : List Char) : Option Json :=
  match parseValue toF64 (text.length + 1) text with
  | some (j, r) => if skipSpace r = [] then some j else none
  | none => none

/-- Parse the UTF-8 bytes of a text. -/
def parseBytes (bytes : ByteArray) : Option Json :=
  (String.fromUTF8? bytes).bind fun s => parse toF64 s.toList

/-- Parse a text whose objects list their members in key order. -/
def readValue (text : String) : Option Value :=
  (parseBytes toF64 text.toUTF8).bind fun j => if h : j.Ordered then some ⟨j, h⟩ else none

/-! ## Texts that read as a value -/

/-- What may stand after a value in a text without whitespace. -/
def Follow (r : List Char) : Prop :=
  ∀ c ∈ r.head?, c = ',' ∨ c = ']' ∨ c = '}'

/-- `t` reads as `j` whatever follows it. -/
structure Reads (t : List Char) (j : Json) : Prop where
  starts : ∃ c cs, t = c :: cs ∧ isSpace c = false ∧ c ≠ ']'
  reads : ∀ n r, t.length ≤ n → Follow r → parseValue toF64 n (t ++ r) = some (j, r)

/-- `t` reads as the characters of a string, up to the closing quote. -/
def StringReads (t s : List Char) : Prop :=
  ∀ n r, t.length + 1 ≤ n → stringBody n (t ++ '"' :: r) = some (s, r)

/-- `t` reads as one character of a string. -/
def CharReads (t : List Char) (c : Char) : Prop :=
  (∃ d ds, t = d :: ds ∧ d ≠ '"') ∧ ∀ r, stringChar (t ++ r) = some (c, r)

/-- `t` reads as one member of an object. -/
def MemberReads (t : List Char) (m : String × Json) : Prop :=
  ∃ k v, t = '"' :: k ++ '"' :: ':' :: v ∧ StringReads k m.1.toList ∧ Reads toF64 v m.2

variable {toF64}

theorem follow_nil : Follow [] := nofun

theorem follow_comma (r : List Char) : Follow (',' :: r) := by simp [Follow]

theorem follow_bracket (r : List Char) : Follow (']' :: r) := by simp [Follow]

theorem follow_brace (r : List Char) : Follow ('}' :: r) := by simp [Follow]

/-- **A text that reads as a value is parsed as it.** -/
theorem Reads.parse {j : Json} (h : Reads toF64 t j) : parse toF64 t = some j := by
  have hv := h.reads (t.length + 1) [] (Nat.le_succ _) follow_nil
  rw [List.append_nil] at hv
  simp [Json.parse, hv, skipSpace]

/-- A string whose characters are written one by one. -/
theorem StringReads.flatMap {esc : Char → List Char} (hesc : ∀ c, CharReads (esc c) c) :
    ∀ s : List Char, StringReads (s.flatMap esc) s
  | [], n, r, hn => by
    obtain ⟨n, rfl⟩ : ∃ m, n = m + 1 := ⟨n - 1, by simp at hn; omega⟩
    exact stringBody_quote n r
  | c :: s, n, r, hn => by
    obtain ⟨⟨d, ds, hd, hquote⟩, hread⟩ := hesc c
    have hlen : (esc c).length = ds.length + 1 := by rw [hd]; rfl
    rw [List.flatMap_cons, List.length_append] at hn
    obtain ⟨n, rfl⟩ : ∃ m, n = m + 1 := ⟨n - 1, by omega⟩
    have hrest := StringReads.flatMap hesc s n r (by omega)
    have hchar := hread (s.flatMap esc ++ '"' :: r)
    rw [List.flatMap_cons, List.append_assoc]
    rw [hd] at hchar ⊢
    exact stringBody_char hquote hchar hrest

theorem Reads.string {s : List Char} (h : StringReads t s) :
    Reads toF64 ('"' :: t ++ ['"']) (.string (String.ofList s)) where
  starts := ⟨'"', t ++ ['"'], rfl, by decide, by decide⟩
  reads n r hn _ := by
    obtain ⟨n, rfl⟩ : ∃ m, n = m + 1 := ⟨n - 1, by simp at hn; omega⟩
    have hs := h n r (by simp at hn; omega)
    have happ : '"' :: t ++ ['"'] ++ r = '"' :: (t ++ '"' :: r) := by simp
    rw [happ, parseValue, skipSpace_cons (by decide)]
    simp [hs]

theorem Reads.null : Reads toF64 ['n', 'u', 'l', 'l'] .null where
  starts := ⟨'n', _, rfl, by decide, by decide⟩
  reads n r hn _ := by
    obtain ⟨n, rfl⟩ : ∃ m, n = m + 1 := ⟨n - 1, by simp at hn; omega⟩
    rw [List.cons_append, parseValue, skipSpace_cons (by decide)]
    simp [literal]

theorem Reads.boolTrue : Reads toF64 ['t', 'r', 'u', 'e'] (.bool true) where
  starts := ⟨'t', _, rfl, by decide, by decide⟩
  reads n r hn _ := by
    obtain ⟨n, rfl⟩ : ∃ m, n = m + 1 := ⟨n - 1, by simp at hn; omega⟩
    rw [List.cons_append, parseValue, skipSpace_cons (by decide)]
    simp [literal]

theorem Reads.boolFalse : Reads toF64 ['f', 'a', 'l', 's', 'e'] (.bool false) where
  starts := ⟨'f', _, rfl, by decide, by decide⟩
  reads n r hn _ := by
    obtain ⟨n, rfl⟩ : ∃ m, n = m + 1 := ⟨n - 1, by simp at hn; omega⟩
    rw [List.cons_append, parseValue, skipSpace_cons (by decide)]
    simp [literal]

/-! ### Integers -/

/-- The decimal digits of a positive number do not start with a zero. -/
theorem toDigits_head (n : Nat) (h : (Nat.toDigits 10 n).head? = some '0') : n = 0 := by
  induction n using Nat.strong_induction_on with
  | _ n ih =>
    by_cases hn : n < 10
    · have hdigit : ∀ d < 10, Nat.digitChar d = '0' → d = 0 := by decide
      rw [Nat.toDigits_of_lt_base hn] at h
      exact hdigit n hn (Option.some.inj h)
    · rw [Nat.toDigits_of_base_le (by decide) (by omega)] at h
      rw [List.head?_append_of_ne_nil _ Nat.toDigits_ne_nil] at h
      -- the first digit is that of the quotient, which is not zero
      have := ih (n / 10) (by omega) h
      omega

theorem isDigit_toDigits (h : c ∈ Nat.toDigits 10 n) : c.isDigit = true :=
  Nat.isDigit_of_mem_toDigits (by decide) (by decide) h

/-- No digit follows a value. -/
theorem Follow.takeWhile (h : Follow r) : r.takeWhile Char.isDigit = [] := by
  cases r with
  | nil => rfl
  | cons c r => rcases h c rfl with rfl | rfl | rfl <;> simp [List.takeWhile]

theorem Follow.dropWhile (h : Follow r) : r.dropWhile Char.isDigit = r := by
  have := List.takeWhile_append_dropWhile (p := Char.isDigit) (l := r)
  rwa [h.takeWhile, List.nil_append] at this

theorem Follow.fraction (h : Follow r) : Json.fraction r = some ([], r) := by
  cases r with
  | nil => rfl
  | cons c r => rcases h c rfl with rfl | rfl | rfl <;> rfl

theorem Follow.exponent (h : Follow r) : Json.exponent r = some ([], r) := by
  cases r with
  | nil => rfl
  | cons c r => rcases h c rfl with rfl | rfl | rfl <;> rfl

/-- Digits of an integer with an exact form read as it. -/
theorem parseNumber_digits {neg : Bool} (hx : Number.ofInteger neg n = some x) (hr : Follow r)
    (hminus : optionalMinus cs = (neg, Nat.toDigits 10 n ++ r)) :
    parseNumber toF64 cs = some (x, r) := by
  have htake : (Nat.toDigits 10 n ++ r).takeWhile Char.isDigit = Nat.toDigits 10 n := by
    rw [List.takeWhile_append_of_pos fun _ => isDigit_toDigits, hr.takeWhile, List.append_nil]
  have hdrop : (Nat.toDigits 10 n ++ r).dropWhile Char.isDigit = r := by
    rw [List.dropWhile_append_of_pos fun _ => isDigit_toDigits, hr.dropWhile]
  have hzero : ¬ (Nat.toDigits 10 n = [] ∨
      ((Nat.toDigits 10 n).head? = some '0' ∧ 1 < (Nat.toDigits 10 n).length)) := by
    rintro (hnil | ⟨hhead, hlen⟩)
    · exact Nat.toDigits_ne_nil hnil
    · rw [toDigits_head n hhead, Nat.toDigits_zero] at hlen
      exact absurd hlen (by decide)
  simp only [parseNumber, hminus, htake, hdrop, hr.fraction, if_neg hzero]
  simp [hr.exponent, hx]

/-- A text that `parseNumber` reads, starting as a number does. -/
theorem Reads.number (hcs : t = c :: cs) (hc : c = '-' ∨ c.isDigit = true)
    (h : ∀ r, Follow r → parseNumber toF64 (t ++ r) = some (x, r)) : Reads toF64 t (.number x) := by
  subst hcs
  have hne : ∀ d : Char, d ≠ '-' → d.isDigit = false → c ≠ d := by
    rintro d hd hdigit rfl
    rcases hc with rfl | hc
    · exact hd rfl
    · exact absurd hc (by simp [hdigit])
  have hspace : isSpace c = false := by
    simp [isSpace, hne ' ' (by decide) (by decide), hne '\n' (by decide) (by decide),
      hne '\t' (by decide) (by decide), hne '\r' (by decide) (by decide)]
  refine ⟨⟨c, cs, rfl, hspace, hne ']' (by decide) (by decide)⟩, fun n r hn hr => ?_⟩
  obtain ⟨n, rfl⟩ : ∃ m, n = m + 1 := ⟨n - 1, by simp at hn; omega⟩
  have hx := h r hr
  rw [List.cons_append] at hx ⊢
  rw [parseValue, skipSpace_cons hspace]
  simp [hx, hne '"' (by decide) (by decide), hne '[' (by decide) (by decide),
    hne '{' (by decide) (by decide), hne 'n' (by decide) (by decide),
    hne 't' (by decide) (by decide), hne 'f' (by decide) (by decide)]

/-- A number from zero on. -/
theorem Reads.natural (hx : Number.ofInteger false n = some x) :
    Reads toF64 (Nat.toDigits 10 n) (.number x) := by
  obtain ⟨c, cs, hcs⟩ := List.exists_cons_of_ne_nil (Nat.toDigits_ne_nil (b := 10) (n := n))
  have hdigit : c.isDigit = true := isDigit_toDigits (hcs ▸ List.mem_cons_self)
  refine .number hcs (.inr hdigit) fun r hr => parseNumber_digits hx hr ?_
  rw [hcs, List.cons_append, optionalMinus]
  rintro d heq
  rw [(List.cons.inj heq).1] at hdigit
  exact absurd hdigit (by decide)

theorem Reads.negative (hx : Number.ofInteger true n = some x) :
    Reads toF64 ('-' :: Nat.toDigits 10 n) (.number x) :=
  .number rfl (.inl rfl) fun _ hr => parseNumber_digits hx hr rfl

/-! ### Arrays and objects -/

/-- Items with commas between them. -/
theorem parseItems_of_reads (h : List.Forall₂ (Reads toF64) ts xs) (hne : ts ≠ []) :
    ∀ n r, ([','].intercalate ts).length + 1 ≤ n →
      parseItems toF64 n ([','].intercalate ts ++ ']' :: r) = some (xs, r) := by
  induction h with
  | nil => exact absurd rfl hne
  | @cons t x ts xs hx hxs ih =>
    intro n r hn
    obtain ⟨n, rfl⟩ : ∃ m, n = m + 1 := ⟨n - 1, by omega⟩
    cases hxs with
    | nil =>
      rw [List.intercalate_singleton] at hn ⊢
      have hv := hx.reads n (']' :: r) (by omega) (follow_bracket r)
      simp [parseItems, hv, skipSpace_cons (show isSpace ']' = false by decide)]
    | @cons t' x' ts xs hx' hxs =>
      rw [List.intercalate_cons_cons] at hn ⊢
      simp only [List.length_append, List.length_singleton] at hn
      have hv := hx.reads n (',' :: ([','].intercalate (t' :: ts) ++ ']' :: r)) (by omega)
        (follow_comma _)
      have hrest := ih (List.cons_ne_nil _ _) n r (by omega)
      simp only [List.append_assoc, List.singleton_append]
      simp [parseItems, hv, hrest, skipSpace_cons (show isSpace ',' = false by decide)]

/-- A text of items is read as their array. -/
theorem Reads.array (h : List.Forall₂ (Reads toF64) ts xs) :
    Reads toF64 ('[' :: [','].intercalate ts ++ [']']) (.array xs) where
  starts := ⟨'[', _, rfl, by decide, by decide⟩
  reads n r hn _ := by
    obtain ⟨n, rfl⟩ : ∃ m, n = m + 1 := ⟨n - 1, by simp at hn; omega⟩
    have happ : '[' :: [','].intercalate ts ++ [']'] ++ r =
        '[' :: ([','].intercalate ts ++ ']' :: r) := by simp
    rw [happ, parseValue, skipSpace_cons (by decide)]
    cases h with
    | nil => simp [skipSpace_cons (show isSpace ']' = false by decide)]
    | @cons t x ts xs hx hxs =>
      have hitems := parseItems_of_reads (List.Forall₂.cons hx hxs) (List.cons_ne_nil _ _) n r
        (by simp at hn ⊢; omega)
      -- the first item starts neither with a space nor with the closing bracket
      obtain ⟨c, cs, rfl, hspace, hclose⟩ := hx.starts
      obtain ⟨rest, hrest⟩ : ∃ rest, [','].intercalate ((c :: cs) :: ts) = c :: rest := by
        cases ts with
        | nil => exact ⟨cs, List.intercalate_singleton⟩
        | cons t ts => exact ⟨_, List.intercalate_cons_cons⟩
      rw [hrest, List.cons_append] at hitems ⊢
      simp [skipSpace_cons hspace, hclose, hitems]

/-- Members with commas between them. -/
theorem parseMembers_of_reads (h : List.Forall₂ (MemberReads toF64) ts ms) (hne : ts ≠ []) :
    ∀ n r, ([','].intercalate ts).length + 1 ≤ n →
      parseMembers toF64 n ([','].intercalate ts ++ '}' :: r) = some (ms, r) := by
  induction h with
  | nil => exact absurd rfl hne
  | @cons t m ts ms hm hms ih =>
    intro n r hn
    obtain ⟨n, rfl⟩ : ∃ m, n = m + 1 := ⟨n - 1, by omega⟩
    obtain ⟨k, v, rfl, hk, hv⟩ := hm
    have hcolon : ∀ cs, skipSpace (':' :: cs) = ':' :: cs := skipSpace_cons (by decide)
    cases hms with
    | nil =>
      rw [List.intercalate_singleton] at hn ⊢
      simp only [List.length_append, List.length_cons] at hn
      have hkey := hk n (':' :: (v ++ '}' :: r)) (by omega)
      have hval := hv.reads n ('}' :: r) (by omega) (follow_brace r)
      simp only [List.cons_append, List.append_assoc]
      rw [parseMembers, skipSpace_cons (by decide)]
      simp [hkey, hcolon, hval, skipSpace_cons (show isSpace '}' = false by decide)]
    | @cons t' m' ts ms hm' hms =>
      rw [List.intercalate_cons_cons] at hn ⊢
      simp only [List.length_append, List.length_cons, List.length_nil] at hn
      have hkey := hk n
        (':' :: (v ++ ',' :: ([','].intercalate (t' :: ts) ++ '}' :: r))) (by omega)
      have hval := hv.reads n (',' :: ([','].intercalate (t' :: ts) ++ '}' :: r)) (by omega)
        (follow_comma _)
      have hrest := ih (List.cons_ne_nil _ _) n r (by omega)
      simp only [List.cons_append, List.append_assoc, List.nil_append]
      rw [parseMembers, skipSpace_cons (by decide)]
      simp [hkey, hcolon, hval, hrest, skipSpace_cons (show isSpace ',' = false by decide)]

/-- Members listed in any order read as the map they make. -/
theorem Reads.object (h : List.Forall₂ (MemberReads toF64) ts ms) :
    Reads toF64 ('{' :: [','].intercalate ts ++ ['}']) (.object (insertAll [] ms)) where
  starts := ⟨'{', _, rfl, by decide, by decide⟩
  reads n r hn _ := by
    obtain ⟨n, rfl⟩ : ∃ m, n = m + 1 := ⟨n - 1, by simp at hn; omega⟩
    have happ : '{' :: [','].intercalate ts ++ ['}'] ++ r =
        '{' :: ([','].intercalate ts ++ '}' :: r) := by simp
    rw [happ, parseValue, skipSpace_cons (by decide)]
    cases h with
    | nil => simp [skipSpace_cons (show isSpace '}' = false by decide), insertAll]
    | @cons t m ts ms hm hms =>
      -- the first member starts with the quote of its name
      have hmembers := parseMembers_of_reads (List.Forall₂.cons hm hms) (List.cons_ne_nil _ _)
        n r (by simp at hn ⊢; omega)
      obtain ⟨k, v, rfl, -, -⟩ := hm
      obtain ⟨rest, hrest⟩ : ∃ rest,
          [','].intercalate (('"' :: k ++ '"' :: ':' :: v) :: ts) = '"' :: rest := by
        cases ts with
        | nil => exact ⟨_, List.intercalate_singleton⟩
        | cons t ts => exact ⟨_, List.intercalate_cons_cons⟩
      rw [hrest, List.cons_append] at hmembers ⊢
      simp [skipSpace_cons (show isSpace '"' = false by decide), hmembers]

end Lib.Json
