import Conveyance.Cli.LogExport
import Mathlib.Algebra.Ring.Int.Defs

/-!
# The durations of the filters (conveyance, logcmd.rs)

`--since` takes a decimal number with a unit, and the filter keeps the rows that are not
older. The text is cut one byte before its end, the number of seconds is a product of
machine words, and the filter takes it for a signed one. Each of the three holds for all but
some texts.
-/

namespace Conveyance.Cli

open Lib

/-! ## What a duration is -/

inductive TimeUnit where
  | second
  | minute
  | hour
  | day
deriving DecidableEq

namespace TimeUnit

def suffix : TimeUnit → Char
  | second => 's'
  | minute => 'm'
  | hour => 'h'
  | day => 'd'

def seconds : TimeUnit → Nat
  | second => 1
  | minute => 60
  | hour => 3600
  | day => 86400

end TimeUnit

/-- `raw` is `n` in decimal, followed by the unit. -/
def Spells (raw : String) (n : Nat) (unit : TimeUnit) : Prop :=
  ∃ digits : List Char, digits ≠ [] ∧ (∀ c ∈ digits, c.isDigit = true) ∧
    Nat.ofDigitChars 10 digits 0 = n ∧ raw = String.ofList (digits ++ [unit.suffix])

/-- The number of seconds of `raw` is the one a `Duration` holds. -/
def Represents (raw : String) (secs : UInt64) : Prop :=
  ∃ n unit, Spells raw n unit ∧ n * unit.seconds = secs.toNat

/-- What a filter by duration should do at a given time. -/
structure ExactSince (raw : String) (now : Int64) : Prop where
  accepts : ∀ secs, Represents raw secs → parseSince raw = .ok secs
  rejects : (∀ secs, ¬Represents raw secs) → ∃ e, parseSince raw = .error (.err e)
  keeps : ∀ secs, parseSince raw = .ok secs → ∀ f rows, f.since = some raw →
    applyFilters now rows f = .ok (rows.filter fun row =>
      decide (max (-2 ^ 63) (now.toInt - secs.toNat) ≤ row.timestamp.toInt) && passes none f row)

/-! ## The last character -/

variable {c : Char} {n : Nat} {cs : List Char} {raw : String} {unit : TimeUnit} {secs : UInt64}

theorem utf8EncodeChar_ascii (h : c.toNat < 128) :
    String.utf8EncodeChar c = [UInt8.ofNat c.toNat] := by
  unfold String.utf8EncodeChar
  exact if_pos (Nat.le_of_lt_succ h)

theorem toNat_ofNat_ascii (h : n < 128) : (UInt8.ofNat n).toNat = n := by
  rw [UInt8.toNat_ofNat']
  omega

/-- The encoding of another character is longer, and ends inside of it. -/
theorem utf8EncodeChar_wide (h : ¬c.toNat < 128) :
    ∃ lead rest last, String.utf8EncodeChar c = lead :: rest ++ [last] ∧ 192 ≤ lead.toNat ∧
      isContinuation last = true := by
  have hlast : ∀ n, isContinuation (UInt8.ofNat (n % 64 + 128)) = true := by
    intro n
    have hoctet : (UInt8.ofNat (n % 64 + 128)).toNat = n % 64 + 128 := by
      rw [UInt8.toNat_ofNat']
      omega
    rw [isContinuation, hoctet]
    simp
    omega
  have hlead : ∀ n, n < 64 → 192 ≤ (UInt8.ofNat (n + 192)).toNat := by
    intro n hn
    rw [UInt8.toNat_ofNat']
    omega
  have hwide : ¬c.val.toNat ≤ 127 := fun hle => h (Nat.lt_succ_of_le hle)
  unfold String.utf8EncodeChar
  rw [if_neg hwide]
  split_ifs
  · exact ⟨_, [], _, rfl, hlead _ (by omega), hlast _⟩
  · refine ⟨_, [_], _, rfl, ?_, hlast _⟩
    exact hlead (c.val.toNat / 4096 % 16 + 32) (by omega)
  · refine ⟨_, [_, _], _, rfl, ?_, hlast _⟩
    exact hlead (c.val.toNat / 262144 % 8 + 48) (by omega)

/-- `split_at` cuts a character. -/
theorem parseSince_wide (cs : List Char) (h : ¬c.toNat < 128) :
    parseSince (String.ofList (cs ++ [c])) = .error .panic := by
  obtain ⟨lead, rest, last, hwide, -, hlast⟩ := utf8EncodeChar_wide h
  have hutf8 : (String.ofList (cs ++ [c])).toUTF8.data.toList =
      (cs.flatMap String.utf8EncodeChar ++ lead :: rest) ++ [last] := by
    rw [toUTF8_ofList, List.flatMap_append, List.flatMap_singleton, hwide, List.append_assoc]
  unfold parseSince
  rw [hutf8]
  generalize hfront : cs.flatMap String.utf8EncodeChar ++ lead :: rest = front
  have hpos : front.length ≠ 0 := by
    rw [← hfront, List.length_append, List.length_cons]
    omega
  have hlength : (front ++ [last]).length = front.length + 1 := List.length_append
  have hcut : isCharBoundary (front ++ [last]) front.length = false := by
    rw [isCharBoundary, if_neg hpos, List.getElem?_append_right (Nat.le_refl _), Nat.sub_self]
    simpa using hlast
  dsimp only
  rw [hlength, Nat.add_sub_cancel, if_neg (by omega), hcut]
  rfl

/-! ## The digits -/

/-- An octet that is an ASCII digit. -/
def isDigitOctet (b : UInt8) : Bool := 48 ≤ b.toNat && b.toNat ≤ 57

theorem isDigit_iff : c.isDigit = true ↔ 48 ≤ c.toNat ∧ c.toNat ≤ 57 := by
  simp only [Char.isDigit, Bool.and_eq_true, decide_eq_true_eq]
  exact Iff.rfl

theorem all_utf8EncodeChar (c : Char) :
    (String.utf8EncodeChar c).all isDigitOctet = true ↔ c.isDigit = true := by
  rw [isDigit_iff]
  by_cases hascii : c.toNat < 128
  · rw [utf8EncodeChar_ascii hascii, List.all_cons, List.all_nil, Bool.and_true, isDigitOctet,
      toNat_ofNat_ascii hascii]
    simp
  · obtain ⟨lead, rest, last, hwide, hlead, -⟩ := utf8EncodeChar_wide hascii
    rw [hwide, List.cons_append, List.all_cons]
    have hno : isDigitOctet lead = false := by
      rw [isDigitOctet]
      simp
      omega
    rw [hno]
    simp
    omega

theorem all_digits (cs : List Char) :
    (cs.flatMap String.utf8EncodeChar).all isDigitOctet = true ↔ ∀ c ∈ cs, c.isDigit = true := by
  rw [List.all_flatMap, List.all_eq_true]
  exact forall₂_congr fun c _ => all_utf8EncodeChar c

/-- `str::parse::<u64>` reads the number, if a word holds it. -/
theorem parseU64_digits (h : ∀ c ∈ cs, c.isDigit = true) :
    parseU64 (cs.flatMap String.utf8EncodeChar) =
      if Nat.ofDigitChars 10 cs 0 < 2 ^ 64 then some (UInt64.ofNat (Nat.ofDigitChars 10 cs 0))
      else none := by
  have hfold : ∀ acc, (cs.flatMap String.utf8EncodeChar).foldl
      (fun n b => n * 10 + (b.toNat - 48)) acc = Nat.ofDigitChars 10 cs acc := by
    induction cs with
    | nil =>
      intro acc
      rfl
    | cons c cs ih =>
      intro acc
      have hc := isDigit_iff.mp (h c List.mem_cons_self)
      have hascii : c.toNat < 128 := by omega
      rw [List.flatMap_cons, utf8EncodeChar_ascii hascii, List.singleton_append, List.foldl_cons,
        ih fun d hd => h d (List.mem_cons_of_mem _ hd), toNat_ofNat_ascii hascii, Nat.mul_comm]
      rfl
  rw [parseU64, hfold]

theorem cut_ascii {front : Bytes} {last : UInt8} (hfront : front ≠ []) (hlast : last.toNat < 128) :
    ¬(front ++ [last]).length < 2 ∧
      isCharBoundary (front ++ [last]) ((front ++ [last]).length - 1) = true ∧
      (front ++ [last]).take ((front ++ [last]).length - 1) = front ∧
      (front ++ [last]).drop ((front ++ [last]).length - 1) = [last] := by
  have hpos := List.length_pos_iff.mpr hfront
  have hlength : (front ++ [last]).length = front.length + 1 := List.length_append
  rw [hlength, Nat.add_sub_cancel, List.take_left, List.drop_left]
  refine ⟨by omega, ?_, rfl, rfl⟩
  rw [isCharBoundary, if_neg (by omega), List.getElem?_append_right (Nat.le_refl _), Nat.sub_self]
  have hstart : isContinuation last = false := by
    rw [isContinuation]
    simp
    omega
  simpa using hstart

theorem toUTF8_concat (cs : List Char) (h : c.toNat < 128) :
    (String.ofList (cs ++ [c])).toUTF8.data.toList =
      cs.flatMap String.utf8EncodeChar ++ [UInt8.ofNat c.toNat] := by
  rw [toUTF8_ofList, List.flatMap_append, List.flatMap_singleton, utf8EncodeChar_ascii h]

theorem flatMap_utf8_ne_nil (h : cs ≠ []) : cs.flatMap String.utf8EncodeChar ≠ [] := by
  obtain ⟨c, cs, rfl⟩ := List.exists_cons_of_ne_nil h
  intro hnil
  exact String.utf8EncodeChar_ne_nil (List.append_eq_nil_iff.mp hnil).1

/-- The error of a text that is no duration. -/
def invalidSince (raw : String) : Except (Fault CliError) UInt64 :=
  .error (.err (.fail ("invalid --since value '" ++ raw ++
    "': use a duration with a unit suffix (45s, 30m, 2h, 1d)")))

/-- Behind the cut stands a number that a word holds, and a unit; or an error is returned. -/
theorem parseSince_ascii (cs : List Char) (hc : c.toNat < 128) :
    parseSince (String.ofList (cs ++ [c])) =
      if (cs ≠ [] ∧ cs.all Char.isDigit) ∧ Nat.ofDigitChars 10 cs 0 < 2 ^ 64 then
        if c = 's' then .ok (UInt64.ofNat (Nat.ofDigitChars 10 cs 0))
        else if c = 'm' then .ok (UInt64.ofNat (Nat.ofDigitChars 10 cs 0) * 60)
        else if c = 'h' then .ok (UInt64.ofNat (Nat.ofDigitChars 10 cs 0) * 3600)
        else if c = 'd' then .ok (UInt64.ofNat (Nat.ofDigitChars 10 cs 0) * 86400)
        else invalidSince (String.ofList (cs ++ [c]))
      else invalidSince (String.ofList (cs ++ [c])) := by
  by_cases hne : cs = []
  · subst hne
    have hshort : ([UInt8.ofNat c.toNat] : Bytes).length < 2 := Nat.lt_succ_self 1
    rw [if_neg fun h => h.1.1 rfl, parseSince, toUTF8_concat [] hc]
    exact if_pos hshort
  have hfront := flatMap_utf8_ne_nil hne
  have hempty : (cs.flatMap String.utf8EncodeChar).isEmpty = false := by
    simpa using hfront
  have hoctet : (UInt8.ofNat c.toNat).toNat < 128 := by
    rw [toNat_ofNat_ascii hc]
    exact hc
  obtain ⟨hlong, hcut, htake, hdrop⟩ := cut_ascii hfront hoctet
  have hunit : ∀ d : Char, d.toNat < 128 →
      ([UInt8.ofNat c.toNat] = (String.ofList [d]).toUTF8.data.toList ↔ c = d) := by
    intro d hd
    rw [toUTF8_ofList, List.flatMap_singleton, utf8EncodeChar_ascii hd, List.singleton_inj,
      ← UInt8.toNat_inj, toNat_ofNat_ascii hc, toNat_ofNat_ascii hd, Char.toNat_inj]
  unfold parseSince
  rw [toUTF8_concat cs hc]
  dsimp only
  rw [if_neg hlong, hcut, htake, hdrop, hempty]
  change (if (!List.all _ isDigitOctet) = true then _ else _) = _
  by_cases hdigits : ∀ d ∈ cs, d.isDigit = true
  · rw [(all_digits cs).mpr hdigits, parseU64_digits hdigits]
    by_cases hn : Nat.ofDigitChars 10 cs 0 < 2 ^ 64
    · rw [if_pos (And.intro (And.intro hne (List.all_eq_true.mpr hdigits)) hn), if_pos hn]
      refine (if_neg Bool.false_ne_true).trans ?_
      exact if_congr (hunit 's' (by decide)) rfl (if_congr (hunit 'm' (by decide)) rfl
        (if_congr (hunit 'h' (by decide)) rfl (if_congr (hunit 'd' (by decide)) rfl rfl)))
    · rw [if_neg fun h : _ ∧ _ => hn h.2, if_neg hn]
      rfl
  · have hall : (cs.flatMap String.utf8EncodeChar).all isDigitOctet = false := by
      rw [← Bool.not_eq_true, all_digits]
      exact hdigits
    rw [if_neg fun h : _ ∧ _ => hdigits (List.all_eq_true.mp h.1.2), hall]
    rfl

/-! ## What is read of a text -/

theorem TimeUnit.suffix_ascii (unit : TimeUnit) : unit.suffix.toNat < 128 := by
  cases unit <;> decide

theorem TimeUnit.seconds_pos (unit : TimeUnit) : 0 < unit.seconds := by
  cases unit <;> decide

theorem Spells.unique {n' : Nat} {unit' : TimeUnit} (h : Spells raw n unit)
    (h' : Spells raw n' unit') : n = n' ∧ unit = unit' := by
  obtain ⟨cs, -, -, rfl, rfl⟩ := h
  obtain ⟨cs', -, -, rfl, heq⟩ := h'
  obtain ⟨rfl, hsuffix⟩ := List.append_inj' (String.ofList_injective heq) rfl
  refine ⟨rfl, ?_⟩
  cases unit <;> cases unit' <;> first | rfl | cases hsuffix

theorem parseSince_spells (h : Spells raw n unit) :
    parseSince raw =
      if n < 2 ^ 64 then .ok (UInt64.ofNat (n * unit.seconds)) else invalidSince raw := by
  obtain ⟨cs, hne, hdigits, rfl, rfl⟩ := h
  rw [parseSince_ascii cs unit.suffix_ascii]
  refine if_congr (and_iff_right ⟨hne, List.all_eq_true.mpr hdigits⟩) ?_ rfl
  rw [UInt64.ofNat_mul]
  cases unit with
  | second => exact congrArg Except.ok (UInt64.mul_one _).symm
  | minute | hour | day => rfl

/-- All other texts are rejected, as far as the cut goes well. -/
theorem parseSince_other (hlast : ∀ c ∈ raw.toList.getLast?, c.toNat < 128)
    (h : ∀ n unit, ¬Spells raw n unit) : parseSince raw = invalidSince raw := by
  rcases List.eq_nil_or_concat' raw.toList with hnil | ⟨cs, c, hconcat⟩
  · have hempty : raw = "" := String.toList_eq_nil_iff.mp hnil
    subst hempty
    rfl
  · have hraw : raw = String.ofList (cs ++ [c]) := by rw [← hconcat, String.ofList_toList]
    have hc : c.toNat < 128 := by
      refine hlast c ?_
      rw [hconcat, List.getLast?_concat]
      rfl
    subst hraw
    rw [parseSince_ascii cs hc]
    by_cases hreads : (cs ≠ [] ∧ cs.all Char.isDigit) ∧ Nat.ofDigitChars 10 cs 0 < 2 ^ 64
    · have hunit : ∀ unit : TimeUnit, c ≠ unit.suffix := by
        rintro unit rfl
        exact h _ unit ⟨cs, hreads.1.1, List.all_eq_true.mp hreads.1.2, rfl, rfl⟩
      have hs : c ≠ 's' := hunit .second
      have hm : c ≠ 'm' := hunit .minute
      have hh : c ≠ 'h' := hunit .hour
      have hd : c ≠ 'd' := hunit .day
      rw [if_pos hreads, if_neg hs, if_neg hm, if_neg hh, if_neg hd]
    · exact if_neg hreads

theorem parseSince_panics (h : ¬∀ c ∈ raw.toList.getLast?, c.toNat < 128) :
    parseSince raw = .error .panic := by
  obtain ⟨c, hc, hwide⟩ : ∃ c ∈ raw.toList.getLast?, ¬c.toNat < 128 := by
    simpa only [not_forall, exists_prop] using h
  obtain ⟨cs, hconcat⟩ := List.getLast?_eq_some_iff.mp hc
  have hraw : raw = String.ofList (cs ++ [c]) := by rw [← hconcat, String.ofList_toList]
  rw [hraw]
  exact parseSince_wide cs hwide

/-- An accepted text spells a number that a word holds. -/
theorem spells_of_parseSince (h : parseSince raw = .ok secs) :
    ∃ n unit, Spells raw n unit ∧ n < 2 ^ 64 ∧ secs = UInt64.ofNat (n * unit.seconds) := by
  by_cases hlast : ∀ c ∈ raw.toList.getLast?, c.toNat < 128
  · by_cases hspells : ∃ n unit, Spells raw n unit
    · obtain ⟨n, unit, hspells⟩ := hspells
      rw [parseSince_spells hspells] at h
      split_ifs at h with hn
      · exact ⟨n, unit, hspells, hn, (Except.ok.inj h).symm⟩
      · cases h
    · rw [parseSince_other hlast fun n unit hs => hspells ⟨n, unit, hs⟩] at h
      cases h
  · rw [parseSince_panics hlast] at h
    cases h

/-! ## What is kept -/

theorem toInt64_short (h : secs.toNat < 2 ^ 63) : secs.toInt64.toInt = secs.toNat := by
  show secs.toBitVec.toInt = _
  rw [BitVec.toInt_eq_toNat_cond, if_pos (by show 2 * secs.toNat < _; omega)]
  rfl

/-- A longer one is taken for a negative number. -/
theorem toInt64_long (h : 2 ^ 63 ≤ secs.toNat) : secs.toInt64.toInt = secs.toNat - 2 ^ 64 := by
  show secs.toBitVec.toInt = _
  rw [BitVec.toInt_eq_toNat_cond, if_neg (by show ¬2 * secs.toNat < _; omega)]
  rfl

theorem toInt_saturatingSub (a b : Int64) :
    (saturatingSub a b).toInt = max (-2 ^ 63) (min (2 ^ 63 - 1) (a.toInt - b.toInt)) := by
  rw [saturatingSub, Int64.toInt_ofInt_of_le (le_max_left _ _)]
  exact max_lt (by decide) (lt_of_le_of_lt (min_le_left _ _) (by decide))

theorem passes_some (cut : Int64) (f : QueryFilter) (row : Row) :
    passes (some cut) f row = (decide (cut.toInt ≤ row.timestamp.toInt) && passes none f row) := by
  have hcut : (!decide (row.timestamp < cut)) = decide (cut.toInt ≤ row.timestamp.toInt) := by
    rw [← decide_not]
    exact decide_eq_decide.mpr (by rw [Int64.lt_iff_toInt_lt, not_lt])
  simp [passes, hcut, Bool.and_assoc]

theorem applyFilters_since (h : parseSince raw = .ok secs) {f : QueryFilter}
    (hf : f.since = some raw) (now : Int64) (rows : List Row) :
    applyFilters now rows f = .ok (rows.filter fun row =>
      decide ((saturatingSub now secs.toInt64).toInt ≤ row.timestamp.toInt) &&
        passes none f row) := by
  have hcutoff : cutoff now f = .ok (some (saturatingSub now secs.toInt64)) := by
    rw [cutoff, hf]
    dsimp only
    rw [h]
    rfl
  have hpasses := funext (passes_some (saturatingSub now secs.toInt64) f)
  rw [applyFilters, hcutoff, ← hpasses]
  rfl

/-- The filter goes by the clock less the duration, as long as it takes it for a positive
number. -/
theorem saturatingSub_short (h : secs.toNat < 2 ^ 63) (now : Int64) :
    (saturatingSub now secs.toInt64).toInt = max (-2 ^ 63) (now.toInt - secs.toNat) := by
  have hnow := now.toInt_lt
  rw [toInt_saturatingSub, toInt64_short h, min_eq_right (by omega)]

/-- From there on, the row that should be the oldest one left is dropped. -/
theorem saturatingSub_long (h : 2 ^ 63 ≤ secs.toNat) (now : Int64) :
    max (-2 ^ 63) (now.toInt - secs.toNat) < (saturatingSub now secs.toInt64).toInt := by
  have hsecs := secs.toNat_lt
  have hnow := now.toInt_lt
  have hnow' := now.le_toInt
  rw [toInt_saturatingSub, toInt64_long h]
  omega

/-! ## When the filter is exact -/

/-- The text does not end in a character of several bytes, and its number of seconds, unless
the number itself is too large for a word, is that of a signed one. -/
structure Tame (raw : String) : Prop where
  last : ∀ c ∈ raw.toList.getLast?, c.toNat < 128
  seconds : ∀ n unit, Spells raw n unit → n < 2 ^ 64 → n * unit.seconds < 2 ^ 63

theorem Tame.exact (h : Tame raw) (now : Int64) : ExactSince raw now := by
  refine ⟨?_, fun hnone => ?_, fun secs hsecs f rows hf => ?_⟩
  · rintro secs ⟨n, unit, hspells, hvalue⟩
    have hle : n ≤ n * unit.seconds := Nat.le_mul_of_pos_right n unit.seconds_pos
    have hn : n < 2 ^ 64 := (hle.trans_eq hvalue).trans_lt secs.toNat_lt
    rw [parseSince_spells hspells, if_pos hn, hvalue, UInt64.ofNat_toNat]
  · by_cases hspells : ∃ n unit, Spells raw n unit
    · obtain ⟨n, unit, hspells⟩ := hspells
      have hlarge : ¬n < 2 ^ 64 := by
        intro hn
        have hfits := h.seconds n unit hspells hn
        refine hnone (UInt64.ofNat (n * unit.seconds)) ⟨n, unit, hspells, ?_⟩
        exact (UInt64.toNat_ofNat_of_lt' (hfits.trans (by decide))).symm
      rw [parseSince_spells hspells, if_neg hlarge]
      exact ⟨_, rfl⟩
    · rw [parseSince_other h.last fun n unit hs => hspells ⟨n, unit, hs⟩]
      exact ⟨_, rfl⟩
  · obtain ⟨n, unit, hspells, hn, rfl⟩ := spells_of_parseSince hsecs
    have hfits := h.seconds n unit hspells hn
    have hvalue : (UInt64.ofNat (n * unit.seconds)).toNat = n * unit.seconds :=
      UInt64.toNat_ofNat_of_lt' (hfits.trans (by decide))
    rw [applyFilters_since hsecs hf, saturatingSub_short (by omega)]

/-- A filter by duration alone. -/
def sinceFilter (raw : String) : QueryFilter := ⟨some raw, none, none, false, false⟩

/-- A row at this time. -/
def rowAt (time : Int64) : Row := ⟨.replicate 16 0, "session_start", .null, time⟩

theorem ExactSince.tame {now : Int64} (h : ExactSince raw now) : Tame raw := by
  -- either part of `ExactSince` denies a panic
  have hlast : ∀ c ∈ raw.toList.getLast?, c.toNat < 128 := by
    by_contra hwide
    have hpanics := parseSince_panics hwide
    by_cases hrepresents : ∃ secs, Represents raw secs
    · obtain ⟨secs, hsecs⟩ := hrepresents
      cases hpanics.symm.trans (h.accepts secs hsecs)
    · obtain ⟨e, he⟩ := h.rejects (not_exists.mp hrepresents)
      cases hpanics.symm.trans he
  refine ⟨hlast, fun n unit hspells hn => ?_⟩
  by_contra hlong
  have hparse := parseSince_spells hspells
  rw [if_pos hn] at hparse
  by_cases hword : n * unit.seconds < 2 ^ 64
  · -- the oldest row that is to be kept
    have hvalue := UInt64.toNat_ofNat_of_lt' hword
    generalize UInt64.ofNat (n * unit.seconds) = secs at hparse hvalue
    have hdropped := saturatingSub_long (show 2 ^ 63 ≤ secs.toNat by omega) now
    generalize holdest : max (-2 ^ 63) (now.toInt - secs.toNat) = oldest at hdropped
    have htime : (Int64.ofInt oldest).toInt = oldest := by
      have hnow := now.toInt_lt
      exact Int64.toInt_ofInt_of_le (by omega) (by omega)
    have hkeeps := h.keeps secs hparse (sinceFilter raw) [rowAt (Int64.ofInt oldest)] rfl
    rw [applyFilters_since hparse rfl, holdest] at hkeeps
    have hpasses : passes none (sinceFilter raw) (rowAt (Int64.ofInt oldest)) = true := rfl
    have htime' : (rowAt (Int64.ofInt oldest)).timestamp.toInt = oldest := htime
    have hno : ¬(saturatingSub now secs.toInt64).toInt ≤ oldest := not_le.mpr hdropped
    simp [hpasses, htime', hno] at hkeeps
  · -- the product has wrapped around
    obtain ⟨e, he⟩ := h.rejects fun secs hsecs => by
      obtain ⟨n', unit', hspells', hvalue⟩ := hsecs
      obtain ⟨rfl, rfl⟩ := hspells.unique hspells'
      exact hword (hvalue.trans_lt secs.toNat_lt)
    cases hparse.symm.trans he

/-- **When a filter by duration is exact**, at whatever time: exactly for the texts above. -/
theorem since_exact_iff_tame (raw : String) (now : Int64) : ExactSince raw now ↔ Tame raw :=
  ⟨ExactSince.tame, fun h => h.exact now⟩

/-- A character of two bytes at the end panics; a number of minutes that does not fit is
taken for 44 seconds; and one of seconds that is no signed number drops all rows of the
past. -/
theorem since_filters_go_wrong :
    ¬ExactSince "5é" 1700000000 ∧ ¬ExactSince "307445734561825861m" 1700000000 ∧
      ¬ExactSince "9223372036854775808s" 1700000000 := by
  refine ⟨fun h => ?_, fun h => ?_, fun h => ?_⟩
  · exact absurd (h.tame.last 'é' (by decide)) (by decide)
  · have hspells : Spells "307445734561825861m" 307445734561825861 .minute :=
      ⟨"307445734561825861".toList, by decide, List.all_eq_true.mp (by decide), by decide,
        by decide⟩
    exact absurd (h.tame.seconds _ _ hspells (by decide)) (by decide)
  · have hspells : Spells "9223372036854775808s" 9223372036854775808 .second :=
      ⟨"9223372036854775808".toList, by decide, List.all_eq_true.mp (by decide), by decide,
        by decide⟩
    exact absurd (h.tame.seconds _ _ hspells (by decide)) (by decide)

end Conveyance.Cli
