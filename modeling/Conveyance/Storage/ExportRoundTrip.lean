import Conveyance.Lib.JsonWriter
import Conveyance.Storage.LogDiff
import Conveyance.Storage.PhoneExport

/-!
# Exports and their reading (conveyance-core, storage/logdiff.rs, and ApprovalLog.kt)

Two writers of exports: `render_phone_export` on the PC, through serde_json, and
`exportJsonl` on the phone, through `JSONObject`. They differ in the order of the
members, in what they escape and in whether the last line has a break. Of both it
matters only that a line is an object of the five members in some order, and that it
holds no control character.

serde_json's reader of a row is a parameter; `ReadsRows` is what is assumed of it.
-/

namespace Conveyance.Storage

open Lib Crypto

/-! ## Lines -/

/-- The members of a line. -/
def rawMembers (raw : RawPhoneRow) : List (String × Json) :=
  [("req_id", .string raw.reqId), ("event_type", .string raw.eventType),
    ("payload_json", .string raw.payloadJson),
    ("timestamp", .number (.ofInt64 raw.timestamp)), ("signature", .string raw.signature)]

/-- The strings that a row is written as. -/
def PhoneLogRow.raw (row : PhoneLogRow) : RawPhoneRow :=
  ⟨hexEncode row.reqId.1, row.eventType, row.payloadJson, row.timestamp,
    hexEncode row.signature.1⟩

/-- serde_json reads an object of the five members, each once and in any order. -/
def ReadsRows (toF64 : List Char → Option UInt64) (readRow : String → Except String RawPhoneRow) :
    Prop :=
  ∀ (raw : RawPhoneRow) (members : List (String × Json)) (texts : List (List Char)),
    members.Perm (rawMembers raw) → List.Forall₂ (Json.MemberReads toF64) texts members →
    readRow (String.ofList ('{' :: [','].intercalate texts ++ ['}'])) = .ok raw

/-- A way to write the characters of a string: each is read back, and none of the text is
a control character. -/
structure Escapes (esc : Char → List Char) : Prop where
  reads : ∀ c, Json.CharReads (esc c) c
  printable : ∀ c, Json.Printable (esc c)

section Writers

variable (f64Text : UInt64 → List Char)

/-- The text of `json!` for a row; serde_json escapes the characters canonical JSON does. -/
def rowText (r : PhoneLogRow) : List Char :=
  Json.compact escapeChar f64Text (Json.Value.object
    [("req_id", .string (hexEncode r.reqId.1)), ("event_type", .string r.eventType),
      ("payload_json", .string r.payloadJson), ("timestamp", .number (.ofInt64 r.timestamp)),
      ("signature", .string (hexEncode r.signature.1))]).1

def renderPhoneExport (rows : List PhoneLogRow) : String :=
  String.ofList (rows.flatMap fun r => rowText f64Text r ++ ['\n'])

-- how `JSONObject` writes a character, and the identity's key
variable (esc : Char → List Char) (sign : Bytes → Octets 64)

/-- The row whose fields a line of the phone has. -/
def exportRow (event : LogEvent) : PhoneLogRow :=
  ⟨event.reqId, event.eventType, event.payloadJson, event.timestamp,
    sign (phoneLogContext ++ eventContentJson event)⟩

/-- `JSONObject` keeps the order in which members were put. -/
def jsonObjectText (row : PhoneLogRow) : List Char :=
  Json.compact esc f64Text (.object (rawMembers row.raw))

def exportJsonl (events : List LogEvent) : String :=
  String.ofList (['\n'].intercalate (events.map fun event =>
    jsonObjectText f64Text esc (exportRow sign event)))

end Writers

/-! ## One line is read back -/

section Line

variable {toF64 : List Char → Option UInt64} {readRow : String → Except String RawPhoneRow}
  {f64Text : UInt64 → List Char} {esc : Char → List Char}

/-- The members are strings and an integer. -/
theorem rawMembers_text {raw : RawPhoneRow} {m : String × Json} (hesc : Escapes esc)
    (hm : m ∈ rawMembers raw) :
    Json.Reads toF64 (Json.compact esc f64Text m.2) m.2 ∧
      Json.Printable (Json.compact esc f64Text m.2) := by
  have hstring : ∀ s : String, Json.Reads toF64 (Json.compact esc f64Text (.string s)) (.string s) ∧
      Json.Printable (Json.compact esc f64Text (.string s)) := fun s =>
    ⟨Json.reads_quoted hesc.reads s, Json.printable_quoted hesc.printable s⟩
  simp only [rawMembers, List.mem_cons, List.not_mem_nil, or_false] at hm
  rcases hm with rfl | rfl | rfl | rfl | rfl
  · exact hstring _
  · exact hstring _
  · exact hstring _
  · exact ⟨Json.reads_int64 _, Json.printable_int64 _⟩
  · exact hstring _

/-- A line as the parser sees it. -/
structure LineFor (readRow : String → Except String RawPhoneRow) (raw : RawPhoneRow)
    (t : List Char) : Prop where
  reads : readRow (String.ofList t) = .ok raw
  unbroken : Unbroken t
  braces : ∃ body, t = '{' :: body ++ ['}']

/-- Whatever the order of the members. -/
theorem lineFor_compact {raw : RawPhoneRow} {members : List (String × Json)} (hesc : Escapes esc)
    (hread : ReadsRows toF64 readRow) (hperm : members.Perm (rawMembers raw)) :
    LineFor readRow raw (Json.compact esc f64Text (.object members)) := by
  have htext : ∀ m ∈ members, Json.Reads toF64 (Json.compact esc f64Text m.2) m.2 ∧
      Json.Printable (Json.compact esc f64Text m.2) :=
    fun m hm => rawMembers_text hesc (hperm.mem_iff.mp hm)
  have hcompact : Json.compact esc f64Text (.object members) =
      Json.objectText esc (members.map fun m => (m.1, Json.compact esc f64Text m.2)) := by
    rw [Json.compact, Json.compactMembers_eq]
  rw [hcompact]
  constructor
  · refine hread raw members _ hperm ?_
    rw [List.map_map, List.forall₂_map_left_iff, List.forall₂_same]
    exact fun m hm => Json.memberReads_text hesc.reads (htext m hm).1
  · intro c hc
    have hprintable : 0x20 ≤ c.toNat := by
      refine Json.printable_objectText hesc.printable ?_ c hc
      intro m hm
      obtain ⟨m', hm', rfl⟩ := List.mem_map.mp hm
      exact (htext m' hm').2
    constructor
    · rintro rfl
      exact absurd hprintable (by decide)
    · rintro rfl
      exact absurd hprintable (by decide)
  · exact ⟨_, rfl⟩

theorem escapes_escapeChar : Escapes escapeChar := by
  refine ⟨reads_escapeChar, fun c => ?_⟩
  unfold escapeChar
  split_ifs with hquote hback hb ht hn hf hr hctl
  case pos | pos | pos | pos | pos | pos | pos => exact .cons (by decide) (.cons (by decide) .nil)
  · have hhex : ∀ n < 16, 0x20 ≤ (Nat.digitChar n).toNat := by decide
    refine .cons (by decide) (.cons (by decide) (.cons (by decide) (.cons (by decide) ?_)))
    exact .cons (hhex _ (by omega)) (.cons (hhex _ (by omega)) .nil)
  · exact .cons (Nat.le_of_not_lt hctl) .nil

theorem hexField_hexEncode {n line : Nat} {reason : String} (bytes : Octets n) :
    hexField n line reason (hexEncode bytes.1) = .ok bytes := by
  unfold hexField
  rw [hexDecodeArrayAsserted_eq, hexDecodeArray_hexEncode]
  rfl

theorem LineFor.parseRow {row : PhoneLogRow} {t : List Char} (h : LineFor readRow row.raw t)
    (hevent : row.eventType ≠ "") (lineNo : Nat) :
    trim (String.ofList t) = String.ofList t ∧ (String.ofList t).isEmpty = false ∧
      parseRow readRow lineNo (String.ofList t) = .ok row := by
  obtain ⟨body, hbody⟩ := h.braces
  refine ⟨?_, ?_, ?_⟩
  · rw [hbody]
    exact trim_ofList (by decide) (by decide)
  · rw [hbody, String.isEmpty_eq_false_iff]
    intro hempty
    have hlist := congrArg String.toList hempty
    rw [String.toList_ofList] at hlist
    cases hlist
  · have hnonempty : row.raw.eventType.isEmpty = false := String.isEmpty_eq_false_iff.mpr hevent
    refine bind_eq_ok.mpr ⟨row.raw, mapError_eq_ok.mpr h.reads, ?_⟩
    refine bind_eq_ok.mpr ⟨row.reqId, hexField_hexEncode _, ?_⟩
    refine bind_eq_ok.mpr ⟨row.signature, hexField_hexEncode _, ?_⟩
    rw [hnonempty]
    rfl

theorem parseLines_of_rows {rows : List PhoneLogRow} {ts : List (List Char)}
    (hlines : List.Forall₂ (fun row t => LineFor readRow row.raw t) rows ts)
    (hevents : ∀ row ∈ rows, row.eventType ≠ "") (idx : Nat) (done : List PhoneLogRow) :
    parseLines readRow (ts.map String.ofList) idx done = .ok (done ++ rows) := by
  induction hlines generalizing idx done with
  | nil => rw [List.append_nil]; rfl
  | @cons row t rows ts hline _ ih =>
    obtain ⟨htrim, hnonempty, hrow⟩ := hline.parseRow (hevents row List.mem_cons_self) (idx + 1)
    rw [List.map_cons, parseLines, htrim, hnonempty, if_neg Bool.false_ne_true]
    refine bind_eq_ok.mpr ⟨row, hrow, ?_⟩
    rw [ih fun r hr => hevents r (List.mem_cons_of_mem _ hr), List.append_assoc]
    rfl

/-- Every line with its break. -/
theorem splitLines_terminated {ts : List (List Char)} (h : ∀ t ∈ ts, Unbroken t) :
    splitLines (ts.flatMap (· ++ ['\n'])) [] = ts := by
  induction ts with
  | nil => rfl
  | cons t ts ih =>
    have hrest := ih fun u hu => h u (List.mem_cons_of_mem _ hu)
    rw [List.flatMap_cons, List.append_assoc, List.singleton_append,
      splitLines_line (h t List.mem_cons_self), hrest]

/-- A break between every two lines. -/
theorem splitLines_separated {ts : List (List Char)} (h : ∀ t ∈ ts, Unbroken t ∧ t ≠ []) :
    splitLines (['\n'].intercalate ts) [] = ts := by
  induction ts with
  | nil => rfl
  | cons t ts ih =>
    obtain ⟨hunbroken, hne⟩ := h t List.mem_cons_self
    cases ts with
    | nil => rw [List.intercalate_singleton, splitLines_last hunbroken hne]
    | cons u us =>
      have hrest := ih fun v hv => h v (List.mem_cons_of_mem _ hv)
      rw [List.intercalate_cons_cons, List.append_assoc, List.singleton_append,
        splitLines_line hunbroken, hrest]

end Line

/-! ## Exports are read back -/

section Exports

variable {toF64 : List Char → Option UInt64} {readRow : String → Except String RawPhoneRow}
  (hread : ReadsRows toF64 readRow) (f64Text : UInt64 → List Char)

include hread

theorem lineFor_rowText (row : PhoneLogRow) : LineFor readRow row.raw (rowText f64Text row) := by
  refine lineFor_compact escapes_escapeChar hread ?_
  -- serde_json's map brings the members in the order of their names
  exact Json.perm_insertAll (rawMembers row.raw) (by simp [rawMembers])

theorem parse_render {rows : List PhoneLogRow} (hevents : ∀ row ∈ rows, row.eventType ≠ "") :
    parsePhoneExport readRow (renderPhoneExport f64Text rows) = .ok rows := by
  have hlines : List.Forall₂ (fun row t => LineFor readRow row.raw t) rows
      (rows.map (rowText f64Text)) := by
    rw [List.forall₂_map_right_iff, List.forall₂_same]
    exact fun row _ => lineFor_rowText hread f64Text row
  have hsplit : splitLines (rows.flatMap fun r => rowText f64Text r ++ ['\n']) [] =
      rows.map (rowText f64Text) := by
    rw [← List.flatMap_map (rowText f64Text) (· ++ ['\n'])]
    refine splitLines_terminated fun t ht => ?_
    obtain ⟨row, -, rfl⟩ := List.mem_map.mp ht
    exact (lineFor_rowText hread f64Text row).unbroken
  rw [parsePhoneExport, renderPhoneExport, lines, String.toList_ofList, hsplit,
    parseLines_of_rows hlines hevents, List.nil_append]

theorem parse_exportJsonl {esc : Char → List Char} (hesc : Escapes esc) (sign : Bytes → Octets 64)
    {events : List LogEvent} (hevents : ∀ event ∈ events, event.eventType ≠ "") :
    parsePhoneExport readRow (exportJsonl f64Text esc sign events) =
      .ok (events.map (exportRow sign)) := by
  have hline : ∀ row : PhoneLogRow, LineFor readRow row.raw (jsonObjectText f64Text esc row) :=
    fun row => lineFor_compact hesc hread (.refl _)
  have hlines : List.Forall₂ (fun row t => LineFor readRow row.raw t) (events.map (exportRow sign))
      (events.map fun event => jsonObjectText f64Text esc (exportRow sign event)) := by
    rw [List.forall₂_map_left_iff, List.forall₂_map_right_iff, List.forall₂_same]
    exact fun event _ => hline _
  have hsplit := @splitLines_separated
    (events.map fun event => jsonObjectText f64Text esc (exportRow sign event)) ?_
  · rw [parsePhoneExport, exportJsonl, lines, String.toList_ofList, hsplit,
      parseLines_of_rows hlines, List.nil_append]
    intro row hrow
    obtain ⟨event, hevent, rfl⟩ := List.mem_map.mp hrow
    exact hevents event hevent
  · intro t ht
    obtain ⟨event, -, rfl⟩ := List.mem_map.mp ht
    exact ⟨(hline _).unbroken, List.cons_ne_nil _ _⟩

end Exports

/-- **Exports are read back, and what the phone signs is what the PC checks.** For every
list of rows whose event types are not empty, the rendered export is read as these rows.
For every event, the bytes the phone signs are the payload of the row with its fields,
whatever the signature. So the phone's own export of any events with types is read as
one row for each, and under a signature scheme that accepts its own signatures every
row verifies. -/
theorem phone_export_round_trips (toF64 : List Char → Option UInt64)
    (readRow : String → Except String RawPhoneRow) (f64Text : UInt64 → List Char)
    (esc : Char → List Char) (hread : ReadsRows toF64 readRow) (hesc : Escapes esc) :
    (∀ rows : List PhoneLogRow, (∀ row ∈ rows, row.eventType ≠ "") →
      parsePhoneExport readRow (renderPhoneExport f64Text rows) = .ok rows) ∧
    (∀ row : PhoneLogRow, phoneRowSigningPayload row =
      .ok (phoneLogContext ++ eventContentJson row.event)) ∧
    ∀ (sign : Bytes → Octets 64) (verify : Octets 32 → Bytes → Octets 64 → Bool)
      (phonePub : Octets 32), (∀ message, verify phonePub message (sign message) = true) →
      ∀ events : List LogEvent, (∀ event ∈ events, event.eventType ≠ "") →
        ∃ rows, parsePhoneExport readRow (exportJsonl f64Text esc sign events) = .ok rows ∧
          rows.map (·.event) = events ∧
          ∀ row ∈ rows, row.signature = sign (phoneLogContext ++ eventContentJson row.event) ∧
            row.verifySignature verify phonePub = true := by
  refine ⟨fun rows hevents => parse_render hread f64Text hevents, phoneRowSigningPayload_event, ?_⟩
  intro sign verify phonePub hverify events hevents
  refine ⟨_, parse_exportJsonl hread f64Text hesc sign hevents, ?_, ?_⟩
  · rw [List.map_map]
    exact List.map_id' events
  · intro row hrow
    obtain ⟨event, -, rfl⟩ := List.mem_map.mp hrow
    have hsigned : (exportRow sign event).signature =
        sign (phoneLogContext ++ eventContentJson (exportRow sign event).event) := rfl
    refine ⟨hsigned, ?_⟩
    rw [PhoneLogRow.verifySignature, phoneRowSigningPayload_event, hsigned]
    exact hverify _

/-! ## A reader of rows -/

def stringMember (j : Json) (name : String) : Option String :=
  match j.get name with
  | some (.string s) => some s
  | _ => none

def int64Member (j : Json) (name : String) : Option Int64 :=
  match j.get name with
  | some (.number n) => (asI64 n).map Int64.ofInt
  | _ => none

/-- The standard parser, and then the five members and no other. -/
def readRawRow (text : String) : Except String RawPhoneRow :=
  match Json.parse (fun _ => none) text.toList with
  | some (.object members) =>
    if members.length ≠ 5 then .error "unknown field"
    else
      match stringMember (.object members) "req_id", stringMember (.object members) "event_type",
          stringMember (.object members) "payload_json",
          int64Member (.object members) "timestamp",
          stringMember (.object members) "signature" with
      | some reqId, some eventType, some payloadJson, some timestamp, some signature =>
        .ok ⟨reqId, eventType, payloadJson, timestamp, signature⟩
      | _, _, _, _, _ => .error "missing field"
  | _ => .error "invalid type"

theorem asI64_ofInt64 (i : Int64) : (asI64 (.ofInt64 i)).map Int64.ofInt = some i := by
  have hhigh := i.toInt_lt
  unfold Json.Number.ofInt64
  split_ifs with hneg
  · exact congrArg some (Int64.ofInt_toInt i)
  · have hnat : (UInt64.ofNat i.toInt.toNat).toNat = i.toInt.toNat := by
      rw [UInt64.toNat_ofNat']
      omega
    have hint : ((UInt64.ofNat i.toInt.toNat).toNat : Int) = i.toInt := by omega
    rw [asI64, if_pos (by omega), hint]
    exact congrArg some (Int64.ofInt_toInt i)

theorem readsRows_readRawRow : ReadsRows (fun _ => none) readRawRow := by
  intro raw members texts hperm htexts
  have hsorted := @Json.sorted_insertAll (rawMembers raw) [] List.Pairwise.nil
  have hall : (Json.insertAll [] (rawMembers raw)).Perm (rawMembers raw) :=
    Json.perm_insertAll (rawMembers raw) (by simp [rawMembers])
  have hparse : Json.parse (fun _ => none) ('{' :: [','].intercalate texts ++ ['}']) =
      some (.object (Json.insertAll [] (rawMembers raw))) := by
    rw [(Json.Reads.object htexts).parse, Json.insertAll_of_perm hsorted (hperm.trans hall.symm)]
  have hlength : (Json.insertAll [] (rawMembers raw)).length = 5 := hall.length_eq
  have hget : ∀ m ∈ rawMembers raw,
      (Json.object (Json.insertAll [] (rawMembers raw))).get m.1 = some m.2 := fun m hm =>
    Json.get_object_of_mem hsorted.nodup_keys (hall.mem_iff.mpr hm)
  have hstring : ∀ name s : String, (name, .string s) ∈ rawMembers raw →
      stringMember (.object (Json.insertAll [] (rawMembers raw))) name = some s := by
    intro name s hm
    rw [stringMember, hget _ hm]
  have htime : int64Member (.object (Json.insertAll [] (rawMembers raw))) "timestamp" =
      some raw.timestamp := by
    have hm : ("timestamp", .number (.ofInt64 raw.timestamp)) ∈ rawMembers raw := by
      simp [rawMembers]
    rw [int64Member, hget _ hm]
    exact asI64_ofInt64 _
  unfold readRawRow
  rw [String.toList_ofList, hparse]
  dsimp only
  rw [if_neg (not_not.mpr hlength), htime,
    hstring "req_id" raw.reqId (by simp [rawMembers]),
    hstring "event_type" raw.eventType (by simp [rawMembers]),
    hstring "payload_json" raw.payloadJson (by simp [rawMembers]),
    hstring "signature" raw.signature (by simp [rawMembers])]

/-- A row with a line break, a quote and a letter beyond ASCII. -/
def textRow : PhoneLogRow :=
  ⟨.replicate 16 7, "approval_granted", "a\n\"é", -5, .replicate 64 1⟩

theorem text_row_round_trips :
    parsePhoneExport readRawRow (renderPhoneExport (fun _ => []) [textRow]) = .ok [textRow] :=
  (phone_export_round_trips _ readRawRow (fun _ => []) escapeChar readsRows_readRawRow
    escapes_escapeChar).1 [textRow] (by simp [textRow])

end Conveyance.Storage
