import Conveyance.Lib.JsonWriter
import Conveyance.Lib.Text
import Conveyance.Storage.LogDb
import Mathlib.Data.List.AList

/-!
# Log export (conveyance, logcmd.rs)

`log export` reads the events of the log, filters them, and then reads the rows again
for their chain columns, which it finds by request id and timestamp. Several rows can
share both; the map keeps the last of them.

The JSON reader, the texts of storage errors and the clock are parameters. Durations
are computed as in a release build, where a product that does not fit wraps around.
-/

namespace Conveyance.Cli

open Lib Crypto Storage

/-! ## Filters -/

structure CliError where
  message : String
  code : Int
deriving DecidableEq

def CliError.fail (message : String) : CliError := ⟨message, 1⟩

/-- The filter set shared by `query` and `export`. -/
structure QueryFilter where
  since : Option String
  tool : Option String
  status : Option String
  verbose : Bool
  anomalous : Bool

/-- `str::parse::<u64>` on ASCII digits. -/
def parseU64 (digits : Bytes) : Option UInt64 :=
  let n := digits.foldl (fun n b => n * 10 + (b.toNat - 48)) 0
  if n < 2 ^ 64 then some (UInt64.ofNat n) else none

/-- Digits and a required unit, in seconds. -/
def parseSince (raw : String) : Except (Fault CliError) UInt64 :=
  let fail := .error (.err (.fail ("invalid --since value '" ++ raw ++
    "': use a duration with a unit suffix (45s, 30m, 2h, 1d)")))
  let utf8 := raw.toUTF8.data.toList
  if utf8.length < 2 then fail
  -- `split_at` must not cut a character
  else if !isCharBoundary utf8 (utf8.length - 1) then .error .panic
  else
    let digits := utf8.take (utf8.length - 1)
    let unit := utf8.drop (utf8.length - 1)
    if digits.isEmpty || !digits.all (fun b => 48 ≤ b.toNat && b.toNat ≤ 57) then fail
    else
      match parseU64 digits with
      | none => fail
      | some n =>
        if unit = "s".toUTF8.data.toList then .ok n
        else if unit = "m".toUTF8.data.toList then .ok (n * 60)
        else if unit = "h".toUTF8.data.toList then .ok (n * 3600)
        else if unit = "d".toUTF8.data.toList then .ok (n * 86400)
        else fail

/-- `i64::saturating_sub`. -/
def saturatingSub (a b : Int64) : Int64 :=
  Int64.ofInt (max (-2 ^ 63) (min (2 ^ 63 - 1) (a.toInt - b.toInt)))

/-- Rows before this time are left out. -/
def cutoff (now : Int64) (f : QueryFilter) : Except (Fault CliError) (Option Int64) :=
  match f.since with
  | none => .ok none
  | some raw => do
    let secs ← parseSince raw
    .ok (some (saturatingSub now secs.toInt64))

/-- One row flattened for filtering and printing. -/
structure Row where
  reqId : Octets 16
  eventType : String
  payload : Json.Value
  timestamp : Int64

def asStr (v : Json.Value) : Option String :=
  match v.1 with
  | .string s => some s
  | _ => none

def Row.service (row : Row) : Option String := (row.payload.get "service").bind asStr

def Row.status (row : Row) : Option String := (row.payload.get "status").bind asStr

def Row.anomalous (row : Row) : Bool :=
  if row.eventType = "request_timeout" ∨ row.eventType = "daemon_note" then true
  else if row.eventType = "execute_result" then row.status ≠ some "ok"
  else false

/-- The row goes through every filter that is set. -/
def passes (cut : Option Int64) (f : QueryFilter) (row : Row) : Bool :=
  !(cut.any fun c => row.timestamp < c) &&
    !(f.tool.any fun tool => row.service ≠ some tool) &&
    !(f.status.any fun status =>
      row.eventType ≠ "execute_result" || row.status ≠ some status) &&
    !(f.anomalous && !row.anomalous)

def applyFilters (now : Int64) (rows : List Row) (f : QueryFilter) :
    Except (Fault CliError) (List Row) := do
  let cut ← cutoff now f
  .ok (rows.filter (passes cut f))

/-- Nothing is filtered. -/
def QueryFilter.Unfiltered (f : QueryFilter) : Prop :=
  f.since = none ∧ f.tool = none ∧ f.status = none ∧ f.anomalous = false

theorem QueryFilter.Unfiltered.cutoff {f : QueryFilter} (h : f.Unfiltered) (now : Int64) :
    cutoff now f = .ok none := by
  rw [Cli.cutoff, h.1]

theorem QueryFilter.Unfiltered.passes {f : QueryFilter} (h : f.Unfiltered) (row : Row) :
    passes none f row = true := by
  obtain ⟨-, htool, hstatus, hanomalous⟩ := h
  simp [Cli.passes, htool, hstatus, hanomalous]

/-! ## Export -/

/-- One line of an export. -/
structure ExportLine where
  reqId : String
  eventType : String
  payload : Json.Value
  timestamp : Int64
  prevHash : String
  hash : String

/-- `by_req_and_ts`. -/
abbrev ColumnIndex := AList fun _ : String × Int64 => String × String

/-- What chain columns are looked up by. -/
def eventKey (event : LogEvent) : String × Int64 := (hexEncode event.reqId.1, event.timestamp)

def columns (row : ChainRow) : String × String :=
  (hexEncode row.prevHash.1, hexEncode row.hash.1)

def columnIndex (rows : List ChainRow) : ColumnIndex :=
  rows.foldl (fun m row => m.insert (eventKey row.event) (columns row)) ∅

def exportLine (index : ColumnIndex) (row : Row) : ExportLine :=
  let hexId := hexEncode row.reqId.1
  let (prevHash, hash) := (index.lookup (hexId, row.timestamp)).getD ("", "")
  ⟨hexId, row.eventType, row.payload, row.timestamp, prevHash, hash⟩

section Export

-- `serde_json::from_str`, how serde_json writes a character and a double, and
-- `Display` of a storage error
variable (fromStr : String → Option Json.Value) (esc : Char → List Char)
  (f64Text : UInt64 → List Char) (display : StorageError → String)

/-- A payload that is not JSON is shown as the text it is. -/
def payloadValue (payloadJson : String) : Json.Value :=
  (fromStr payloadJson).getD (.string payloadJson)

def Row.ofEvent (event : LogEvent) : Row :=
  ⟨event.reqId, event.eventType, payloadValue fromStr event.payloadJson, event.timestamp⟩

def loadRows (db : LogDb) : Except (Fault CliError) (List Row) := do
  let events ← db.events.mapError fun e => .err (.fail (display e))
  .ok (events.map (.ofEvent fromStr))

def exportLines (now : Int64) (f : QueryFilter) (db : LogDb) :
    Except (Fault CliError) (List ExportLine) := do
  let rows ← loadRows fromStr display db
  let filtered ← applyFilters now rows f
  let allRows ← db.readRows.mapError fun e => .err (.fail (display e))
  .ok (filtered.map (exportLine (columnIndex allRows)))

/-- The text of a line. -/
def ExportLine.text (line : ExportLine) : List Char :=
  Json.compact esc f64Text (Json.Value.object
    [("req_id", .string line.reqId), ("event_type", .string line.eventType),
      ("payload", line.payload), ("timestamp", .number (.ofInt64 line.timestamp)),
      ("prev_hash", .string line.prevHash), ("hash", .string line.hash)]).1

/-- What is printed, or written to the file. -/
def exportBody (lines : List ExportLine) : List Char :=
  let body := ['\n'].intercalate (lines.map (·.text esc f64Text))
  if lines.isEmpty then body else body ++ ['\n']

/-! ## Which columns a line has -/

/-- The last row with the id and time. -/
def lastWithKey (rows : List ChainRow) (key : String × Int64) : Option ChainRow :=
  (rows.filter fun row => eventKey row.event = key).getLast?

theorem columnIndex_lookup (rows : List ChainRow) (key : String × Int64) :
    (columnIndex rows).lookup key = (lastWithKey rows key).map columns := by
  induction rows using List.reverseRecOn with
  | nil => rfl
  | append_singleton rows row ih =>
    have hstep : columnIndex (rows ++ [row]) =
        (columnIndex rows).insert (eventKey row.event) (columns row) := by
      simp [columnIndex]
    rw [hstep, lastWithKey, List.filter_append]
    by_cases hkey : eventKey row.event = key
    · subst hkey
      rw [AList.lookup_insert]
      simp
    · rw [AList.lookup_insert_ne (Ne.symm hkey), ih, lastWithKey]
      simp [hkey]

theorem lastWithKey_append (before after : List ChainRow) (row : ChainRow) :
    lastWithKey (before ++ row :: after) (eventKey row.event) =
      some ((lastWithKey after (eventKey row.event)).getD row) := by
  rw [lastWithKey, List.filter_append, List.filter_cons_of_pos (by simp), List.getLast?_append,
    List.getLast?_cons]
  rfl

/-- The rows that are shown. -/
def shownRows (cut : Option Int64) (f : QueryFilter) (rows : List ChainRow) : List ChainRow :=
  rows.filter fun row => passes cut f (.ofEvent fromStr row.event)

/-- Every row that is shown has the chain columns of the last row with its id and time. -/
def LastOwnsColumns (cut : Option Int64) (f : QueryFilter) (rows : List ChainRow) : Prop :=
  ∀ row ∈ shownRows fromStr cut f rows, ∀ last, lastWithKey rows (eventKey row.event) = some last →
    last.prevHash = row.prevHash ∧ last.hash = row.hash

/-- No row behind one that is shown has its request id and its time. -/
def NoLaterTwin (cut : Option Int64) (f : QueryFilter) (rows : List ChainRow) : Prop :=
  ∀ before row after, rows = before ++ row :: after →
    passes cut f (.ofEvent fromStr row.event) = true →
    ∀ later ∈ after, eventKey later.event ≠ eventKey row.event

variable {rows : List ChainRow}

/-- Where no two rows have one hash, only the row itself has its chain columns. -/
theorem noLaterTwin_iff {cut : Option Int64} {f : QueryFilter}
    (hunique : (rows.map (·.hash)).Nodup) :
    LastOwnsColumns fromStr cut f rows ↔ NoLaterTwin fromStr cut f rows := by
  constructor
  · rintro hlast before row after rfl hshown later hlater htwin
    have hmem : row ∈ shownRows fromStr cut f (before ++ row :: after) :=
      List.mem_filter.mpr ⟨by simp, hshown⟩
    -- the last row with the key is behind the row, and has its hash
    obtain ⟨last, hsome⟩ : ∃ last, lastWithKey after (eventKey row.event) = some last := by
      rw [← Option.isSome_iff_exists, lastWithKey, List.getLast?_isSome]
      exact List.ne_nil_of_mem (List.mem_filter.mpr ⟨hlater, decide_eq_true htwin⟩)
    have hbehind : last ∈ after := List.mem_of_mem_filter (List.mem_of_getLast? hsome)
    have hhash := (hlast row hmem last (by rw [lastWithKey_append, hsome]; rfl)).2
    rw [List.map_append, List.map_cons] at hunique
    have hnot := (List.nodup_cons.mp hunique.of_append_right).1
    exact hnot (hhash ▸ List.mem_map_of_mem hbehind)
  · intro htwin row hrow last hsome
    obtain ⟨hmem, hshown⟩ := List.mem_filter.mp hrow
    obtain ⟨before, after, rfl⟩ := List.append_of_mem hmem
    have hnone : lastWithKey after (eventKey row.event) = none := by
      rw [lastWithKey, List.getLast?_eq_none_iff, List.filter_eq_nil_iff]
      exact fun later hlater => by simpa using htwin before row after rfl hshown later hlater
    rw [lastWithKey_append, hnone] at hsome
    cases hsome
    exact ⟨rfl, rfl⟩

theorem exportLines_eq {now : Int64} {f : QueryFilter} {db : LogDb} {cut : Option Int64}
    (hrows : db.readRows = .ok rows) (hcut : cutoff now f = .ok cut) :
    exportLines fromStr display now f db = .ok ((shownRows fromStr cut f rows).map fun row =>
      exportLine (columnIndex rows) (.ofEvent fromStr row.event)) := by
  have hevents : db.events = .ok (rows.map (·.event)) := by
    rw [LogDb.events, LogDb.readRows_ok.mp hrows, LogDb.eventsOf_ofRow]
  refine bind_eq_ok.mpr ⟨_, bind_eq_ok.mpr ⟨_, mapError_eq_ok.mpr hevents, rfl⟩, ?_⟩
  refine bind_eq_ok.mpr ⟨_, bind_eq_ok.mpr ⟨_, hcut, rfl⟩, ?_⟩
  refine bind_eq_ok.mpr ⟨_, mapError_eq_ok.mpr hrows, ?_⟩
  rw [List.map_map, List.filter_map, List.map_map]
  rfl

/-! ## Own columns -/

/-- The line shows the row's event. -/
def ExportLine.Shows (line : ExportLine) (row : ChainRow) : Prop :=
  line.reqId = hexEncode row.event.reqId.1 ∧ line.eventType = row.event.eventType ∧
    line.payload = payloadValue fromStr row.event.payloadJson ∧
    line.timestamp = row.event.timestamp

/-- The line has the row's own chain columns. -/
def ExportLine.Owns (line : ExportLine) (row : ChainRow) : Prop :=
  line.Shows fromStr row ∧ line.prevHash = hexEncode row.prevHash.1 ∧
    line.hash = hexEncode row.hash.1

/-- The event a line shows, if its payload is the text its value is written as. -/
def ExportLine.event (line : ExportLine) : Option LogEvent :=
  (hexDecodeArray 16 line.reqId).map fun reqId =>
    ⟨reqId, line.eventType, String.ofList (Json.compact esc f64Text line.payload.1),
      line.timestamp⟩

/-- The hash of a line is recomputed from its own `prev_hash` and the event it shows; a
payload that was stored as its value is written needs no more than the line. -/
def ExportLine.Recomputes (sha256 : Bytes → Octets 32) (line : ExportLine) (row : ChainRow) :
    Prop :=
  line.Shows fromStr row ∧
    (∃ prev : Octets 32, line.prevHash = hexEncode prev.1 ∧
      line.hash = hexEncode (computeEntryHash sha256 prev row.event).1) ∧
    (row.event.payloadJson = String.ofList (Json.compact esc f64Text line.payload.1) →
      line.event esc f64Text = some row.event)

/-- The lines form a chain, each `prev_hash` being the hash of the line before. -/
def Linked (prev : String) : List ExportLine → Prop
  | [] => True
  | line :: lines => line.prevHash = prev ∧ Linked line.hash lines

variable {fromStr esc f64Text} {display}

theorem owns_iff {row : ChainRow} (hrow : row ∈ rows) :
    (exportLine (columnIndex rows) (.ofEvent fromStr row.event)).Owns fromStr row ↔
      ∀ last, lastWithKey rows (eventKey row.event) = some last →
        last.prevHash = row.prevHash ∧ last.hash = row.hash := by
  have hsome : (lastWithKey rows (eventKey row.event)).isSome := by
    rw [lastWithKey, List.getLast?_isSome]
    exact List.ne_nil_of_mem (List.mem_filter.mpr ⟨hrow, decide_eq_true rfl⟩)
  obtain ⟨last, hlast⟩ := Option.isSome_iff_exists.mp hsome
  have hlookup : (columnIndex rows).lookup (eventKey row.event) = some (columns last) := by
    rw [columnIndex_lookup, hlast, Option.map_some]
  have hline : exportLine (columnIndex rows) (.ofEvent fromStr row.event) =
      ⟨hexEncode row.event.reqId.1, row.event.eventType,
        payloadValue fromStr row.event.payloadJson, row.event.timestamp,
        hexEncode last.prevHash.1, hexEncode last.hash.1⟩ := by
    unfold exportLine
    dsimp only [Row.ofEvent]
    rw [show (hexEncode row.event.reqId.1, row.event.timestamp) = eventKey row.event from rfl,
      hlookup]
    rfl
  rw [hline, hlast]
  constructor
  · rintro ⟨-, hprev, hhash⟩ last' hlast'
    cases hlast'
    exact ⟨Subtype.ext (hexEncode_inj hprev), Subtype.ext (hexEncode_inj hhash)⟩
  · intro h
    obtain ⟨hprev, hhash⟩ := h last rfl
    exact ⟨⟨rfl, rfl, rfl, rfl⟩, by rw [hprev], by rw [hhash]⟩

/-- Lines with their own columns are a chain where the rows are. -/
theorem linked_of_owns {sha256 : Bytes → Octets 32} {head : Octets 32} {index : Nat}
    {lines : List ExportLine} (hverify : verifyFrom sha256 head index rows = .ok ())
    (howns : List.Forall₂ (fun row line => line.Owns fromStr row) rows lines) :
    Linked (hexEncode head.1) lines ∧ List.Forall₂
      (fun row line => line.Recomputes fromStr esc f64Text sha256 row) rows lines := by
  induction howns generalizing head index with
  | nil => exact ⟨trivial, .nil⟩
  | @cons row line rows lines hline _ ih =>
    unfold verifyFrom at hverify
    split_ifs at hverify with hprev
    dsimp only at hverify
    split_ifs at hverify with hhash
    obtain ⟨hshows, hlinePrev, hlineHash⟩ := hline
    have hprev : row.prevHash = head := not_not.mp hprev
    have hhash : computeEntryHash sha256 row.prevHash row.event = row.hash := not_not.mp hhash
    obtain ⟨hlinked, hrecompute⟩ := ih hverify
    rw [← hlineHash] at hlinked
    refine ⟨⟨by rw [hlinePrev, hprev], hlinked⟩, .cons ⟨hshows, ?_, ?_⟩ hrecompute⟩
    · exact ⟨row.prevHash, hlinePrev, by rw [hlineHash, hhash]⟩
    · intro htext
      obtain ⟨hreq, htype, -, htime⟩ := hshows
      rw [ExportLine.event, hreq, hexDecodeArray_hexEncode, htype, htime, ← htext]
      rfl

end Export

/-- **An export carries each row's own chain columns where the last row with its id and
time has them.** The export of a log that can be read always succeeds. Its lines show
the rows that pass the filter with their own `prev_hash` and `hash`, and unfiltered
lines of a log that verifies are a chain that verifies, if and only if each row shown
has the chain columns of the last row of the log with its request id and timestamp. The
hashes of a table are UNIQUE; then that is to say that no later row shares both with it. -/
theorem export_carries_own_columns (fromStr : String → Option Json.Value)
    (esc : Char → List Char) (f64Text : UInt64 → List Char) (display : StorageError → String)
    (sha256 : Bytes → Octets 32) (now : Int64) (f : QueryFilter) (db : LogDb)
    (rows : List ChainRow) (cut : Option Int64) (hrows : db.readRows = .ok rows)
    (hcut : cutoff now f = .ok cut) :
    ∃ lines, exportLines fromStr display now f db = .ok lines ∧
      ((List.Forall₂ (fun row line => line.Owns fromStr row) (shownRows fromStr cut f rows) lines ∧
        (f.Unfiltered → ∀ n, verifyChain sha256 rows = .ok n →
          Linked (hexEncode genesisPrevHash.1) lines ∧ List.Forall₂
            (fun row line => line.Recomputes fromStr esc f64Text sha256 row) rows lines)) ↔
        LastOwnsColumns fromStr cut f rows) ∧
      ((rows.map (·.hash)).Nodup →
        (LastOwnsColumns fromStr cut f rows ↔ NoLaterTwin fromStr cut f rows)) := by
  refine ⟨_, exportLines_eq fromStr display hrows hcut, ?_, noLaterTwin_iff fromStr⟩
  have howns : List.Forall₂ (fun row line => line.Owns fromStr row) (shownRows fromStr cut f rows)
      ((shownRows fromStr cut f rows).map fun row =>
        exportLine (columnIndex rows) (Row.ofEvent fromStr row.event)) ↔
      LastOwnsColumns fromStr cut f rows := by
    rw [List.forall₂_map_right_iff, List.forall₂_same]
    exact forall₂_congr fun row hrow => owns_iff (List.mem_of_mem_filter hrow)
  rw [← howns]
  constructor
  · exact fun h => h.1
  · intro hown
    refine ⟨hown, fun hall n hverify => ?_⟩
    obtain ⟨_, hverify, -⟩ := bind_eq_ok.mp hverify
    have hshown : shownRows fromStr cut f rows = rows := by
      have hnone : cut = none := by
        rw [hall.cutoff] at hcut
        exact (Except.ok.inj hcut).symm
      rw [hnone]
      exact List.filter_eq_self.mpr fun row _ => hall.passes _
    rw [hshown] at hown ⊢
    exact linked_of_owns hverify hown

def quickGrant : LogEvent := ⟨.replicate 16 7, "approval_granted", "{}", 1700000000⟩

/-- In the second of the grant. -/
def quickSent : LogEvent := ⟨.replicate 16 7, "execute_sent", "{}", 1700000000⟩

/-- A second later. -/
def slowSent : LogEvent := { quickSent with timestamp := 1700000001 }

def noFilter : QueryFilter := ⟨none, none, none, false, false⟩

theorem slow_log_exports_own_columns :
    ∃ lines, exportLines (fun _ => none) (fun _ => "") 0 noFilter
        (countLog [quickGrant, slowSent]) = .ok lines ∧
      Linked (hexEncode genesisPrevHash.1) lines := by
  have hall : noFilter.Unfiltered := ⟨rfl, rfl, rfl, rfl⟩
  obtain ⟨lines, hlines, hiff, -⟩ := export_carries_own_columns (fun _ => none) (fun c => [c])
    (fun _ => []) (fun _ => "") countDigest 0 noFilter _ _ none
    (countLog_rows [quickGrant, slowSent]) rfl
  refine ⟨lines, hlines, ((hiff.mpr ?_).2 hall 2 (by decide +kernel)).1⟩
  intro row hrow last hlast
  have hlasts : ∀ row ∈ buildChain countDigest [quickGrant, slowSent],
      lastWithKey (buildChain countDigest [quickGrant, slowSent]) (eventKey row.event) =
        some row := by
    decide +kernel
  rw [hlasts row (List.mem_of_mem_filter hrow)] at hlast
  cases hlast
  exact ⟨rfl, rfl⟩

def quickRows : List ChainRow := buildChain countDigest [quickGrant, quickSent]

/-- Granted and sent within one second: the log verifies, and both lines have the chain
columns of the second row. -/
theorem quick_log_repeats_columns :
    verifyChain countDigest quickRows = .ok 2 ∧
      ∃ lines, exportLines (fun _ => none) (fun _ => "") 0 noFilter
          (countLog [quickGrant, quickSent]) = .ok lines ∧
        lines.map (·.eventType) = ["approval_granted", "execute_sent"] ∧
        lines.map (·.hash) = List.replicate 2 (hexEncode (finalHash quickRows).1) ∧
        ¬ List.Forall₂ (fun row line => line.Owns (fun _ => none) row) quickRows lines ∧
        ¬ Linked (hexEncode genesisPrevHash.1) lines := by
  refine ⟨verifyChain_buildChain _, _, exportLines_eq _ _ (countLog_rows _) rfl, ?_, ?_, ?_, ?_⟩
  · decide +kernel
  · decide +kernel
  · intro howns
    cases howns with
    | cons hfirst _ => exact absurd hfirst.2.2 (by decide +kernel)
  · intro hlinked
    exact absurd hlinked.1 (by decide +kernel)

end Conveyance.Cli
