import Conveyance.Crypto.HashChain

/-!
# The execution log (conveyance-core, storage/logdb.rs)

The `entries` table in id order and the recorded head of `chain_meta`. A stored
row is the columns an INSERT fills, blobs of any width; reading it back checks
the widths. The id only orders the rows. Faults of the database engine itself
are not modelled, except that `hash` is UNIQUE.
-/

namespace Conveyance.Storage

open Lib Crypto

inductive StorageError where
  | db
  | malformedRow (rowId : Int)
deriving DecidableEq

inductive VerifyVerdict where
  | intact (rows : Nat)
  | chainBroken (issue : ChainIssue)
  | metaStale (recordedHead computedHead : String) (rows : Nat)
deriving DecidableEq

/-- The columns of one row of `entries`, without its id. -/
structure StoredRow where
  reqId : Bytes
  eventType : String
  payloadJson : String
  timestamp : Int64
  prevHash : Bytes
  hash : Bytes
deriving DecidableEq

/-- What `append` inserts for a row. -/
def StoredRow.ofRow (row : ChainRow) : StoredRow :=
  ⟨row.event.reqId.1, row.event.eventType, row.event.payloadJson, row.event.timestamp,
    row.prevHash.1, row.hash.1⟩

/-- Reading a row back: every blob must have its column's width. -/
def StoredRow.toRow (id : Int) (s : StoredRow) : Except StorageError ChainRow :=
  if hr : s.reqId.length = 16 then
    if hp : s.prevHash.length = 32 then
      if hh : s.hash.length = 32 then
        .ok ⟨⟨⟨s.reqId, hr⟩, s.eventType, s.payloadJson, s.timestamp⟩, ⟨s.prevHash, hp⟩,
          ⟨s.hash, hh⟩⟩
      else .error (.malformedRow id)
    else .error (.malformedRow id)
  else .error (.malformedRow id)

/-- The columns of an event; only `req_id` has a width to check here. -/
def StoredRow.event (s : StoredRow) : Except StorageError LogEvent :=
  if h : s.reqId.length = 16 then .ok ⟨⟨s.reqId, h⟩, s.eventType, s.payloadJson, s.timestamp⟩
  else .error .db

structure LogDb where
  /-- `entries`, ordered by id. -/
  entries : List (Int × StoredRow)
  /-- The `head_hash` key of `chain_meta`. -/
  headHash : Option String
deriving DecidableEq

namespace LogDb

/-- A freshly migrated database. -/
def empty : LogDb := ⟨[], none⟩

/-- The rows in order, without their ids. -/
def contents (db : LogDb) : List StoredRow := db.entries.map Prod.snd

def readAll : List (Int × StoredRow) → Except StorageError (List ChainRow)
  | [] => .ok []
  | (id, s) :: rest => do
    let row ← s.toRow id
    let rows ← readAll rest
    .ok (row :: rows)

def readRows (db : LogDb) : Except StorageError (List ChainRow) := readAll db.entries

def eventsOf : List StoredRow → Except StorageError (List LogEvent)
  | [] => .ok []
  | s :: rest => do
    let event ← s.event
    let events ← eventsOf rest
    .ok (event :: events)

def events (db : LogDb) : Except StorageError (List LogEvent) := eventsOf db.contents

def readHead (db : LogDb) : Except StorageError (Octets 32) :=
  match db.entries.getLast? with
  | none => .ok genesisPrevHash
  | some (_, s) =>
    if h : s.hash.length = 32 then .ok ⟨s.hash, h⟩ else .error (.malformedRow (-1))

/-- The id AUTOINCREMENT assigns next. -/
def nextId (db : LogDb) : Int := (db.entries.getLast?.map Prod.fst).getD 0 + 1

section Hashing

variable (sha256 : Bytes → Octets 32)

/-- One transaction: the row and the recorded head, or neither. -/
def append (db : LogDb) (event : LogEvent) : Except StorageError (LogDb × ChainRow) := do
  let prevHash ← db.readHead
  let row : ChainRow := ⟨event, prevHash, computeEntryHash sha256 prevHash event⟩
  if db.contents.any (fun s => s.hash == row.hash.1) then .error .db
  else
    .ok (⟨db.entries ++ [(db.nextId, .ofRow row)], some (hexEncode row.hash.1)⟩, row)

def appendAll (db : LogDb) : List LogEvent → Except StorageError LogDb
  | [] => .ok db
  | event :: events => do
    let (db, _) ← db.append sha256 event
    db.appendAll events

def verifyWithMeta (db : LogDb) : Except StorageError VerifyVerdict := do
  let rows ← db.readRows
  match verifyChain sha256 rows with
  | .error issue => .ok (.chainBroken issue)
  | .ok _ =>
    let computed := hexEncode (finalHash rows).1
    match db.headHash with
    | none => .ok (.intact rows.length)
    | some recorded =>
      if recorded = computed then .ok (.intact rows.length)
      else .ok (.metaStale recorded computed rows.length)

variable {sha256}

/-! ## Reading back -/

theorem toRow_ofRow (id : Int) (row : ChainRow) : (StoredRow.ofRow row).toRow id = .ok row := by
  obtain ⟨⟨⟨req, hreq⟩, eventType, payloadJson, timestamp⟩, ⟨prev, hprev⟩, ⟨hash, hhash⟩⟩ := row
  simp [StoredRow.toRow, StoredRow.ofRow, hreq, hprev, hhash]

theorem ofRow_of_toRow {id : Int} {s : StoredRow} {row : ChainRow} (h : s.toRow id = .ok row) :
    s = .ofRow row := by
  unfold StoredRow.toRow at h
  split_ifs at h
  cases h
  rfl

theorem readAll_ok {entries : List (Int × StoredRow)} {rows : List ChainRow} :
    readAll entries = .ok rows ↔ entries.map Prod.snd = rows.map StoredRow.ofRow := by
  induction entries generalizing rows with
  | nil =>
    cases rows with
    | nil | cons => simp [readAll]
  | cons e entries ih =>
    obtain ⟨id, s⟩ := e
    rw [readAll]
    constructor
    · intro h
      obtain ⟨row, hrow, h⟩ := bind_eq_ok.mp h
      obtain ⟨rest, hrest, h⟩ := bind_eq_ok.mp h
      cases h
      rw [List.map_cons, List.map_cons, ih.mp hrest, ofRow_of_toRow hrow]
    · intro h
      cases rows with
      | nil => cases h
      | cons row rows =>
        obtain ⟨hs, hrest⟩ := List.cons.inj h
        refine bind_eq_ok.mpr ⟨row, ?_, bind_eq_ok.mpr ⟨rows, ih.mpr hrest, rfl⟩⟩
        rw [show s = StoredRow.ofRow row from hs]
        exact toRow_ofRow id row

theorem readRows_ok {db : LogDb} {rows : List ChainRow} :
    db.readRows = .ok rows ↔ db.contents = rows.map .ofRow :=
  readAll_ok

theorem eventsOf_ofRow (rows : List ChainRow) :
    eventsOf (rows.map .ofRow) = .ok (rows.map (·.event)) := by
  induction rows with
  | nil => rfl
  | cons row rows ih =>
    have hevent : (StoredRow.ofRow row).event = .ok row.event := dif_pos row.event.reqId.2
    exact bind_eq_ok.mpr ⟨_, hevent, bind_eq_ok.mpr ⟨_, ih, rfl⟩⟩

theorem readHead_of_contents {db : LogDb} {rows : List ChainRow}
    (h : db.contents = rows.map .ofRow) : db.readHead = .ok (finalHash rows) := by
  have hlast : db.entries.getLast?.map Prod.snd = rows.getLast?.map .ofRow := by
    rw [← List.getLast?_map, ← List.getLast?_map]
    exact congrArg List.getLast? h
  unfold readHead finalHash
  cases hrows : rows.getLast? with
  | none =>
    rw [hrows, Option.map_none, Option.map_eq_none_iff] at hlast
    rw [hlast]
    rfl
  | some row =>
    rw [hrows, Option.map_some, Option.map_eq_some_iff] at hlast
    obtain ⟨⟨id, s⟩, hs, rfl⟩ := hlast
    rw [hs]
    exact dif_pos row.hash.2

/-! ## Logs produced by appends -/

/-- The log stores the chain of `events`, and its recorded head if it has one. -/
structure Stores (sha256 : Bytes → Octets 32) (db : LogDb) (events : List LogEvent) : Prop where
  contents : db.contents = (buildChain sha256 events).map .ofRow
  head : events ≠ [] → db.headHash = some (hexEncode (finalHash (buildChain sha256 events)).1)

theorem Stores.events {db : LogDb} {events : List LogEvent} (h : Stores sha256 db events) :
    db.events = .ok events := by
  rw [LogDb.events, h.contents, eventsOf_ofRow, buildChain, buildFrom_events]

variable {db db' : LogDb} {row : ChainRow} {done events : List LogEvent} {event : LogEvent}

theorem stores_empty : Stores sha256 empty [] := ⟨rfl, fun h => absurd rfl h⟩

/-- What an append does to a log that stores a chain. -/
theorem append_chain (h : db.contents = (buildChain sha256 events).map .ofRow)
    (happend : db.append sha256 event = .ok (db', row)) :
    db'.entries = db.entries ++ [(db.nextId, .ofRow row)] ∧
      db'.headHash = some (hexEncode row.hash.1) ∧
      buildChain sha256 (events ++ [event]) = buildChain sha256 events ++ [row] ∧
      db'.contents = (buildChain sha256 (events ++ [event])).map .ofRow := by
  unfold LogDb.append at happend
  rw [readHead_of_contents h] at happend
  obtain ⟨_, hhead, happend⟩ := bind_eq_ok.mp happend
  cases hhead
  simp only at happend
  split_ifs at happend
  cases happend
  have hchain : buildChain sha256 (events ++ [event]) = buildChain sha256 events ++ [_] :=
    buildFrom_snoc genesisPrevHash events event
  rw [← finalHash_buildChain] at hchain
  refine ⟨rfl, rfl, hchain, ?_⟩
  rw [hchain, List.map_append, ← h]
  exact List.map_append

/-- The rows before stay, and those appended come behind them. -/
theorem appendAll_chain (h : db.contents = (buildChain sha256 done).map .ofRow)
    (happend : db.appendAll sha256 events = .ok db') :
    db.entries <+: db'.entries ∧
      db'.contents = (buildChain sha256 (done ++ events)).map .ofRow := by
  induction events generalizing db done with
  | nil =>
    cases happend
    rw [List.append_nil]
    exact ⟨List.prefix_refl _, h⟩
  | cons event events ih =>
    obtain ⟨⟨mid, row⟩, hone, hrest⟩ := bind_eq_ok.mp happend
    obtain ⟨hentries, -, -, hmid⟩ := append_chain h hone
    obtain ⟨hgrown, hcontents⟩ := ih hmid hrest
    rw [List.append_assoc] at hcontents
    refine ⟨List.IsPrefix.trans ?_ hgrown, hcontents⟩
    rw [hentries]
    exact List.prefix_append _ _

/-- The hash of a row is the head of the chain up to it. -/
theorem mem_buildChain (h : row ∈ buildChain sha256 events) : ∃ done rest, events = done ++ rest ∧
      row.hash = HashChain.final (computeEntryHash sha256) genesisPrevHash done := by
  induction events using List.reverseRecOn with
  | nil => cases h
  | append_singleton events event ih =>
    rw [buildChain, buildFrom_snoc, List.mem_append, ← buildChain, List.mem_singleton] at h
    rcases h with h | rfl
    · obtain ⟨done, rest, rfl, hhash⟩ := ih h
      exact ⟨done, rest ++ [event], (List.append_assoc ..).symm ▸ rfl, hhash⟩
    · refine ⟨events ++ [event], [], (List.append_nil _).symm, ?_⟩
      rw [HashChain.final_snoc]

/-- Without a collision an append goes through. -/
theorem append_ok (h : db.contents = (buildChain sha256 events).map .ofRow)
    (hfree : CollisionFree sha256 (inputs (buildChain sha256 (events ++ [event])))) :
    ∃ db' row, db.append sha256 event = .ok (db', row) := by
  have hlinks := hfree.links
  rw [buildChain, buildFrom_links] at hlinks
  have hfresh : ¬ db.contents.any (fun s => s.hash ==
      (computeEntryHash sha256 (finalHash (buildChain sha256 events)) event).1) = true := by
    rw [List.any_eq_true]
    rintro ⟨s, hs, heq⟩
    rw [h] at hs
    obtain ⟨row, hrow, rfl⟩ := List.mem_map.mp hs
    obtain ⟨done, rest, rfl, hhash⟩ := mem_buildChain hrow
    have hsame : row.hash =
        computeEntryHash sha256 (finalHash (buildChain sha256 (done ++ rest))) event :=
      Subtype.ext (beq_iff_eq.mp heq)
    have hsnoc := @HashChain.final_snoc _ _ (computeEntryHash sha256) genesisPrevHash
      (done ++ rest) event
    rw [hhash, finalHash_buildChain, ← hsnoc, List.append_assoc] at hsame
    rw [List.append_assoc] at hlinks
    exact HashChain.final_ne_of_longer (by simp) hlinks hsame
  unfold LogDb.append
  rw [readHead_of_contents h]
  exact ⟨_, _, if_neg hfresh⟩

theorem appendAll_ok (h : db.contents = (buildChain sha256 done).map .ofRow)
    (hfree : CollisionFree sha256 (inputs (buildChain sha256 (done ++ events)))) :
    ∃ db', db.appendAll sha256 events = .ok db' := by
  induction events generalizing db done with
  | nil => exact ⟨db, rfl⟩
  | cons event events ih =>
    have hsplit : done ++ event :: events = (done ++ [event]) ++ events := by simp
    rw [hsplit] at hfree
    obtain ⟨mid, row, hone⟩ := append_ok h hfree.of_append
    obtain ⟨-, -, -, hmid⟩ := append_chain h hone
    obtain ⟨db', hrest⟩ := ih hmid hfree
    exact ⟨db', bind_eq_ok.mpr ⟨_, hone, hrest⟩⟩

theorem Stores.append (h : Stores sha256 db events)
    (happend : db.append sha256 event = .ok (db', row)) :
    Stores sha256 db' (events ++ [event]) := by
  obtain ⟨-, hhead, hchain, hcontents⟩ := append_chain h.contents happend
  refine ⟨hcontents, fun _ => ?_⟩
  rw [hhead, hchain]
  simp [finalHash]

theorem Stores.appendAll (h : Stores sha256 db done)
    (happend : db.appendAll sha256 events = .ok db') : Stores sha256 db' (done ++ events) := by
  induction events generalizing db done with
  | nil =>
    cases happend
    rwa [List.append_nil]
  | cons event events ih =>
    obtain ⟨⟨mid, row⟩, hone, hrest⟩ := bind_eq_ok.mp happend
    have hstep := ih (h.append hone) hrest
    rwa [List.append_assoc] at hstep

/-! ## The verdict -/

/-- An `Intact` verdict over a recorded head: the rows verify and end in it. -/
theorem verifyWithMeta_intact {n : Nat} {recorded : String}
    (hhead : db.headHash = some recorded) (h : db.verifyWithMeta sha256 = .ok (.intact n)) :
    ∃ rows m, db.contents = rows.map .ofRow ∧ verifyChain sha256 rows = .ok m ∧
      recorded = hexEncode (finalHash rows).1 := by
  unfold verifyWithMeta at h
  obtain ⟨rows, hrows, h⟩ := bind_eq_ok.mp h
  rw [hhead] at h
  cases hverify : verifyChain sha256 rows with
  | error issue =>
    rw [hverify] at h
    cases h
  | ok m =>
    rw [hverify] at h
    simp only at h
    split_ifs at h with hrec
    · exact ⟨rows, m, readRows_ok.mp hrows, hverify, hrec⟩
    · cases h

/-- The SHA-256 inputs of the rows a log reads back. -/
def hashedInputs (db : LogDb) : List Bytes :=
  match db.readRows with
  | .ok rows => inputs rows
  | .error _ => []

/-- A log that differs from what was appended, over the recorded head the
appends left, is never judged intact. -/
theorem changed_not_intact (hevents : events ≠ [])
    (hlog : empty.appendAll sha256 events = .ok db) (hhead : db'.headHash = db.headHash)
    (hchanged : db'.contents ≠ db.contents)
    (hfree : CollisionFree sha256 (db.hashedInputs ++ db'.hashedInputs)) (n : Nat) :
    db'.verifyWithMeta sha256 ≠ .ok (.intact n) := by
  intro hintact
  have hstores : Stores sha256 db events := stores_empty.appendAll hlog
  have hread := readRows_ok.mpr hstores.contents
  obtain ⟨rows, m, hcontents, hverify, hrec⟩ :=
    verifyWithMeta_intact (hhead.trans (hstores.head hevents)) hintact
  have hread' := readRows_ok.mpr hcontents
  simp only [hashedInputs, hread, hread', inputs, ← List.map_append] at hfree
  have hrows : buildChain sha256 events = rows :=
    verified_inj hfree (verifyChain_buildChain events) hverify (Subtype.ext (hexEncode_inj hrec))
  exact hchanged (by rw [hcontents, hstores.contents, hrows])

end Hashing

end LogDb

/-- **The hash chain detects every change.** Verification accepts exactly the
chains built from their own events. Where SHA-256 has no collision on the
inputs involved and never gives the genesis hash, two lists of rows that verify
and end in the same hash are equal; so a log that was appended to and then
changed in any way, its recorded head untouched, is never judged intact. A change is one of
the rows in their order (`contents`): the chain does not cover the ids they are stored under,
and ids that keep the order may change unnoticed. -/
theorem log_detects_every_change (sha256 : Bytes → Octets 32) :
    (∀ (rows : List ChainRow) (n : Nat), verifyChain sha256 rows = .ok n ↔
      rows = buildChain sha256 (rows.map ChainRow.event) ∧ n = rows.length) ∧
    (∀ (a b : List ChainRow) (m n : Nat), CollisionFree sha256 (inputs (a ++ b)) →
      verifyChain sha256 a = .ok m → verifyChain sha256 b = .ok n →
      finalHash a = finalHash b → a = b) ∧
    (∀ (events : List LogEvent) (db db' : LogDb), events ≠ [] →
      LogDb.empty.appendAll sha256 events = .ok db → db'.headHash = db.headHash →
      db'.contents ≠ db.contents → CollisionFree sha256 (db.hashedInputs ++ db'.hashedInputs) →
      ∀ n, db'.verifyWithMeta sha256 ≠ .ok (.intact n)) :=
  ⟨fun _ _ => verifyChain_ok_iff, fun _ _ _ _ => verified_inj,
    fun _ _ _ hevents hlog hhead hchanged hfree =>
      LogDb.changed_not_intact hevents hlog hhead hchanged hfree⟩

/-! ## Sample logs -/

/-- A stand-in for SHA-256 under which the hashes of a log count its rows. -/
def countDigest (x : Bytes) : Octets 32 := .replicate 32 (x.headD 0 + 1)

/-- The log of these events. -/
def countLog (events : List LogEvent) : LogDb :=
  ⟨(buildChain countDigest events).zipIdx.map fun (row, i) => ((i : Int) + 1, .ofRow row), none⟩

theorem countLog_rows (events : List LogEvent) :
    (countLog events).readRows = .ok (buildChain countDigest events) := by
  rw [LogDb.readRows_ok, LogDb.contents, countLog, List.map_map]
  show (List.zipIdx _ 0).map (StoredRow.ofRow ∘ Prod.fst) = _
  rw [← List.map_map, List.zipIdx_map_fst]

def startedEvent : LogEvent :=
  ⟨.replicate 16 0, "session_start", r#"{"reason":"user_started"}"#,
    1700000000⟩

def timeoutEvent : LogEvent :=
  ⟨.replicate 16 1, "request_timeout", r#"{"reason":"timeout"}"#,
    1700000060⟩

/-- The SHA-256 digest of the first row's input. -/
def startedHash : Octets 32 :=
  ⟨[200, 17, 44, 32, 36, 19, 234, 186, 41, 90, 245, 46, 7, 128, 194, 165, 225, 246, 118, 91,
    252, 91, 119, 121, 44, 221, 111, 54, 217, 191, 195, 63], by decide⟩

/-- The SHA-256 digest of the second row's input. -/
def timeoutHash : Octets 32 :=
  ⟨[149, 141, 242, 194, 50, 248, 112, 30, 223, 205, 98, 97, 223, 123, 183, 81, 156, 20, 64,
    129, 153, 159, 194, 7, 199, 40, 164, 154, 225, 1, 102, 162], by decide⟩

/-- SHA-256 on the two inputs of this log. -/
def sampleSha256 (x : Bytes) : Octets 32 :=
  if x = preimage genesisPrevHash startedEvent then startedHash
  else if x = preimage startedHash timeoutEvent then timeoutHash
  else ⟨List.replicate 32 255, by decide⟩

theorem sampleSha256_started :
    computeEntryHash sampleSha256 genesisPrevHash startedEvent = startedHash := by
  rw [computeEntryHash, sampleSha256, if_pos rfl]

theorem sampleSha256_timeout :
    computeEntryHash sampleSha256 startedHash timeoutEvent = timeoutHash := by
  have hne : preimage startedHash timeoutEvent ≠ preimage genesisPrevHash startedEvent :=
    fun h => absurd (preimage_inj h).1 (by decide)
  rw [computeEntryHash, sampleSha256, if_neg hne, if_pos rfl]

def startedRow : ChainRow := ⟨startedEvent, genesisPrevHash, startedHash⟩

def timeoutRow : ChainRow := ⟨timeoutEvent, startedHash, timeoutHash⟩

def sampleLog : LogDb :=
  ⟨[(1, .ofRow startedRow), (2, .ofRow timeoutRow)], some (hexEncode timeoutHash.1)⟩

/-- The sample log without its newest row. -/
def truncatedLog : LogDb := { sampleLog with entries := sampleLog.entries.take 1 }

theorem sampleLog_appended :
    LogDb.empty.appendAll sampleSha256 [startedEvent, timeoutEvent] = .ok sampleLog := by
  have hfirst : LogDb.empty.append sampleSha256 startedEvent =
      .ok (⟨[(1, .ofRow startedRow)], some (hexEncode startedHash.1)⟩, startedRow) := by
    simp only [LogDb.append, LogDb.readHead, LogDb.empty, List.getLast?_nil, sampleSha256_started,
      bind, Except.bind]
    rfl
  have hsecond : LogDb.append sampleSha256
      ⟨[(1, .ofRow startedRow)], some (hexEncode startedHash.1)⟩ timeoutEvent =
      .ok (sampleLog, timeoutRow) := by
    have hhead : LogDb.readHead ⟨[(1, .ofRow startedRow)], some (hexEncode startedHash.1)⟩ =
        .ok startedHash := rfl
    have hunique : (LogDb.contents ⟨[(1, .ofRow startedRow)],
        some (hexEncode startedHash.1)⟩).any (fun s => s.hash == timeoutHash.1) = false := by
      decide
    simp only [LogDb.append, hhead, sampleSha256_timeout, hunique, bind, Except.bind]
    rfl
  simp only [LogDb.appendAll, hfirst, hsecond, bind, Except.bind]

theorem sample_collisionFree :
    CollisionFree sampleSha256 (sampleLog.hashedInputs ++ truncatedLog.hashedInputs) := by
  have hinputs : ∀ x ∈ sampleLog.hashedInputs ++ truncatedLog.hashedInputs,
      x = preimage genesisPrevHash startedEvent ∨ x = preimage startedHash timeoutEvent := by
    have hfull : sampleLog.readRows = .ok [startedRow, timeoutRow] :=
      LogDb.readRows_ok.mpr rfl
    have hcut : truncatedLog.readRows = .ok [startedRow] := LogDb.readRows_ok.mpr rfl
    intro x hx
    simpa [LogDb.hashedInputs, hfull, hcut, inputs, startedRow, timeoutRow, or_assoc,
      or_comm, or_left_comm] using hx
  have hfirst : sampleSha256 (preimage genesisPrevHash startedEvent) = startedHash :=
    sampleSha256_started
  have hsecond : sampleSha256 (preimage startedHash timeoutEvent) = timeoutHash :=
    sampleSha256_timeout
  constructor
  · intro x hx y hy
    rcases hinputs x hx with rfl | rfl <;> rcases hinputs y hy with rfl | rfl
    · exact fun _ => rfl
    · rw [hfirst, hsecond]
      exact fun h => absurd h (by decide)
    · rw [hfirst, hsecond]
      exact fun h => absurd h (by decide)
    · exact fun _ => rfl
  · intro x hx
    rcases hinputs x hx with rfl | rfl
    · rw [hfirst]
      decide
    · rw [hsecond]
      decide

/-- Dropping the newest row leaves rows that verify, but not an intact log. -/
theorem truncated_log_not_intact :
    LogDb.empty.appendAll sampleSha256 [startedEvent, timeoutEvent] = .ok sampleLog ∧
    verifyChain sampleSha256 [startedRow] = .ok 1 ∧ truncatedLog.readRows = .ok [startedRow] ∧
    ∀ n, truncatedLog.verifyWithMeta sampleSha256 ≠ .ok (.intact n) := by
  obtain ⟨hverify, -, hlog⟩ := log_detects_every_change sampleSha256
  refine ⟨sampleLog_appended, (hverify _ _).mpr ⟨?_, rfl⟩, LogDb.readRows_ok.mpr rfl, ?_⟩
  · simp [buildChain, buildFrom, startedRow, sampleSha256_started]
  · exact hlog [startedEvent, timeoutEvent] sampleLog truncatedLog (by decide)
      sampleLog_appended rfl (by decide) sample_collisionFree

end Conveyance.Storage
