import Conveyance.Storage.LogDb

/-!
# Appends from many connections (conveyance-core, storage/logdb.rs)

`append` is one IMMEDIATE transaction of four statements and a COMMIT, and each of
them may fail. What is taken for granted of SQLite: one connection at a time is
between BEGIN and COMMIT, it works on a copy of its own, and COMMIT installs that
copy or fails and leaves nothing of it. A connection that finds the lock taken
waits or gives up.
-/

namespace Conveyance.Storage

open Lib Crypto

/-- How far `append` has come. -/
inductive Stage where
  | begun
  | headRead (prevHash : Octets 32)
  | inserted (row : ChainRow)
  | recorded (row : ChainRow)
deriving DecidableEq

structure Transaction where
  conn : Nat
  event : LogEvent
  /-- The database as the transaction sees it. -/
  view : LogDb
  stage : Stage
deriving DecidableEq

/-- A finished call of `append`. -/
structure Appended where
  conn : Nat
  event : LogEvent
  result : Except StorageError ChainRow
deriving DecidableEq

/-- The file and its connections: what is committed, who writes, what was returned. -/
structure Writers where
  db : LogDb
  writer : Option Transaction
  done : List Appended
deriving DecidableEq

inductive WriterStep where
  /-- BEGIN IMMEDIATE, which waits while another connection writes. -/
  | begin (conn : Nat) (event : LogEvent)
  /-- BEGIN IMMEDIATE fails: the database is busy for too long. -/
  | refuse (conn : Nat) (event : LogEvent)
  /-- The next statement of the connection that writes. -/
  | advance
  /-- That statement fails for a reason of the engine's. -/
  | fail
deriving DecidableEq

section Steps

variable (sha256 : Bytes → Octets 32)

/-- The statements before COMMIT. -/
def Transaction.statement (tx : Transaction) : Except StorageError Transaction :=
  match tx.stage with
  | .begun => do
    let prevHash ← tx.view.readHead
    .ok { tx with stage := .headRead prevHash }
  | .headRead prevHash =>
    let row : ChainRow := ⟨tx.event, prevHash, computeEntryHash sha256 prevHash tx.event⟩
    if tx.view.contents.any (fun s => s.hash == row.hash.1) then .error .db
    else
      let entries := tx.view.entries ++ [(tx.view.nextId, .ofRow row)]
      .ok { tx with view := { tx.view with entries }, stage := .inserted row }
  | .inserted row =>
    .ok { tx with
      view := { tx.view with headHash := some (hexEncode row.hash.1) }
      stage := .recorded row }
  | .recorded _ => .ok tx

namespace Writers

/-- The transaction is over, with nothing of it left. -/
def rollback (s : Writers) (tx : Transaction) (e : StorageError) : Writers :=
  ⟨s.db, none, s.done ++ [⟨tx.conn, tx.event, .error e⟩]⟩

def commit (s : Writers) (tx : Transaction) (row : ChainRow) : Writers :=
  ⟨tx.view, none, s.done ++ [⟨tx.conn, tx.event, .ok row⟩]⟩

def step (s : Writers) : WriterStep → Writers
  | .begin conn event =>
    match s.writer with
    | none => { s with writer := some ⟨conn, event, s.db, .begun⟩ }
    | some _ => s
  | .refuse conn event => { s with done := s.done ++ [⟨conn, event, .error .db⟩] }
  | .advance =>
    match s.writer with
    | none => s
    | some tx =>
      match tx.stage with
      | .recorded row => s.commit tx row
      | _ =>
        match tx.statement sha256 with
        | .error e => s.rollback tx e
        | .ok tx => { s with writer := some tx }
  | .fail =>
    match s.writer with
    | none => s
    | some tx => s.rollback tx .db

def run (s : Writers) (steps : List WriterStep) : Writers := steps.foldl (step sha256) s

/-- Connections on a file nobody writes to. -/
def idle (db : LogDb) : Writers := ⟨db, none, []⟩

end Writers

end Steps

/-- The rows returned so far, oldest first. -/
def Writers.returned (s : Writers) : List ChainRow := s.done.filterMap (·.result.toOption)

/-- The events of the calls that succeeded, oldest first. -/
def Writers.succeeded (s : Writers) : List LogEvent :=
  s.done.filterMap fun call => if call.result.toOption.isSome then some call.event else none

/-! ## What a step can do -/

section Change

variable {sha256 : Bytes → Octets 32}

variable (sha256) in
/-- What a transaction holds, relative to the committed log. -/
def Transaction.Follows (db : LogDb) (tx : Transaction) : Prop :=
  match tx.stage with
  | .begun => tx.view = db
  | .headRead prevHash => tx.view = db ∧ db.readHead = .ok prevHash
  | .inserted row =>
    db.append sha256 tx.event =
      .ok ({ tx.view with headHash := some (hexEncode row.hash.1) }, row)
  | .recorded row => db.append sha256 tx.event = .ok (tx.view, row)

variable {db : LogDb} {rows before : List ChainRow} {s : Writers}

/-- A statement keeps a transaction on the way to `LogDb.append`. -/
theorem Transaction.Follows.statement {tx tx' : Transaction} (h : tx.Follows sha256 db)
    (hstatement : tx.statement sha256 = .ok tx') : tx'.Follows sha256 db := by
  obtain ⟨conn, event, view, stage⟩ := tx
  cases stage with
  | begun =>
    obtain ⟨prevHash, hread, htx⟩ := bind_eq_ok.mp hstatement
    cases htx
    have hview : view = db := h
    exact ⟨hview, hview ▸ hread⟩
  | headRead prevHash =>
    obtain ⟨hview, hread⟩ := h
    have hview : view = db := hview
    subst hview
    simp only [Transaction.statement] at hstatement
    split_ifs at hstatement with hdup
    cases hstatement
    refine bind_eq_ok.mpr ⟨prevHash, hread, ?_⟩
    rw [if_neg hdup]
  | inserted | recorded =>
    cases hstatement
    exact h

variable (sha256) in
/-- Everything a step can do. -/
inductive Writers.Change (s : Writers) : WriterStep → Writers → Prop
  | wait {a : WriterStep} : Change s a s
  | acquire (conn : Nat) (event : LogEvent) (hfree : s.writer = none) :
      Change s (.begin conn event) { s with writer := some ⟨conn, event, s.db, .begun⟩ }
  | move {tx tx' : Transaction} (htx : s.writer = some tx)
      (hstatement : tx.statement sha256 = .ok tx') :
      Change s .advance { s with writer := some tx' }
  /-- A failed call; only the transaction that was open is gone. -/
  | fail {a : WriterStep} (conn : Nat) (event : LogEvent) (e : StorageError)
      {writer : Option Transaction} (hwriter : writer = none ∨ writer = s.writer) :
      Change s a ⟨s.db, writer, s.done ++ [⟨conn, event, .error e⟩]⟩
  | commit {tx : Transaction} {row : ChainRow} (htx : s.writer = some tx)
      (hstage : tx.stage = .recorded row) : Change s .advance (s.commit tx row)

theorem Writers.step_change (s : Writers) (a : WriterStep) :
    s.Change sha256 a (s.step sha256 a) := by
  cases a with
  | begin conn event =>
    cases hwriter : s.writer with
    | none =>
      simp only [Writers.step, hwriter]
      exact .acquire conn event hwriter
    | some tx =>
      simp only [Writers.step, hwriter]
      exact .wait
  | refuse conn event => exact .fail conn event .db (.inr rfl)
  | advance =>
    cases hwriter : s.writer with
    | none =>
      simp only [Writers.step, hwriter]
      exact .wait
    | some tx =>
      cases hstage : tx.stage with
      | recorded row =>
        simp only [Writers.step, hwriter, hstage]
        exact .commit hwriter hstage
      | _ =>
        simp only [Writers.step, hwriter, hstage]
        cases hstatement : tx.statement sha256 with
        | error e => exact .fail tx.conn tx.event e (.inl rfl)
        | ok tx' => exact .move hwriter hstatement
  | fail =>
    cases hwriter : s.writer with
    | none =>
      simp only [Writers.step, hwriter]
      exact .wait
    | some tx =>
      simp only [Writers.step, hwriter]
      exact .fail tx.conn tx.event .db (.inl rfl)

/-! ## One chain -/

/-- What an append returns and stores: the next row of the chain. -/
theorem LogDb.append_row {db' : LogDb} {event : LogEvent} {row : ChainRow}
    (hcontents : db.contents = rows.map .ofRow)
    (happend : db.append sha256 event = .ok (db', row)) :
    row = ⟨event, finalHash rows, computeEntryHash sha256 (finalHash rows) event⟩ ∧
      db'.contents = (rows ++ [row]).map .ofRow ∧ db'.headHash = some (hexEncode row.hash.1) := by
  unfold LogDb.append at happend
  rw [readHead_of_contents hcontents] at happend
  obtain ⟨_, hhead, happend⟩ := bind_eq_ok.mp happend
  cases hhead
  simp only at happend
  split_ifs at happend
  cases happend
  refine ⟨rfl, ?_, rfl⟩
  rw [LogDb.contents] at hcontents
  rw [LogDb.contents, List.map_append, hcontents, List.map_append]
  rfl

theorem verifyChain_snoc {n : Nat} (event : LogEvent) (h : verifyChain sha256 rows = .ok n) :
    verifyChain sha256 (rows ++
      [⟨event, finalHash rows, computeEntryHash sha256 (finalHash rows) event⟩]) = .ok (n + 1) := by
  obtain ⟨hrows, rfl⟩ := verifyChain_ok_iff.mp h
  refine verifyChain_ok_iff.mpr ⟨?_, by simp⟩
  rw [List.map_append, List.map_singleton, buildChain, buildFrom_snoc, ← buildChain, ← hrows,
    ← finalHash_buildChain, ← hrows]

variable (sha256) in
/-- The committed log is the old rows followed by the rows returned since. -/
structure Chained (before : List ChainRow) (s : Writers) : Prop where
  contents : s.db.contents = (before ++ s.returned).map .ofRow
  verified : verifyChain sha256 (before ++ s.returned) = .ok (before ++ s.returned).length
  head : s.returned ≠ [] →
    s.db.headHash = some (hexEncode (finalHash (before ++ s.returned)).1)
  events : s.returned.map ChainRow.event = s.succeeded
  follows : ∀ tx, s.writer = some tx → tx.Follows sha256 s.db

theorem Writers.returned_fail (s : Writers) (writer : Option Transaction) (conn : Nat)
    (event : LogEvent) (e : StorageError) :
    Writers.returned ⟨s.db, writer, s.done ++ [⟨conn, event, .error e⟩]⟩ = s.returned := by
  simp [Writers.returned, Except.toOption]

theorem Writers.returned_commit (s : Writers) (tx : Transaction) (row : ChainRow) :
    (s.commit tx row).returned = s.returned ++ [row] := by
  simp [Writers.returned, Writers.commit, Except.toOption]

/-- **One step keeps the chain.** -/
theorem Chained.change {s' : Writers} {a : WriterStep} (h : Chained sha256 before s)
    (hchange : s.Change sha256 a s') : Chained sha256 before s' := by
  cases hchange with
  | wait => exact h
  | acquire conn event hfree =>
    refine ⟨h.contents, h.verified, h.head, h.events, fun tx htx => ?_⟩
    cases htx
    exact rfl
  | move htx hstatement =>
    refine ⟨h.contents, h.verified, h.head, h.events, fun tx' htx' => ?_⟩
    cases htx'
    exact (h.follows _ htx).statement hstatement
  | @fail _ conn event e writer hwriter =>
    have hreturned := s.returned_fail writer conn event e
    have hsucceeded : Writers.succeeded ⟨s.db, writer, s.done ++ [⟨conn, event, .error e⟩]⟩ =
        s.succeeded := by
      simp [Writers.succeeded, Except.toOption]
    refine ⟨?_, ?_, ?_, ?_, fun tx htx => ?_⟩
    · rw [hreturned]
      exact h.contents
    · rw [hreturned]
      exact h.verified
    · rw [hreturned]
      exact h.head
    · rw [hreturned, hsucceeded]
      exact h.events
    · rcases hwriter with rfl | rfl
      · cases htx
      · exact h.follows tx htx
  | @commit tx row htx hstage =>
    have happend : s.db.append sha256 tx.event = .ok (tx.view, row) := by
      have hfollows := h.follows tx htx
      rw [Transaction.Follows, hstage] at hfollows
      exact hfollows
    obtain ⟨hrow, hcontents, hhead⟩ := LogDb.append_row h.contents happend
    have hreturned := s.returned_commit tx row
    have hsucceeded : (s.commit tx row).succeeded = s.succeeded ++ [tx.event] := by
      simp [Writers.succeeded, Writers.commit, Except.toOption]
    refine ⟨?_, ?_, fun _ => ?_, ?_, fun tx' htx' => ?_⟩
    · rw [hreturned, ← List.append_assoc]
      exact hcontents
    · have hverified := verifyChain_snoc tx.event h.verified
      rw [← hrow] at hverified
      rw [hreturned, ← List.append_assoc, List.length_append]
      exact hverified
    · rw [hreturned, ← List.append_assoc]
      simpa [finalHash, Writers.commit] using hhead
    · rw [hreturned, hsucceeded, List.map_append, h.events, hrow]
      rfl
    · cases htx'

theorem Chained.run (h : Chained sha256 before s) (steps : List WriterStep) :
    Chained sha256 before (s.run sha256 steps) := by
  induction steps generalizing s with
  | nil => exact h
  | cons a steps ih => exact ih (h.change (s.step_change a))

end Change

/-- **Concurrent appends keep one valid chain.** Over any number of connections on a
file whose rows verify, in every interleaving of their appends, whatever fails on the
way: the rows stored are the old ones followed by those returned, one for each call
that succeeded and none for the others, they verify, and once a call has succeeded
the recorded head is the hash of the last row. -/
theorem concurrent_appends_keep_one_chain (sha256 : Bytes → Octets 32) (db : LogDb)
    (before : List ChainRow) (n : Nat) (hbefore : db.readRows = .ok before)
    (hverified : verifyChain sha256 before = .ok n) (steps : List WriterStep) :
    let s := (Writers.idle db).run sha256 steps
    s.db.readRows = .ok (before ++ s.returned) ∧
      s.returned.map ChainRow.event = s.succeeded ∧
      verifyChain sha256 (before ++ s.returned) = .ok (before ++ s.returned).length ∧
      (s.returned ≠ [] →
        s.db.headHash = some (hexEncode (finalHash (before ++ s.returned)).1)) := by
  intro s
  have hstart : Chained sha256 before (Writers.idle db) := by
    refine ⟨?_, ?_, fun h => absurd rfl h, rfl, fun tx htx => ?_⟩
    · simpa [Writers.returned, Writers.idle] using LogDb.readRows_ok.mp hbefore
    · obtain ⟨-, rfl⟩ := verifyChain_ok_iff.mp hverified
      simpa [Writers.returned, Writers.idle] using hverified
    · cases htx
  have hs := hstart.run steps
  exact ⟨LogDb.readRows_ok.mpr hs.contents, hs.events, hs.verified, hs.head⟩

/-- Two connections: one is rolled back after its insert, one has to wait and then
succeeds, and a third append is refused. -/
def contendedSteps : List WriterStep :=
  [.begin 0 startedEvent, .advance, .begin 1 timeoutEvent, .advance, .fail,
    .begin 1 timeoutEvent, .advance, .advance, .advance, .advance, .refuse 0 startedEvent]

/-- Behind two rows that were there, only the event that was returned is stored. -/
theorem contended_append_is_stored_once :
    let s := (Writers.idle (countLog [startedEvent, timeoutEvent])).run countDigest contendedSteps
    s.succeeded = [timeoutEvent] ∧ s.done.length = 3 ∧
      s.db.readRows = .ok (buildChain countDigest [startedEvent, timeoutEvent, timeoutEvent]) ∧
      s.db.headHash = some (hexEncode (List.replicate 32 3)) := by
  intro s
  have hreturned : s.returned = [⟨timeoutEvent, .replicate 32 2, .replicate 32 3⟩] := by
    decide +kernel
  obtain ⟨hrows, hevents, -, hhead⟩ := concurrent_appends_keep_one_chain countDigest
    (countLog [startedEvent, timeoutEvent]) _ 2 (countLog_rows _) (verifyChain_buildChain _)
    contendedSteps
  refine ⟨?_, by decide +kernel, ?_, ?_⟩
  · rw [← hevents, hreturned]
    rfl
  · rw [hrows, hreturned]
    rfl
  · rw [hhead (by rw [hreturned]; simp), hreturned]
    rfl

end Conveyance.Storage
