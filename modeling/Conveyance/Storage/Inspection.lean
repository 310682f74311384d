import Conveyance.Lib.Transition
import Conveyance.Storage.Connections

/-!
# Verification and repair beside a writer (conveyance-core, storage/logdb.rs)

`verify_with_meta` and `repair_meta` each take two statements: they read the rows, and
then they read or write the recorded head. Between the two nothing is locked. A
single statement is atomic; the one that writes has to wait while a transaction is
open.
-/

namespace Conveyance.Storage

open Lib Crypto

/-- The verdict over verified rows. -/
def LogDb.judge (rows : List ChainRow) (recorded : Option String) : VerifyVerdict :=
  let computed := hexEncode (finalHash rows).1
  match recorded with
  | none => .intact rows.length
  | some recorded =>
    if recorded = computed then .intact rows.length
    else .metaStale recorded computed rows.length

/-- A call that has read the rows. -/
inductive Inspection where
  | verify (rows : List ChainRow)
  | repair (rows : List ChainRow)
deriving DecidableEq

def Inspection.rows : Inspection → List ChainRow
  | .verify rows | .repair rows => rows

inductive Report where
  | verified (result : Except StorageError VerifyVerdict)
  | repaired (result : Except StorageError Unit)
deriving DecidableEq

/-- The file with its writers, and the calls that inspect it. -/
structure Shared where
  writers : Writers
  /-- The calls between their two statements. -/
  inspections : List (Nat × Inspection)
  reports : List Report
deriving DecidableEq

inductive SharedStep where
  | write (step : WriterStep)
  /-- `verify_with_meta` is called and reads the rows. -/
  | verify (call : Nat)
  /-- `repair_meta` is called and reads the rows. -/
  | repair (call : Nat)
  /-- The call's second statement. -/
  | finish (call : Nat)
  /-- That statement fails. -/
  | abort (call : Nat)

namespace Shared

variable (sha256 : Bytes → Octets 32) (s : Shared)

def report (r : Report) : Shared := { s with reports := s.reports ++ [r] }

section

variable (call : Nat)

/-- The call has read the rows. -/
def proceed (i : Inspection) : Shared :=
  { s with inspections := (call, i) :: s.inspections }

/-- The call is over. -/
def leave : Shared :=
  { s with inspections := s.inspections.filter (·.1 ≠ call) }

def inspection : Option Inspection :=
  (s.inspections.find? (·.1 = call)).map Prod.snd

/-- A call id in use is not used again. -/
def startVerify : Shared :=
  if (s.inspection call).isSome then s
  else
    match s.writers.db.readRows with
    | .error e => s.report (.verified (.error e))
    | .ok rows =>
      match verifyChain sha256 rows with
      | .error issue => s.report (.verified (.ok (.chainBroken issue)))
      | .ok _ => s.proceed call (.verify rows)

def startRepair : Shared :=
  if (s.inspection call).isSome then s
  else
    match s.writers.db.readRows with
    | .error e => s.report (.repaired (.error e))
    | .ok rows =>
      match verifyChain sha256 rows with
      | .error _ => s.report (.repaired (.error .db))
      | .ok _ => s.proceed call (.repair rows)

/-- The upsert of `head_hash`, outside any transaction. -/
def recordHead (rows : List ChainRow) : Shared :=
  { s with writers := { s.writers with
    db := { s.writers.db with headHash := some (hexEncode (finalHash rows).1) } } }

def finish : Shared :=
  match s.inspection call with
  | none => s
  | some (.verify rows) =>
    (s.leave call).report
      (.verified (.ok (LogDb.judge rows s.writers.db.headHash)))
  | some (.repair rows) =>
    match s.writers.writer with
    | some _ => s
    | none => ((s.recordHead rows).leave call).report (.repaired (.ok ()))

def abort : Shared :=
  match s.inspection call with
  | none => s
  | some (.verify _) => (s.leave call).report (.verified (.error .db))
  | some (.repair _) => (s.leave call).report (.repaired (.error .db))

end

def step (s : Shared) : SharedStep → Shared
  | .write step => { s with writers := s.writers.step sha256 step }
  | .verify call => s.startVerify sha256 call
  | .repair call => s.startRepair sha256 call
  | .finish call => s.finish call
  | .abort call => s.abort call

def run (s : Shared) (steps : List SharedStep) : Shared := steps.foldl (step sha256) s

/-- A new log. -/
def fresh : Shared := ⟨.idle .empty, [], []⟩

end Shared

section Inspections

variable {sha256 : Bytes → Octets 32}

/-- In one piece, the two statements are `verify_with_meta`. -/
theorem LogDb.verifyWithMeta_judge (db : LogDb) :
    db.verifyWithMeta sha256 = (do
      let rows ← db.readRows
      match verifyChain sha256 rows with
      | .error issue => .ok (.chainBroken issue)
      | .ok _ => .ok (LogDb.judge rows db.headHash)) := by
  unfold LogDb.verifyWithMeta
  congr 1
  funext rows
  cases verifyChain sha256 rows with
  | error issue => rfl
  | ok n =>
    cases hhead : db.headHash with
    | none => rfl
    | some recorded =>
      simp only [LogDb.judge]
      split_ifs <;> rfl

/-! ## Undisturbed calls -/

/-- The transaction has nothing left to do but to commit. -/
def Writers.ready (s : Writers) : Bool :=
  match s.writer with
  | some ⟨_, _, _, .recorded _⟩ => true
  | _ => false

/-- The step is a COMMIT. -/
def SharedStep.commits (s : Shared) : SharedStep → Bool
  | .write .advance => s.writers.ready
  | _ => false

/-- Nobody commits while a call stands between its two statements. -/
def Undisturbed (s : Shared) (a : SharedStep) : Prop := a.commits s = true → s.inspections = []

instance (s : Shared) (a : SharedStep) : Decidable (Undisturbed s a) :=
  inferInstanceAs (Decidable (_ → _))

/-- All calls have completed. -/
def Shared.Quiet (s : Shared) : Prop := s.writers.writer = none ∧ s.inspections = []

/-- Neither stale nor broken. -/
def Report.Benign : Report → Prop
  | .verified (.ok (.intact _)) | .verified (.error _) | .repaired _ => True
  | .verified (.ok _) => False

/-- The recorded head is the hash of the last row, if there is a row. -/
def LogDb.HeadRecorded (db : LogDb) : Prop :=
  ∀ rows, db.readRows = .ok rows → rows ≠ [] → db.headHash = some (hexEncode (finalHash rows).1)

variable (sha256) in
/-- What holds, for the log and for every call on its way, while nobody commits between the
two statements of a call. -/
structure Settled (s : Shared) : Prop where
  chained : Chained sha256 [] s.writers
  /-- Also an empty log may have a head recorded. -/
  head : ∀ recorded, s.writers.db.headHash = some recorded →
    recorded = hexEncode (finalHash s.writers.returned).1
  /-- What a call has read is what is stored. -/
  current : ∀ e ∈ s.inspections, e.2.rows = s.writers.returned
  benign : ∀ r ∈ s.reports, r.Benign

namespace Settled

variable {s : Shared}

variable (h : Settled sha256 s)

include h

theorem readRows : s.writers.db.readRows = .ok s.writers.returned :=
  LogDb.readRows_ok.mpr h.chained.contents

theorem verified : verifyChain sha256 s.writers.returned = .ok s.writers.returned.length :=
  h.chained.verified

theorem report {r : Report} (hr : r.Benign) : Settled sha256 (s.report r) := by
  refine ⟨h.chained, h.head, h.current, fun r' hr' => ?_⟩
  rcases List.mem_append.mp hr' with hold | hnew
  · exact h.benign r' hold
  · rw [List.mem_singleton.mp hnew]
    exact hr

theorem proceed (call : Nat) {i : Inspection}
    (hi : i.rows = s.writers.returned) : Settled sha256 (s.proceed call i) := by
  refine ⟨h.chained, h.head, fun e he => ?_, h.benign⟩
  rcases List.mem_cons.mp he with rfl | he
  · exact hi
  · exact h.current e he

theorem leave (call : Nat) : Settled sha256 (s.leave call) :=
  ⟨h.chained, h.head, fun e he => h.current e (List.mem_of_mem_filter he), h.benign⟩

theorem inspection_rows {call : Nat} {i : Inspection}
    (hi : s.inspection call = some i) : i.rows = s.writers.returned := by
  obtain ⟨e, he, rfl⟩ := Option.map_eq_some_iff.mp hi
  exact h.current e (List.mem_of_find?_eq_some he)

theorem startVerify (call : Nat) : Settled sha256 (s.startVerify sha256 call) := by
  unfold Shared.startVerify
  rw [h.readRows]
  simp only [h.verified]
  split_ifs
  · exact h
  · exact h.proceed call rfl

theorem startRepair (call : Nat) : Settled sha256 (s.startRepair sha256 call) := by
  unfold Shared.startRepair
  rw [h.readRows]
  simp only [h.verified]
  split_ifs
  · exact h
  · exact h.proceed call rfl

/-- Recording the head of the rows there are. -/
theorem recordHead (hfree : s.writers.writer = none) :
    Settled sha256 (s.recordHead s.writers.returned) := by
  refine ⟨⟨h.chained.contents, h.chained.verified, fun _ => rfl, h.chained.events, ?_⟩,
    fun recorded hrecorded => ?_, h.current, h.benign⟩
  · intro tx htx
    rw [show (s.recordHead s.writers.returned).writers.writer = none from hfree] at htx
    cases htx
  · exact (Option.some.inj hrecorded).symm

/-- Over what is stored, the verdict is `Intact`. -/
theorem judge :
    LogDb.judge s.writers.returned s.writers.db.headHash = .intact s.writers.returned.length := by
  unfold LogDb.judge
  cases hhead : s.writers.db.headHash with
  | none => rfl
  | some recorded =>
    dsimp only
    rw [if_pos (h.head recorded hhead)]

theorem finish (call : Nat) : Settled sha256 (s.finish call) := by
  cases hcall : s.inspection call with
  | none =>
    rw [Shared.finish, hcall]
    exact h
  | some i =>
    have hrows := h.inspection_rows hcall
    cases i with
    | verify rows =>
      obtain rfl : rows = s.writers.returned := hrows
      rw [Shared.finish, hcall]
      refine (h.leave call).report ?_
      rw [h.judge]
      trivial
    | repair rows =>
      obtain rfl : rows = s.writers.returned := hrows
      cases hwriter : s.writers.writer with
      | some tx =>
        simp only [Shared.finish, hcall, hwriter]
        exact h
      | none =>
        simp only [Shared.finish, hcall, hwriter]
        exact ((h.recordHead hwriter).leave call).report trivial

theorem abort (call : Nat) : Settled sha256 (s.abort call) := by
  cases hcall : s.inspection call with
  | none =>
    rw [Shared.abort, hcall]
    exact h
  | some i =>
    cases i with
    | verify | repair =>
      rw [Shared.abort, hcall]
      exact (h.leave call).report trivial

/-- A step that leaves what is stored as it was. -/
theorem keep {writers : Writers} (hchained : Chained sha256 [] writers)
    (hdb : writers.db = s.writers.db) (hreturned : writers.returned = s.writers.returned) :
    Settled sha256 { s with writers } := by
  refine ⟨hchained, fun recorded hrecorded => ?_, fun e he => ?_, h.benign⟩
  · have hrecorded : writers.db.headHash = some recorded := hrecorded
    rw [hdb] at hrecorded
    rw [hreturned]
    exact h.head recorded hrecorded
  · exact (h.current e he).trans hreturned.symm

/-- A writer's step: only a COMMIT changes what is stored. -/
theorem write {a : WriterStep} {writers : Writers}
    (hchange : s.writers.Change sha256 a writers) (hundisturbed : Undisturbed s (.write a)) :
    Settled sha256 { s with writers } := by
  have hchained := h.chained.change hchange
  cases hchange with
  | wait | acquire | move => exact h.keep hchained rfl rfl
  | fail conn event e _ => exact h.keep hchained rfl (s.writers.returned_fail _ conn event e)
  | @commit tx row htx hstage =>
    have hreturned : (s.writers.commit tx row).returned ≠ [] := by
      rw [s.writers.returned_commit tx row]
      exact List.append_ne_nil_of_right_ne_nil _ (List.cons_ne_nil _ _)
    refine ⟨hchained, fun recorded hrecorded => ?_, fun e he => ?_, h.benign⟩
    · exact Option.some.inj (hrecorded.symm.trans (hchained.head hreturned))
    · -- nobody stands between two statements
      have hready : s.writers.ready = true := by
        obtain ⟨conn, event, view, stage⟩ := tx
        obtain rfl : stage = .recorded row := hstage
        rw [Writers.ready, htx]
      rw [show s.inspections = [] from hundisturbed hready] at he
      cases he

/-- **One undisturbed step keeps the log settled.** -/
theorem step (a : SharedStep) (hundisturbed : Undisturbed s a) :
    Settled sha256 (s.step sha256 a) := by
  cases a with
  | write a => exact h.write (s.writers.step_change a) hundisturbed
  | verify call => exact h.startVerify call
  | repair call => exact h.startRepair call
  | finish call => exact h.finish call
  | abort call => exact h.abort call

theorem run (steps : List SharedStep) (hundisturbed : Along (.step sha256) Undisturbed s steps) :
    Settled sha256 (s.run sha256 steps) := by
  induction steps generalizing s with
  | nil => exact h
  | cons a steps ih => exact ih (h.step a hundisturbed.1) hundisturbed.2

theorem headRecorded : s.writers.db.HeadRecorded := by
  intro rows hrows hne
  rw [h.readRows] at hrows
  cases hrows
  exact h.chained.head hne

end Settled

theorem settled_fresh : Settled sha256 .fresh := by
  refine ⟨⟨rfl, rfl, fun h => absurd rfl h, rfl, fun tx htx => ?_⟩, fun _ h => ?_, fun _ h => ?_,
    fun _ h => ?_⟩
  · cases htx
  · cases h
  · cases h
  · cases h

end Inspections

/-- What is claimed of a run: no verdict is stale or broken, and the recorded head is
that of the last row when all calls have completed. -/
def Shared.Safe (s : Shared) : Prop :=
  (∀ r ∈ s.reports, r.Benign) ∧ (s.Quiet → s.writers.db.HeadRecorded)

/-- **Verification and repair are safe between commits.** On a log that is only
modified by these calls, in every interleaving in which nobody commits while a
verification or a repair stands between its two statements, no verification finds the
log stale or broken and the recorded head is that of the last row. -/
theorem inspections_safe_between_commits (sha256 : Bytes → Octets 32) (steps : List SharedStep)
    (hundisturbed : Along (Shared.step sha256) Undisturbed Shared.fresh steps) :
    (Shared.fresh.run sha256 steps).Safe := by
  have hsettled := settled_fresh.run steps hundisturbed
  exact ⟨hsettled.benign, fun _ => hsettled.headRecorded⟩

/-- All of an append, from BEGIN to COMMIT. -/
def appendSteps (conn : Nat) (event : LogEvent) : List SharedStep :=
  [.write (.begin conn event), .write .advance, .write .advance, .write .advance, .write .advance]

/-- An append after another one, while a verification has read the rows and a repair
has, too. -/
def disturbedSteps : List SharedStep :=
  appendSteps 0 startedEvent ++ [.verify 0, .repair 1] ++ appendSteps 0 timeoutEvent ++
    [.finish 0, .finish 1]

/-- The healthy log is reported stale, and the repair makes it so. -/
theorem append_between_statements_leaves_stale_head :
    let s := Shared.fresh.run countDigest disturbedSteps
    s.reports = [.verified (.ok (.metaStale (hexEncode (List.replicate 32 2))
        (hexEncode (List.replicate 32 1)) 1)), .repaired (.ok ())] ∧
      s.writers.writer = none ∧
      s.writers.db.headHash = some (hexEncode (List.replicate 32 1)) ∧
      s.writers.returned.map (·.hash.1) = [List.replicate 32 1, List.replicate 32 2] ∧
      ¬ s.Safe := by
  intro s
  have hreports : s.reports = [.verified (.ok (.metaStale (hexEncode (List.replicate 32 2))
      (hexEncode (List.replicate 32 1)) 1)), .repaired (.ok ())] := by
    decide +kernel
  refine ⟨hreports, by decide +kernel, by decide +kernel, by decide +kernel, fun hsafe => ?_⟩
  exact hsafe.1 _ (by rw [hreports]; exact List.mem_cons_self)

/-- The same calls, with the second append after them. -/
def orderlySteps : List SharedStep :=
  appendSteps 0 startedEvent ++ [.verify 0, .repair 1, .finish 0, .finish 1] ++
    appendSteps 0 timeoutEvent

theorem orderly_calls_are_safe :
    let s := Shared.fresh.run countDigest orderlySteps
    s.reports = [.verified (.ok (.intact 1)), .repaired (.ok ())] ∧ s.Safe := by
  intro s
  exact ⟨by decide +kernel,
    inspections_safe_between_commits countDigest orderlySteps (by decide +kernel)⟩

end Conveyance.Storage
