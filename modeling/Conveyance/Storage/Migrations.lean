import Conveyance.Lib.Transition
import Mathlib.Algebra.GroupWithZero.Nat
import Mathlib.Algebra.Order.BigOperators.Group.Finset

/-!
# Schema migrations from many openers (conveyance-core, storage/migrate.rs)

`run_migrations` reads `user_version` once, before any transaction, and then applies
every migration above it, each in an IMMEDIATE transaction of its own together with
the bump of the version. `LogDb::open` and `Pairings::open` run it on every open, so
any number of openers may be at it on one file. What is taken for granted of SQLite:
one opener at a time is between BEGIN and COMMIT, the others wait for it; it works on
a copy of its own, which COMMIT installs whole; a failed statement leaves nothing.

`StandsAt`, with the lock and the list of applied versions, is the invariant `Upgraded`.
`UnappliedAtBegin` decides whether any call fails: `doomed_run`.
-/

namespace Conveyance.Storage

open Lib

/-! ### Scripts -/

/-- A statement of a migration script. -/
inductive Ddl where
  | createTable (name : String)
  | createIndex (name table : String)
deriving DecidableEq

inductive SqlError where
  | alreadyExists (name : String)
  | noSuchTable (table : String)
deriving DecidableEq

def Ddl.name : Ddl → String
  | .createTable name => name
  | .createIndex name _ => name

/-- Tables and indexes share one name space. -/
def Ddl.execute (objects : List String) : Ddl → Except SqlError (List String)
  | .createTable name =>
    if name ∈ objects then .error (.alreadyExists name) else .ok (objects ++ [name])
  | .createIndex name table =>
    if table ∉ objects then .error (.noSuchTable table)
    else if name ∈ objects then .error (.alreadyExists name)
    else .ok (objects ++ [name])

def executeBatch (objects : List String) (script : List Ddl) : Except SqlError (List String) :=
  script.foldlM Ddl.execute objects

variable {objects : List String} {ddl : Ddl}

theorem execute_ok {objects' : List String} (h : ddl.execute objects = .ok objects') :
    ddl.name ∉ objects ∧ objects' = objects ++ [ddl.name] := by
  cases ddl with
  | createTable name =>
    rw [Ddl.execute] at h
    split_ifs at h with hname
    exact ⟨hname, (Except.ok.inj h).symm⟩
  | createIndex name table =>
    rw [Ddl.execute] at h
    split_ifs at h with htable hname
    exact ⟨hname, (Except.ok.inj h).symm⟩

theorem executeBatch_cons (objects : List String) (ddl : Ddl) (script : List Ddl) :
    executeBatch objects (ddl :: script) =
      (ddl.execute objects).bind fun objects => executeBatch objects script := rfl

/-- In a script that runs through, each statement finds what those before it made. -/
theorem execute_inside {before after : List Ddl}
    (h : (executeBatch objects (before ++ ddl :: after)).isOk = true) :
    ddl.execute (objects ++ before.map Ddl.name) =
      .ok (objects ++ before.map Ddl.name ++ [ddl.name]) := by
  induction before generalizing objects with
  | nil =>
    rw [List.nil_append, executeBatch_cons] at h
    rw [List.map_nil, List.append_nil]
    cases heq : ddl.execute objects with
    | error e =>
      rw [heq] at h
      cases h
    | ok objects' => rw [(execute_ok heq).2]
  | cons first before ih =>
    rw [List.cons_append, executeBatch_cons] at h
    cases heq : first.execute objects with
    | error e =>
      rw [heq] at h
      cases h
    | ok objects' =>
      rw [heq] at h
      have hrest := ih h
      rwa [(execute_ok heq).2, List.append_assoc, List.append_assoc,
        List.singleton_append, ← List.append_assoc, ← List.map_cons] at hrest

structure Database where
  objects : List String
  userVersion : Nat
deriving DecidableEq

/-- Named scripts, in the order they are applied in: none is empty, and together they
run through on an empty file. -/
structure Migrations where
  list : List (String × List Ddl)
  nonempty : ∀ migration ∈ list, migration.2 ≠ []
  runs : (executeBatch [] (list.flatMap (·.2))).isOk = true

namespace Migrations

variable (m : Migrations)

/-- What the first `version` scripts make. -/
def upTo (version : Nat) : List String := ((m.list.take version).flatMap (·.2)).map Ddl.name

def schema (version : Nat) : Database := ⟨m.upTo version, version⟩

def latest : Nat := m.list.length

variable {m} {version index : Nat} {name : String} {script done rest : List Ddl} {ddl : Ddl}

theorem lt_latest (h : m.list[version]? = some (name, script)) : version < m.latest :=
  (List.getElem?_eq_some_iff.mp h).1

theorem upTo_succ (h : m.list[version]? = some (name, script)) :
    m.upTo (version + 1) = m.upTo version ++ script.map Ddl.name := by
  show ((m.list.take (version + 1)).flatMap (·.2)).map Ddl.name = _
  rw [List.take_add_one, h, List.flatMap_append, List.map_append]
  show m.upTo version ++ (script ++ []).map Ddl.name = _
  rw [List.append_nil]

/-- The statements of the next script find nothing of it there. -/
theorem execute_next (h : m.list[version]? = some (name, done ++ ddl :: rest)) :
    ddl.execute (m.upTo version ++ done.map Ddl.name) =
      .ok (m.upTo version ++ done.map Ddl.name ++ [ddl.name]) := by
  obtain ⟨hlt, hget⟩ := List.getElem?_eq_some_iff.mp h
  have hsplit : m.list.flatMap (·.2) =
      ((m.list.take version).flatMap (·.2) ++ done) ++
        ddl :: (rest ++ (m.list.drop (version + 1)).flatMap (·.2)) := by
    conv_lhs => rw [← List.take_append_drop version m.list, List.drop_eq_getElem_cons hlt, hget]
    simp
  have hruns := m.runs
  rw [hsplit] at hruns
  have hinside := execute_inside hruns
  rwa [List.map_append, List.nil_append] at hinside

/-- The place in a script, one statement further. -/
theorem moved (h : m.list[version]? = some (name, done ++ ddl :: rest)) :
    m.list[version]? = some (name, (done ++ [ddl]) ++ rest) := by
  rwa [List.append_assoc]

/-- The first statement of a script that was applied makes what is there. -/
theorem mem_upTo (h : m.list[index]? = some (name, ddl :: rest)) (hlt : index < version) :
    ddl.name ∈ m.upTo version := by
  have hmem : (name, ddl :: rest) ∈ m.list.take version := by
    refine List.mem_of_getElem? (i := index) ?_
    rw [List.getElem?_take, if_pos hlt, h]
  refine List.mem_map.mpr ⟨ddl, ?_, rfl⟩
  exact List.mem_flatMap.mpr ⟨_, hmem, List.mem_cons_self⟩

end Migrations

inductive DbKind where
  | executions
  | pairings
deriving DecidableEq

def migrations : DbKind → Migrations
  | .executions =>
    { list := [
        ("entries table + indexes",
          [.createTable "entries", .createIndex "idx_req_id" "entries",
            .createIndex "idx_timestamp" "entries"]),
        ("chain_meta table", [.createTable "chain_meta"])]
      nonempty := by decide
      runs := by decide }
  | .pairings =>
    { list := [("pairings table", [.createTable "pairings"])]
      nonempty := by decide
      runs := by decide }

/-! ### Openers -/

structure MigrationFailed where
  name : String
  source : SqlError
deriving DecidableEq

/-- How far a call of `run_migrations` has come. -/
inductive OpenPhase where
  | reading
  /-- At the head of the loop, with the version it read. -/
  | scanning (current index : Nat)
  /-- In the transaction, with the statements of the script that are left. -/
  | running (current index : Nat) (name : String) (view : Database) (left : List Ddl)
  /-- The version is written, COMMIT comes next. -/
  | bumped (current index : Nat) (view : Database)
  | returned (result : Except MigrationFailed Unit)
deriving DecidableEq

def OpenPhase.inTransaction : OpenPhase → Bool
  | .running .. | .bumped .. => true
  | _ => false

/-- The file and its openers: what is committed, who writes, where each call is, and
which versions were committed so far. -/
structure Openers (n : Nat) where
  db : Database
  writer : Option (Fin n)
  phase : Fin n → OpenPhase
  applied : List Nat

namespace Openers

variable {n : Nat}

def enter (s : Openers n) (i : Fin n) (p : OpenPhase) : Openers n :=
  { s with phase := Function.update s.phase i p }

/-- The next statement of one opener. -/
def step (m : Migrations) (s : Openers n) (i : Fin n) : Openers n :=
  match s.phase i with
  | .reading => s.enter i (.scanning s.db.userVersion 0)
  | .scanning current index =>
    match m.list[index]? with
    | none => s.enter i (.returned (.ok ()))
    | some (name, script) =>
      if current ≥ index + 1 then s.enter i (.scanning current (index + 1))
      else
        match s.writer with
        -- BEGIN IMMEDIATE waits while another opener writes
        | some _ => s
        | none => { s.enter i (.running current index name s.db script) with writer := some i }
  | .running current index name view (ddl :: left) =>
    match ddl.execute view.objects with
    | .error e => { s.enter i (.returned (.error ⟨name, e⟩)) with writer := none }
    | .ok objects => s.enter i (.running current index name { view with objects } left)
  | .running current index _ view [] =>
    s.enter i (.bumped current index { view with userVersion := index + 1 })
  | .bumped current index view =>
    { s.enter i (.scanning current (index + 1)) with
      db := view, writer := none, applied := s.applied ++ [view.userVersion] }
  | .returned _ => s

def run (m : Migrations) (s : Openers n) (order : List (Fin n)) : Openers n :=
  order.foldl (step m) s

/-- Openers that have all just opened the file. -/
def opening (n : Nat) (db : Database) : Openers n := ⟨db, none, fun _ => .reading, []⟩

def AllReturned (s : Openers n) : Prop := ∀ i, ∃ result, s.phase i = .returned result

/-- Every call returned `Ok`, every migration above `version` was applied once and in
order, and the file is at the latest version. -/
def Succeeded (m : Migrations) (version : Nat) (s : Openers n) : Prop :=
  (∀ i, s.phase i = .returned (.ok ())) ∧
    s.applied = List.range' (version + 1) (m.latest - version) ∧ s.db = m.schema m.latest

/-- A BEGIN that finds the lock free finds the migration it is for not applied yet. -/
def UnappliedAtBegin (m : Migrations) (s : Openers n) (i : Fin n) : Prop :=
  ∀ current index, s.phase i = .scanning current index → index < m.latest →
    current < index + 1 → s.writer = none → s.db.userVersion < index + 1

instance (m : Migrations) (s : Openers n) (i : Fin n) : Decidable (s.UnappliedAtBegin m i) :=
  let check : Bool :=
    match s.phase i with
    | .scanning current index =>
      decide (index < m.latest → current < index + 1 → s.writer = none →
        s.db.userVersion < index + 1)
    | _ => true
  decidable_of_iff (check = true) (by
    simp only [check, UnappliedAtBegin]
    cases s.phase i with
    | scanning current index =>
      rw [decide_eq_true_eq]
      constructor
      · rintro h _ _ ⟨rfl, rfl⟩
        exact h
      · exact fun h => h current index rfl
    | _ => simp)

section Steps

variable {m : Migrations} {s s' : Openers n} {i j : Fin n}

@[simp] theorem enter_phase_self (p : OpenPhase) : (s.enter i p).phase i = p :=
  Function.update_self ..

theorem enter_phase_of_ne (p : OpenPhase) (h : j ≠ i) : (s.enter i p).phase j = s.phase j :=
  Function.update_of_ne h ..

/-- The statements of an opener. -/
inductive Moves (m : Migrations) (s : Openers n) (i : Fin n) : Openers n → Prop where
  | reads (h : s.phase i = .reading) : Moves m s i (s.enter i (.scanning s.db.userVersion 0))
  | ends {current index : Nat} (h : s.phase i = .scanning current index)
    (hend : m.latest ≤ index) : Moves m s i (s.enter i (.returned (.ok ())))
  | skips {current index : Nat} (h : s.phase i = .scanning current index)
    (hlt : index < m.latest) (hskip : index + 1 ≤ current) :
    Moves m s i (s.enter i (.scanning current (index + 1)))
  | begins {current index : Nat} {name : String} {script : List Ddl}
    (h : s.phase i = .scanning current index) (hget : m.list[index]? = some (name, script))
    (hnew : current < index + 1) (hfree : s.writer = none) :
    Moves m s i { s.enter i (.running current index name s.db script) with writer := some i }
  | fails {current index : Nat} {name : String} {view : Database} {ddl : Ddl} {left : List Ddl}
    {e : SqlError} (h : s.phase i = .running current index name view (ddl :: left))
    (herror : ddl.execute view.objects = .error e) :
    Moves m s i { s.enter i (.returned (.error ⟨name, e⟩)) with writer := none }
  | executes {current index : Nat} {name : String} {view : Database} {ddl : Ddl} {left : List Ddl}
    {objects : List String} (h : s.phase i = .running current index name view (ddl :: left))
    (hok : ddl.execute view.objects = .ok objects) :
    Moves m s i (s.enter i (.running current index name { view with objects } left))
  | bumps {current index : Nat} {name : String} {view : Database}
    (h : s.phase i = .running current index name view []) :
    Moves m s i (s.enter i (.bumped current index { view with userVersion := index + 1 }))
  | commits {current index : Nat} {view : Database} (h : s.phase i = .bumped current index view) :
    Moves m s i { s.enter i (.scanning current (index + 1)) with
      db := view, writer := none, applied := s.applied ++ [view.userVersion] }
  | waits {j : Fin n} (hout : (s.phase i).inTransaction = false) (hlock : s.writer = some j) :
    Moves m s i s
  | rests {result : Except MigrationFailed Unit} (h : s.phase i = .returned result) : Moves m s i s

theorem step_moves (m : Migrations) (s : Openers n) (i : Fin n) : Moves m s i (s.step m i) := by
  unfold step
  cases hphase : s.phase i with
  | reading => exact .reads hphase
  | scanning current index =>
    dsimp only
    cases hget : m.list[index]? with
    | none => exact .ends hphase (List.getElem?_eq_none_iff.mp hget)
    | some migration =>
      dsimp only
      split_ifs with hskip
      · exact .skips hphase (List.getElem?_eq_some_iff.mp hget).1 hskip
      · cases hlock : s.writer with
        | none => exact .begins hphase hget (Nat.not_le.mp hskip) hlock
        | some j => exact .waits (by rw [hphase]; rfl) hlock
  | running current index name view left =>
    cases left with
    | nil => exact .bumps hphase
    | cons ddl left =>
      dsimp only
      cases hexecute : ddl.execute view.objects with
      | error e => exact .fails hphase hexecute
      | ok objects => exact .executes hphase hexecute
  | bumped current index view => exact .commits hphase
  | returned result => exact .rests hphase

/-- A statement of one opener moves no other. -/
theorem Moves.phase_of_ne (h : Moves m s i s') (hj : j ≠ i) : s'.phase j = s.phase j := by
  cases h with
  | waits | rests => rfl
  | _ => exact enter_phase_of_ne _ hj

end Steps

end Openers

/-! ### Where an opener can stand -/

/-- The places of an opener on a file that stands at `version`. -/
inductive StandsAt (m : Migrations) (version : Nat) : OpenPhase → Prop where
  | reading : StandsAt m version .reading
  | scanning {current index : Nat} (hcurrent : current ≤ version) (hindex : index ≤ version) :
    StandsAt m version (.scanning current index)
  /-- It applies the next migration. -/
  | fresh {current : Nat} {name : String} {done left : List Ddl} (hcurrent : current ≤ version)
    (hscript : m.list[version]? = some (name, done ++ left)) :
    StandsAt m version
      (.running current version name ⟨m.upTo version ++ done.map Ddl.name, version⟩ left)
  /-- It applies one that another opener has applied since it read the version. -/
  | stale {current index : Nat} {name : String} {ddl : Ddl} {left : List Ddl}
    (hmade : ddl.name ∈ m.upTo version) :
    StandsAt m version (.running current index name (m.schema version) (ddl :: left))
  | bumped {current : Nat} (hcurrent : current ≤ version) (hlt : version < m.latest) :
    StandsAt m version (.bumped current version (m.schema (version + 1)))
  | succeeded (hlatest : m.latest ≤ version) : StandsAt m version (.returned (.ok ()))
  | failed (e : MigrationFailed) : StandsAt m version (.returned (.error e))

/-- Outside a transaction an opener may see the file move on. -/
theorem StandsAt.mono {m : Migrations} {version version' : Nat} {p : OpenPhase}
    (h : StandsAt m version p) (hout : p.inTransaction = false) (hle : version ≤ version') :
    StandsAt m version' p := by
  cases h with
  | reading => exact .reading
  | scanning hcurrent hindex => exact .scanning (hcurrent.trans hle) (hindex.trans hle)
  | fresh | stale | bumped => cases hout
  | succeeded hlatest => exact .succeeded (hlatest.trans hle)
  | failed e => exact .failed e

/-- What the openers of a file that stood at `first` keep. -/
structure Upgraded (m : Migrations) (first : Nat) {n : Nat} (s : Openers n) : Prop where
  schema : s.db = m.schema s.db.userVersion
  first_le : first ≤ s.db.userVersion
  le_latest : s.db.userVersion ≤ m.latest
  applied : s.applied = List.range' (first + 1) (s.db.userVersion - first)
  fits : ∀ i, StandsAt m s.db.userVersion (s.phase i)
  locked : ∀ i, (s.phase i).inTransaction = true ↔ s.writer = some i

namespace Upgraded

variable {m : Migrations} {first n : Nat} {s s' : Openers n} {i j : Fin n}

theorem opening (m : Migrations) (hfirst : first ≤ m.latest) :
    Upgraded m first (.opening n (m.schema first)) where
  schema := rfl
  first_le := Nat.le_refl first
  le_latest := hfirst
  applied := by
    show [] = List.range' (first + 1) (first - first)
    rw [Nat.sub_self]
    rfl
  fits := fun _ => .reading
  locked := fun i => iff_of_false Bool.false_ne_true (Option.some_ne_none i).symm

section

variable (hs : Upgraded m first s)

include hs

/-- An opener that changes its place under a lock that changes with it. -/
theorem move {p : OpenPhase} {writer : Option (Fin n)}
    (hfits : StandsAt m s.db.userVersion p) (hself : p.inTransaction = true ↔ writer = some i)
    (hothers : ∀ j, j ≠ i → (s.writer = some j ↔ writer = some j)) :
    Upgraded m first { s.enter i p with writer } :=
  { hs with
    fits := (Function.forall_update_iff s.phase _).mpr ⟨hfits, fun j _ => hs.fits j⟩
    locked := (Function.forall_update_iff s.phase fun _ p => p.inTransaction = true ↔ _).mpr
      ⟨hself, fun j hj => (hs.locked j).trans (hothers j hj)⟩ }

/-- The lock stays where it is. -/
theorem enter {p : OpenPhase} (hfits : StandsAt m s.db.userVersion p)
    (hsame : p.inTransaction = (s.phase i).inTransaction) : Upgraded m first (s.enter i p) := by
  exact hs.move hfits (hsame ▸ hs.locked i) fun _ _ => Iff.rfl

theorem holds_lock (h : (s.phase i).inTransaction = true) : s.writer = some i :=
  (hs.locked i).mp h

/-- Nobody else is in a transaction. -/
theorem others_out (h : (s.phase i).inTransaction = true)
    (hj : j ≠ i) : (s.phase j).inTransaction = false := by
  rw [← Bool.not_eq_true, hs.locked j, hs.holds_lock h]
  intro heq
  exact hj (Option.some.inj heq).symm

theorem commit {current : Nat}
    (hin : (s.phase i).inTransaction = true) (hcurrent : current ≤ s.db.userVersion)
    (hlt : s.db.userVersion < m.latest) :
    Upgraded m first { s.enter i (.scanning current (s.db.userVersion + 1)) with
      db := m.schema (s.db.userVersion + 1)
      writer := none
      applied := s.applied ++ [s.db.userVersion + 1] } := by
  refine ⟨rfl, hs.first_le.trans (Nat.le_succ _), hlt, ?_, fun j => ?_, fun j => ?_⟩
  · show s.applied ++ [s.db.userVersion + 1] =
      List.range' (first + 1) (s.db.userVersion + 1 - first)
    have hle := hs.first_le
    rw [hs.applied, Nat.succ_sub hle, List.range'_concat]
    congr 2
    omega
  · exact (Function.forall_update_iff s.phase fun _ => StandsAt m (s.db.userVersion + 1)).mpr
      ⟨.scanning (hcurrent.trans (Nat.le_succ _)) (Nat.le_refl _),
        fun j hj => (hs.fits j).mono (hs.others_out hin hj) (Nat.le_succ _)⟩ j
  · refine iff_of_false (Bool.eq_false_iff.mp ?_) (Option.some_ne_none j).symm
    exact (Function.forall_update_iff s.phase fun _ p => p.inTransaction = false).mpr
      ⟨rfl, fun j hj => hs.others_out hin hj⟩ j

/-- A transaction that ends without a COMMIT leaves only its result. -/
theorem fail (h : (s.phase i).inTransaction = true) (e : MigrationFailed) :
    Upgraded m first { s.enter i (.returned (.error e)) with writer := none } := by
  refine hs.move (.failed e) (by simp [OpenPhase.inTransaction]) fun j hj => ?_
  simp [hs.holds_lock h, hj.symm]

/-- BEGIN, on a lock that is free. -/
theorem begin {p : OpenPhase} (hfits : StandsAt m s.db.userVersion p)
    (hin : p.inTransaction = true) (hfree : s.writer = none) :
    Upgraded m first { s.enter i p with writer := some i } := by
  refine hs.move hfits ⟨fun _ => rfl, fun _ => hin⟩ fun j hj => ?_
  simp [hfree, hj.symm]

/-- What a BEGIN that finds the lock free leads to. -/
theorem fits_begin {current index : Nat} {name : String}
    {script : List Ddl} (hcurrent : current ≤ s.db.userVersion) (hindex : index ≤ s.db.userVersion)
    (hsome : m.list[index]? = some (name, script)) :
    StandsAt m s.db.userVersion (.running current index name s.db script) := by
  by_cases heq : index = s.db.userVersion
  · subst heq
    have hfresh := @StandsAt.fresh m _ current name [] script hcurrent hsome
    rw [List.map_nil, List.append_nil] at hfresh
    rw [hs.schema]
    exact hfresh
  · cases script with
    | nil => exact absurd rfl (m.nonempty _ (List.mem_of_getElem? hsome))
    | cons ddl left =>
      have hmade := Migrations.mem_upTo hsome (Nat.lt_of_le_of_ne hindex heq)
      rw [hs.schema]
      exact .stale hmade

end

/-- A transaction has its script one statement further. -/
theorem fits_execute {current version : Nat} {name : String} {done left : List Ddl}
    (hcurrent : current ≤ version) (hscript : m.list[version]? = some (name, done ++ ddl :: left)) :
    StandsAt m version (.running current version name
      ⟨m.upTo version ++ done.map Ddl.name ++ [ddl.name], version⟩ left) := by
  have hfresh : StandsAt m version (.running current version name
      ⟨m.upTo version ++ (done ++ [ddl]).map Ddl.name, version⟩ left) :=
    .fresh hcurrent (Migrations.moved hscript)
  rwa [List.map_append, ← List.append_assoc] at hfresh

theorem moves (hs : Upgraded m first s) (h : Openers.Moves m s i s') : Upgraded m first s' := by
  have hfits := hs.fits i
  cases h with
  | reads h => exact hs.enter (.scanning (Nat.le_refl _) (Nat.zero_le _)) (by rw [h]; rfl)
  | ends h hend =>
    rw [h] at hfits
    cases hfits with
    | scanning _ hindex => exact hs.enter (.succeeded (hend.trans hindex)) (by rw [h]; rfl)
  | skips h _ hskip =>
    rw [h] at hfits
    cases hfits with
    | scanning hcurrent _ =>
      exact hs.enter (.scanning hcurrent (hskip.trans hcurrent)) (by rw [h]; rfl)
  | begins h hget _ hfree =>
    rw [h] at hfits
    cases hfits with
    | scanning hcurrent hindex => exact hs.begin (hs.fits_begin hcurrent hindex hget) rfl hfree
  | fails h => exact hs.fail (by rw [h]; rfl) _
  | executes h hok =>
    rw [h] at hfits
    cases hfits with
    | fresh hcurrent hscript =>
      rw [Migrations.execute_next hscript] at hok
      obtain rfl := Except.ok.inj hok
      exact hs.enter (fits_execute hcurrent hscript) (by rw [h]; rfl)
    | stale hmade => exact absurd hmade (execute_ok hok).1
  | bumps h =>
    rw [h] at hfits
    cases hfits with
    | fresh hcurrent hscript =>
      rw [List.append_nil] at hscript
      refine hs.enter ?_ (by rw [h]; rfl)
      rw [← Migrations.upTo_succ hscript]
      exact .bumped hcurrent (Migrations.lt_latest hscript)
  | commits h =>
    have hin : (s.phase i).inTransaction = true := by
      rw [h]
      rfl
    rw [h] at hfits
    cases hfits with
    | bumped hcurrent hlt => exact hs.commit hin hcurrent hlt
  | waits | rests => exact hs

theorem run (hs : Upgraded m first s) (order : List (Fin n)) : Upgraded m first (s.run m order) :=
  List.foldlRecOn order (Openers.step m) hs fun s h i _ => h.moves (Openers.step_moves m s i)

end Upgraded

/-! ### Calls that fail -/

/-- The call has failed, or its next statement makes an object that is there. -/
def OpenPhase.doomed : OpenPhase → Prop
  | .running _ _ _ view (ddl :: _) => ddl.name ∈ view.objects
  | .returned (.error _) => True
  | _ => False

namespace Upgraded

variable {m : Migrations} {first n : Nat} {s s' : Openers n} {i j : Fin n}

theorem fresh_not_doomed {version : Nat} {name : String} {left : List Ddl} (current : Nat)
    (done : List Ddl) (hscript : m.list[version]? = some (name, done ++ left)) :
    ¬ (OpenPhase.running current version name
      ⟨m.upTo version ++ done.map Ddl.name, version⟩ left).doomed := by
  cases left with
  | nil => exact id
  | cons ddl left => exact (execute_ok (Migrations.execute_next hscript)).1

variable (hs : Upgraded m first s)

include hs

/-- What dooms a call: a BEGIN for a migration that was applied meanwhile. -/
theorem doomed_self (h : Openers.Moves m s i s') :
    (s'.phase i).doomed ↔ (s.phase i).doomed ∨ ¬ s.UnappliedAtBegin m i := by
  have hfits := hs.fits i
  cases h with
  | reads h | bumps h | commits h => simp [OpenPhase.doomed, Openers.UnappliedAtBegin, h]
  | ends h hend | skips h _ hend =>
    have hbegin : s.UnappliedAtBegin m i := by
      intro current index hphase hlt hnew _
      cases h.symm.trans hphase
      omega
    simp [OpenPhase.doomed, h, hbegin]
  | fails h herror =>
    rw [h] at hfits ⊢
    cases hfits with
    | fresh _ hscript => cases (Migrations.execute_next hscript).symm.trans herror
    | stale hmade => simp [OpenPhase.doomed, hmade, Migrations.schema]
  | @executes current index name view ddl left objects h hok =>
    rw [h] at hfits
    cases hfits with
    | @fresh _ _ done _ _ hscript =>
      have hexecute := Migrations.execute_next hscript
      obtain rfl := Except.ok.inj (hexecute.symm.trans hok)
      have hnew := fresh_not_doomed current (done ++ [ddl]) (Migrations.moved hscript)
      rw [List.map_append, ← List.append_assoc] at hnew
      simpa [OpenPhase.doomed, Openers.UnappliedAtBegin, h, (execute_ok hexecute).1] using hnew
    | stale hmade => exact absurd hmade (execute_ok hok).1
  | @begins current index name script h hget hnew hfree =>
    have hbegin : s.UnappliedAtBegin m i ↔ s.db.userVersion < index + 1 := by
      constructor
      · exact fun hall => hall current index h (Migrations.lt_latest hget) hnew hfree
      · intro hlt _ _ hphase _ _ _
        cases h.symm.trans hphase
        exact hlt
    rw [h] at hfits
    cases hfits with
    | scanning _ hindex =>
      simp only [hbegin, h, Openers.enter_phase_self]
      rcases hindex.lt_or_eq with hlt | rfl
      · -- the first statement makes what is there
        refine iff_of_true ?_ (.inr (Nat.not_lt.mpr hlt))
        cases script with
        | nil => exact absurd rfl (m.nonempty _ (List.mem_of_getElem? hget))
        | cons ddl left =>
          rw [hs.schema]
          exact Migrations.mem_upTo hget hlt
      · have hnew := fresh_not_doomed current [] hget
        rw [List.map_nil, List.append_nil] at hnew
        rw [hs.schema]
        exact iff_of_false hnew (by simp [OpenPhase.doomed])
  | waits _ hlock | rests hlock => simp [Openers.UnappliedAtBegin, hlock]

theorem doomed_moves (h : Openers.Moves m s i s') :
    (∃ j, (s'.phase j).doomed) ↔ (∃ j, (s.phase j).doomed) ∨ ¬ s.UnappliedAtBegin m i := by
  have hself := hs.doomed_self h
  constructor
  · rintro ⟨j, hj⟩
    by_cases heq : j = i
    · subst heq
      exact (hself.mp hj).imp_left fun hbefore => ⟨j, hbefore⟩
    · exact .inl ⟨j, h.phase_of_ne heq ▸ hj⟩
  · rintro (⟨j, hj⟩ | hbegin)
    · by_cases heq : j = i
      · subst heq
        exact ⟨j, hself.mpr (.inl hj)⟩
      · exact ⟨j, (h.phase_of_ne heq).symm ▸ hj⟩
    · exact ⟨i, hself.mpr (.inr hbegin)⟩

/-- A call is doomed at the end of a run exactly when one was before it, or one began a
migration that was applied meanwhile. -/
theorem doomed_run (order : List (Fin n)) :
    (∃ j, ((s.run m order).phase j).doomed) ↔
      (∃ j, (s.phase j).doomed) ∨ ¬ Along (.step m) (Openers.UnappliedAtBegin m) s order := by
  induction order generalizing s with
  | nil => exact (or_iff_left (not_not.mpr trivial)).symm
  | cons i order ih =>
    have hmoves := Openers.step_moves m s i
    refine (ih (hs.moves hmoves)).trans ?_
    rw [hs.doomed_moves hmoves, Along, not_and_or, or_assoc]

/-- Once all calls have returned, they were a success if none is doomed. -/
theorem succeeded_iff (hdone : s.AllReturned) (i : Fin n) :
    s.Succeeded m first ↔ ¬ ∃ j, (s.phase j).doomed := by
  constructor
  · rintro ⟨hok, -, -⟩ ⟨j, hj⟩
    rw [hok j] at hj
    exact hj
  · intro hnone
    have hok : ∀ j, s.phase j = .returned (.ok ()) := by
      intro j
      obtain ⟨result, hresult⟩ := hdone j
      cases result with
      | error e => exact absurd ⟨j, by rw [hresult]; trivial⟩ hnone
      | ok => exact hresult
    have hlatest : s.db.userVersion = m.latest := by
      have hfits := hs.fits i
      rw [hok i] at hfits
      cases hfits with
      | succeeded hle => exact Nat.le_antisymm hs.le_latest hle
    exact ⟨hok, hlatest ▸ hs.applied, hlatest ▸ hs.schema⟩

end Upgraded

/-! ### Every call returns -/

/-- The statements from a place in the list on, if none is skipped. -/
def Migrations.scans (m : Migrations) (index : Nat) : Nat :=
  ((m.list.drop index).map (·.2.length + 3)).sum + 1

theorem Migrations.scans_eq {m : Migrations} {index : Nat} (h : index < m.latest) :
    m.scans index = m.list[index].2.length + 3 + m.scans (index + 1) := by
  rw [scans, List.drop_eq_getElem_cons h, List.map_cons, List.sum_cons, Nat.add_assoc]
  rfl

/-- The statements that are left of a call. -/
def OpenPhase.left (m : Migrations) : OpenPhase → Nat
  | .reading => m.scans 0 + 1
  | .scanning _ index => m.scans index
  | .running _ index _ _ left => m.scans (index + 1) + 2 + left.length
  | .bumped _ index _ => m.scans (index + 1) + 1
  | .returned _ => 0

namespace Upgraded

variable {m : Migrations} {first n : Nat} {s s' : Openers n} {i : Fin n}

/-- An opener that is not through and that nobody keeps from the lock gets on. -/
theorem left_lt (hs : Upgraded m first s) (h : Openers.Moves m s i s')
    (hlock : ∀ j, s.writer = some j → j = i) (hopen : ∀ result, s.phase i ≠ .returned result) :
    (s'.phase i).left m < (s.phase i).left m := by
  cases h with
  | reads h | ends h | fails h | executes h | bumps h | commits h =>
    simp only [OpenPhase.left, h, Openers.enter_phase_self, Migrations.scans, List.length_cons]
    omega
  | skips h hlt =>
    simp only [OpenPhase.left, h, Openers.enter_phase_self]
    rw [Migrations.scans_eq hlt]
    omega
  | begins h hget =>
    obtain ⟨hlt, hscript⟩ := List.getElem?_eq_some_iff.mp hget
    simp only [OpenPhase.left, h, Openers.enter_phase_self]
    rw [Migrations.scans_eq hlt, hscript]
    dsimp only
    omega
  | waits hout hwriter =>
    obtain rfl := hlock _ hwriter
    rw [(hs.locked _).mpr hwriter] at hout
    cases hout
  | rests h => exact absurd h (hopen _)

/-- From wherever the openers stand, all of them can return. -/
theorem can_return (hs : Upgraded m first s) : ∃ more, (s.run m more).AllReturned := by
  induction hleft : ∑ i, (s.phase i).left m using Nat.strong_induction_on generalizing s with
  | _ left ih =>
    by_cases hall : s.AllReturned
    · exact ⟨[], hall⟩
    -- the one that writes goes on, or anyone who is not through
    obtain ⟨i, hlock, hopen⟩ : ∃ i, (∀ j, s.writer = some j → j = i) ∧
        ∀ result, s.phase i ≠ .returned result := by
      cases hwriter : s.writer with
      | some j =>
        refine ⟨j, fun _ heq => (Option.some.inj heq).symm, fun result hphase => ?_⟩
        have hin := (hs.locked j).mpr hwriter
        rw [hphase] at hin
        cases hin
      | none =>
        simp only [Openers.AllReturned, not_forall, not_exists] at hall
        obtain ⟨i, hopen⟩ := hall
        exact ⟨i, by simp, hopen⟩
    have hmoves := Openers.step_moves m s i
    have hless : ∑ j, ((s.step m i).phase j).left m < left := by
      rw [← hleft]
      refine Finset.sum_lt_sum (fun j _ => ?_)
        ⟨i, Finset.mem_univ i, hs.left_lt hmoves hlock hopen⟩
      by_cases hj : j = i
      · subst hj
        exact (hs.left_lt hmoves hlock hopen).le
      · rw [hmoves.phase_of_ne hj]
    obtain ⟨more, hmore⟩ := ih _ hless (hs.moves hmoves) rfl
    exact ⟨i :: more, hmore⟩

end Upgraded

/-- Openers of one file, in any order of their statements: they can always all return,
and once they have, they were a success exactly if no BEGIN came after another opener
had applied the migration it was for. -/
theorem opens_succeed_iff_unapplied (kind : DbKind) (n version : Nat)
    (hversion : version ≤ (migrations kind).latest) (order : List (Fin (n + 1))) :
    let start := Openers.opening (n + 1) ((migrations kind).schema version)
    let finish := start.run (migrations kind) order
    (∃ more, (finish.run (migrations kind) more).AllReturned) ∧
      (finish.AllReturned →
        (finish.Succeeded (migrations kind) version ↔
          Along (Openers.step (migrations kind)) (Openers.UnappliedAtBegin (migrations kind))
            start order)) := by
  intro start finish
  have hstart : Upgraded (migrations kind) version start := .opening _ hversion
  have hfinish : Upgraded (migrations kind) version finish := hstart.run order
  refine ⟨hfinish.can_return, ?_⟩
  intro hdone
  have hnone : ¬ ∃ j, (start.phase j).doomed := by
    rintro ⟨j, hj⟩
    exact hj
  rw [hfinish.succeeded_iff hdone 0, hstart.doomed_run order, or_iff_right hnone, not_not]

/-- Two openers of an empty file, one after the other. -/
theorem opens_succeed_in_turn :
    let order := List.replicate 15 (0 : Fin 2) ++ List.replicate 4 1
    ((Openers.opening 2 ((migrations .executions).schema 0)).run
      (migrations .executions) order).Succeeded (migrations .executions) 0 := by
  intro order
  refine ((opens_succeed_iff_unapplied .executions 1 0 (by decide) order).2 ?_).mpr ?_
  · exact Fin.forall_fin_two.mpr ⟨⟨.ok (), rfl⟩, ⟨.ok (), rfl⟩⟩
  · decide +kernel

/-- Two openers that both read the version of an empty file: the second finds the table
there that it is about to make, and its open fails. -/
theorem second_open_fails :
    let order := [(0 : Fin 2), 1] ++ List.replicate 14 0 ++ List.replicate 2 1
    let finish := (Openers.opening 2 ((migrations .executions).schema 0)).run
      (migrations .executions) order
    finish.AllReturned ∧
      finish.phase 1 =
        .returned (.error ⟨"entries table + indexes", .alreadyExists "entries"⟩) ∧
      ¬ finish.Succeeded (migrations .executions) 0 := by
  intro order finish
  have hfailed : finish.phase 1 =
      .returned (.error ⟨"entries table + indexes", .alreadyExists "entries"⟩) := rfl
  refine ⟨Fin.forall_fin_two.mpr ⟨⟨.ok (), rfl⟩, ⟨_, hfailed⟩⟩, hfailed, ?_⟩
  rintro ⟨hok, -, -⟩
  have hsecond := hok 1
  rw [hfailed] at hsecond
  cases hsecond

end Conveyance.Storage
