import Mathlib.Data.List.Nodup
import Conveyance.Phone.IdentityContainer

/-!
# The credential database

The model of `CredentialEntity.kt`, `CredentialWrapMigrationEntity.kt` and the part
of `CredentialDao.kt` that the wrap migration uses: the table of credentials, keyed
by service, and the one-row table of the migration journal. Every statement here is
one SQL statement, and so atomic; `CredentialDatabase.promote` is the body of the
transaction of `CredentialWrapMigrator.promoteUnlocked`.
-/

namespace Conveyance.Phone

open Lib

structure CredentialEntity where
  service : String
  secretCiphertext : Bytes
  wrappedDek : Bytes
  createdAt : Int
  dekWrapVersion : Int
  pendingWrappedDek : Option Bytes
  pendingMigrationId : Option String
deriving DecidableEq

def legacyDekWrapVersion : Int := 1
def vaultDekWrapVersion : Int := 2

/-- `CredentialWrapMigrationEntity`, the journal of a migration. -/
structure CredentialWrapMigrationEntity where
  singletonId : Int
  migrationId : String
  /-- SHA-256 of the source file. -/
  sourceIdentityHash : Bytes
  targetGeneration : Bytes
  targetAuthMethod : String
  expectedRows : Int
deriving DecidableEq

def CredentialWrapMigrationEntity.sameMigration (self other : CredentialWrapMigrationEntity) :
    Prop :=
  self.singletonId = other.singletonId ∧ self.migrationId = other.migrationId ∧
    self.sourceIdentityHash = other.sourceIdentityHash ∧
    self.targetGeneration = other.targetGeneration ∧
    self.targetAuthMethod = other.targetAuthMethod ∧ self.expectedRows = other.expectedRows

instance (self other : CredentialWrapMigrationEntity) : Decidable (self.sameMigration other) :=
  inferInstanceAs (Decidable (_ ∧ _))

/-- The two tables. -/
structure CredentialDatabase where
  credentials : List CredentialEntity
  /-- `service` is the primary key. -/
  key : (credentials.map (·.service)).Nodup
  journal : Option CredentialWrapMigrationEntity
deriving DecidableEq

namespace CredentialDatabase

variable (db : CredentialDatabase)

/-! ## `CredentialDao` -/

def get (service : String) : Option CredentialEntity :=
  db.credentials.find? (·.service = service)

def legacyServices : List String :=
  ((db.credentials.filter (·.dekWrapVersion = 1)).map (·.service)).mergeSort (· ≤ ·)

def countLegacyRows : Int := db.credentials.countP (·.dekWrapVersion = 1)

def countRows : Int := db.credentials.length

/-- `pendingMigrationId = :migrationId AND pendingWrappedDek IS NOT NULL`. -/
def isStaged (migrationId : String) (row : CredentialEntity) : Bool :=
  row.pendingMigrationId = some migrationId ∧ row.pendingWrappedDek ≠ none

def countStagedRows (migrationId : String) : Int := db.credentials.countP (isStaged migrationId)

/-- `UPDATE credentials SET … WHERE …`: the number of rows changed, and the table. -/
def updateRows (condition : CredentialEntity → Bool) (set : CredentialEntity → CredentialEntity)
    (hset : ∀ row, (set row).service = row.service) : Int × CredentialDatabase :=
  (db.credentials.countP condition,
    { db with
      credentials := db.credentials.map fun row => if condition row then set row else row
      key := by
        have hservice : (fun row => (if condition row then set row else row).service) =
            CredentialEntity.service := by
          funext row
          split_ifs
          · exact hset row
          · rfl
        rw [List.map_map]
        show (db.credentials.map fun row =>
          (if condition row then set row else row).service).Nodup
        rw [hservice]
        exact db.key })

def stageLegacyDek (service migrationId : String) (wrapped : Bytes) : Int × CredentialDatabase :=
  db.updateRows
    (fun row => row.service = service ∧ row.dekWrapVersion = 1 ∧ row.pendingWrappedDek = none)
    (fun row => { row with
      pendingWrappedDek := some wrapped
      pendingMigrationId := some migrationId })
    (fun _ => rfl)

def promoteStagedDeks (migrationId : String) : Int × CredentialDatabase :=
  db.updateRows
    (fun row => isStaged migrationId row ∧ row.dekWrapVersion = 1)
    (fun row => { row with
      wrappedDek := row.pendingWrappedDek.getD row.wrappedDek
      dekWrapVersion := 2
      pendingWrappedDek := none
      pendingMigrationId := none })
    (fun _ => rfl)

def migration : Option CredentialWrapMigrationEntity := db.journal.filter (·.singletonId = 1)

/-- `OnConflictStrategy.ABORT`. -/
def insertMigration (entity : CredentialWrapMigrationEntity) :
    Except VaultError (Unit × CredentialDatabase) :=
  match db.journal with
  | none => .ok ((), { db with journal := some entity })
  | some _ => .error .constraint

def deleteMigration (migrationId : String) : Int × CredentialDatabase :=
  if db.journal.any fun entity => entity.singletonId = 1 ∧ entity.migrationId = migrationId then
    (1, { db with journal := none })
  else (0, db)

/-! ### What the statements find -/

/-- Two rows of one service are one row. -/
theorem eq_of_service {row row' : CredentialEntity} (h : row ∈ db.credentials)
    (h' : row' ∈ db.credentials) (hservice : row.service = row'.service) : row = row' :=
  List.inj_on_of_nodup_map db.key h h' hservice

theorem get_of_mem {row : CredentialEntity} (h : row ∈ db.credentials) :
    db.get row.service = some row := by
  obtain ⟨found, hfound⟩ : ∃ found, db.get row.service = some found := by
    rw [← Option.isSome_iff_exists]
    exact List.find?_isSome.2 ⟨row, h, decide_eq_true rfl⟩
  have hservice : found.service = row.service := by
    simpa using List.find?_some hfound
  rw [hfound, db.eq_of_service (List.mem_of_find?_eq_some hfound) h hservice]

theorem mem_legacyServices {service : String} :
    service ∈ db.legacyServices ↔
      ∃ row ∈ db.credentials, row.dekWrapVersion = 1 ∧ row.service = service := by
  rw [legacyServices, List.mem_mergeSort, List.mem_map]
  simp only [List.mem_filter, decide_eq_true_eq, and_assoc]

theorem length_legacyServices : (db.legacyServices.length : Int) = db.countLegacyRows := by
  rw [legacyServices, List.length_mergeSort, List.length_map, countLegacyRows,
    List.countP_eq_length_filter]

theorem deleteMigration_of_journal {entity : CredentialWrapMigrationEntity}
    (h : db.journal = some entity) (hsingleton : entity.singletonId = 1) :
    db.deleteMigration entity.migrationId = (1, { db with journal := none }) := by
  rw [deleteMigration, h, if_pos]
  simp [hsingleton]

/-! ## The promotion -/

/-- The transaction of `promoteUnlocked`. -/
def promote (migration : CredentialWrapMigrationEntity) :
    Except VaultError (Unit × CredentialDatabase) :=
  match db.migration with
  | none => .ok ((), db)
  | some active =>
    if ¬active.sameMigration migration then
      .error (.credentialWrapMigration "credential migration journal changed")
    else if db.countStagedRows migration.migrationId ≠ migration.expectedRows ∨
        db.countLegacyRows ≠ migration.expectedRows ∨ db.countRows ≠ migration.expectedRows then
      .error (.credentialWrapMigration "credential migration is not ready to commit")
    else
      let promoted := (db.promoteStagedDeks migration.migrationId).2
      if promoted.countLegacyRows ≠ 0 then
        .error (.credentialWrapMigration "credential promotion was incomplete")
      else
        let (deleted, cleared) := promoted.deleteMigration migration.migrationId
        if deleted ≠ 1 then
          .error (.credentialWrapMigration "could not clear credential migration journal")
        else .ok ((), cleared)

end CredentialDatabase

end Conveyance.Phone
