import Conveyance.Phone.IdentityVault

/-!
# The phases of the wrap migration

A legacy installation keeps its DEKs under the version 1 Keystore key. The first
unlock moves them under the vault key. The identity file and the credential database
have no transaction in common, so the move goes through states in which one is ahead
of the other, and an interruption leaves any of them behind. There are four
(`Phase`):

- `Untouched`: the legacy installation;
- `Staging`: the journal is there, and some rows carry a wrap under the vault key
  next to the legacy one;
- `Committed`: all rows do, and the file is the one the journal announces;
- `Migrated`: the staged wraps are the rows' only ones and the journal is gone.

A DEK can be had in each of them (`Phase.recoverable`).
-/

namespace Conveyance.Phone

open Lib Interruptible

section

variable {Key Identity : Type}

/-- A row as the legacy version of the app wrote it. -/
structure LegacyRow (p : Platform Key Identity) (key : Key) (row : CredentialEntity) : Prop where
  version : row.dekWrapVersion = legacyDekWrapVersion
  unstaged : row.pendingWrappedDek = none
  unclaimed : row.pendingMigrationId = none
  unwraps : ∃ dek, p.unwrapKey key row.wrappedDek = some dek ∧ dek.length = keyLen

/-- A legacy installation: a version 1 file under the legacy key, with any legacy rows. -/
structure LegacyInstall (p : Platform Key Identity) where
  source : Bytes
  container : IdentityContainer
  decodes : IdentityContainer.decode source = .ok container
  legacy : container.version = IdentityContainer.legacyVersion
  key : Key
  vaultKey : Bytes
  unwraps : p.unwrapKey key container.wrappedContentKey = some vaultKey
  vaultKey_length : vaultKey.length = keyLen
  identity : Identity
  opens : p.openSealedIdentity container.sealedBlob vaultKey = some identity
  database : CredentialDatabase
  noJournal : database.journal = none
  rows : ∀ row ∈ database.credentials, LegacyRow p key row
  /-- A version 2 key may be in the Keystore already. -/
  tier1 : Option Key

/-! ## What can be had from a disk -/

namespace Disk

variable (p : Platform Key Identity) (disk : Disk Key)

/-- The vault key of the identity file, by the Keystore key of its version. -/
def vaultKey : Option Bytes :=
  match IdentityContainer.decode disk.identityFile with
  | .error _ => none
  | .ok container =>
    if container.version = IdentityContainer.legacyVersion then
      disk.keystore.legacyTier1.bind (p.unwrapKey · container.wrappedContentKey)
    else disk.keystore.tier1.bind (p.unwrapKey · container.wrappedContentKey)

/-- The DEK of a row, by its wrap version. -/
def dek (row : CredentialEntity) : Option Bytes :=
  if row.dekWrapVersion = legacyDekWrapVersion then
    disk.keystore.legacyTier1.bind (p.unwrapKey · row.wrappedDek)
  else (disk.vaultKey p).bind (p.unwrapDek row.service row.wrappedDek ·)

end Disk

namespace LegacyInstall

variable {p : Platform Key Identity} (old : LegacyInstall p)

/-- The installation on disk. -/
def disk : Disk Key := ⟨old.source, old.database, ⟨some old.key, old.tier1⟩⟩

/-- The DEK of a row of the installation, if the disk still has it. -/
def Recoverable (disk : Disk Key) (row : CredentialEntity) : Prop :=
  ∃ now dek, disk.database.get row.service = some now ∧
    now.secretCiphertext = row.secretCiphertext ∧
    p.unwrapKey old.key row.wrappedDek = some dek ∧ disk.dek p now = some dek

/-! ## The phases -/

/-- Wraps of the rows' DEKs under the vault key, by service. -/
def Wraps (wraps : String → Option Bytes) : Prop :=
  ∀ row ∈ old.database.credentials, ∀ wrapped, wraps row.service = some wrapped →
    p.unwrapDek row.service wrapped old.vaultKey = p.unwrapKey old.key row.wrappedDek

/-- Every row has its wrap. -/
def Complete (wraps : String → Option Bytes) : Prop :=
  ∀ row ∈ old.database.credentials, wraps row.service ≠ none

/-- A journal for this installation. -/
structure Journal (journal : CredentialWrapMigrationEntity) : Prop where
  singleton : journal.singletonId = 1
  source : journal.sourceIdentityHash = (p.sha256 old.source).val
  generation : journal.targetGeneration.length = 16
  method : journal.targetAuthMethod = Tier1AuthMethod.biometric.name
  rows : journal.expectedRows = old.database.credentials.length

/-- A row with its staged wrap, if there is one. -/
def stagedRow (migrationId : String) (wraps : String → Option Bytes) (row : CredentialEntity) :
    CredentialEntity :=
  match wraps row.service with
  | none => row
  | some wrapped =>
    { row with pendingWrappedDek := some wrapped, pendingMigrationId := some migrationId }

/-- A row with its staged wrap as its only one. -/
def promotedRow (wraps : String → Option Bytes) (row : CredentialEntity) : CredentialEntity :=
  { row with
    wrappedDek := (wraps row.service).getD row.wrappedDek
    dekWrapVersion := vaultDekWrapVersion }

structure Untouched (disk : Disk Key) : Prop where
  file : disk.identityFile = old.source
  legacyKey : disk.keystore.legacyTier1 = some old.key
  database : disk.database = old.database

/-- The database is being staged. -/
structure Staged (journal : CredentialWrapMigrationEntity) (wraps : String → Option Bytes)
    (disk : Disk Key) : Prop where
  legacyKey : disk.keystore.legacyTier1 = some old.key
  pending : disk.database.journal = some journal
  fits : old.Journal journal
  sound : old.Wraps wraps
  rows : disk.database.credentials =
    old.database.credentials.map (stagedRow journal.migrationId wraps)

structure Staging (journal : CredentialWrapMigrationEntity) (wraps : String → Option Bytes)
    (disk : Disk Key) : Prop extends Staged old journal wraps disk where
  file : disk.identityFile = old.source

/-- A version 2 file of the generation with the installation's identity and vault key. -/
structure Rekeyed (generation : Bytes) (disk : Disk Key) (container : IdentityContainer)
    (key : Key) : Prop where
  decodes : IdentityContainer.decode disk.identityFile = .ok container
  version : container.version = IdentityContainer.currentVersion
  method : container.authMethod = some .biometric
  generation : container.generation = some generation
  blob : container.sealedBlob = old.container.sealedBlob
  tier1 : disk.keystore.tier1 = some key
  unwraps : p.unwrapKey key container.wrappedContentKey = some old.vaultKey

structure Committed (journal : CredentialWrapMigrationEntity) (wraps : String → Option Bytes)
    (container : IdentityContainer) (key : Key) (disk : Disk Key) : Prop
    extends Staged old journal wraps disk where
  complete : old.Complete wraps
  rekeyed : old.Rekeyed journal.targetGeneration disk container key

structure Migrated (disk : Disk Key) : Prop where
  journal : disk.database.journal = none
  rekeyed : ∃ generation container key, old.Rekeyed generation disk container key
  rows : ∃ wraps, old.Wraps wraps ∧ old.Complete wraps ∧
    disk.database.credentials = old.database.credentials.map (promotedRow wraps)

/-- The states an unlock can leave behind. -/
inductive Phase (disk : Disk Key) : Prop
  | untouched (h : old.Untouched disk)
  | staging {journal : CredentialWrapMigrationEntity} {wraps : String → Option Bytes}
      (h : old.Staging journal wraps disk)
  | committed {journal : CredentialWrapMigrationEntity} {wraps : String → Option Bytes}
      {container : IdentityContainer} {key : Key}
      (h : old.Committed journal wraps container key disk)
  | migrated (h : old.Migrated disk)

variable {old} {disk : Disk Key} {journal : CredentialWrapMigrationEntity}
  {wraps : String → Option Bytes} {container : IdentityContainer} {key : Key}
  {row : CredentialEntity}

/-! ## The staged rows -/

variable {migrationId : String} {wrapped : Bytes}

theorem stagedRow_of_none (h : wraps row.service = none) :
    stagedRow migrationId wraps row = row := by
  rw [stagedRow, h]

theorem stagedRow_of_some (h : wraps row.service = some wrapped) :
    stagedRow migrationId wraps row =
      { row with
        pendingWrappedDek := some wrapped, pendingMigrationId := some migrationId } := by
  rw [stagedRow, h]

theorem stagedRow_service (migrationId : String) :
    (stagedRow migrationId wraps row).service = row.service := by
  rw [stagedRow]
  cases wraps row.service <;> rfl

theorem stagedRow_version (migrationId : String) :
    (stagedRow migrationId wraps row).dekWrapVersion = row.dekWrapVersion := by
  rw [stagedRow]
  cases wraps row.service <;> rfl

theorem isStaged_stagedRow (h : wraps row.service ≠ none) :
    CredentialDatabase.isStaged migrationId (stagedRow migrationId wraps row) = true := by
  obtain ⟨wrapped, hwrapped⟩ := Option.ne_none_iff_exists'.1 h
  rw [stagedRow_of_some hwrapped]
  simp [CredentialDatabase.isStaged]

namespace Staged

variable (h : old.Staged journal wraps disk)

include h

theorem get (hrow : row ∈ old.database.credentials) :
    disk.database.get row.service = some (stagedRow journal.migrationId wraps row) := by
  have hmem : stagedRow journal.migrationId wraps row ∈ disk.database.credentials := by
    rw [h.rows]
    exact List.mem_map_of_mem hrow
  have hget := disk.database.get_of_mem hmem
  rwa [stagedRow_service] at hget

theorem migration : disk.database.migration = some journal := by
  rw [CredentialDatabase.migration, h.pending, Option.filter_some, if_pos]
  exact decide_eq_true h.fits.singleton

theorem countRows : disk.database.countRows = journal.expectedRows := by
  rw [CredentialDatabase.countRows, h.rows, List.length_map, h.fits.rows]

theorem countLegacyRows : disk.database.countLegacyRows = journal.expectedRows := by
  rw [CredentialDatabase.countLegacyRows, h.rows, List.countP_map, h.fits.rows,
    List.countP_eq_length.2]
  intro row hrow
  show decide ((stagedRow journal.migrationId wraps row).dekWrapVersion = 1) = true
  rw [stagedRow_version, (old.rows row hrow).version]
  rfl

theorem countStagedRows (hall : old.Complete wraps) :
    disk.database.countStagedRows journal.migrationId = journal.expectedRows := by
  rw [CredentialDatabase.countStagedRows, h.rows, List.countP_map, h.fits.rows,
    List.countP_eq_length.2]
  intro row hrow
  exact isStaged_stagedRow (hall row hrow)

theorem mem_legacyServices {service : String} :
    service ∈ disk.database.legacyServices ↔
      ∃ row ∈ old.database.credentials, row.service = service := by
  rw [CredentialDatabase.mem_legacyServices, h.rows]
  constructor
  · rintro ⟨staged, hstaged, -, rfl⟩
    obtain ⟨row, hrow, rfl⟩ := List.mem_map.1 hstaged
    exact ⟨row, hrow, (stagedRow_service _).symm⟩
  · rintro ⟨row, hrow, rfl⟩
    refine ⟨_, List.mem_map_of_mem hrow, ?_, stagedRow_service _⟩
    rw [stagedRow_version, (old.rows row hrow).version]
    rfl

end Staged

/-- Staging a wrap of a row that has none yet. -/
theorem Staging.stage (h : old.Staging journal wraps disk) (hrow : row ∈ old.database.credentials)
    (hnone : wraps row.service = none)
    (hwrapped : p.unwrapDek row.service wrapped old.vaultKey = p.unwrapKey old.key row.wrappedDek) :
    old.Staging journal (Function.update wraps row.service (some wrapped))
      { disk with
        database := (disk.database.stageLegacyDek row.service journal.migrationId wrapped).2 } := by
  refine ⟨⟨h.legacyKey, h.pending, h.fits, ?_, ?_⟩, h.file⟩
  · intro other hother w hw
    rw [Function.update_apply] at hw
    split_ifs at hw with hsame
    · cases hw
      rw [old.database.eq_of_service hother hrow hsame, hwrapped]
    · exact h.sound other hother w hw
  · show disk.database.credentials.map _ = _
    rw [h.rows, List.map_map]
    apply List.map_congr_left
    intro other hother
    have hlegacy := old.rows other hother
    have hversion : other.dekWrapVersion = 1 := hlegacy.version
    by_cases hsame : other.service = row.service
    · simp [stagedRow, hsame, hnone, hversion, hlegacy.unstaged]
    · rw [Function.comp_apply, if_neg (by simp [stagedRow_service, hsame])]
      simp [stagedRow, hsame]

/-! ## The promotion -/

theorem countLegacyRows_of_promoted {database : CredentialDatabase} {rows : List CredentialEntity}
    (h : database.credentials = rows.map (promotedRow wraps)) : database.countLegacyRows = 0 := by
  rw [CredentialDatabase.countLegacyRows, h, List.countP_map, List.countP_eq_zero.2]
  · rfl
  · intro row _
    show ¬decide (vaultDekWrapVersion = 1) = true
    decide

theorem Committed.promote (h : old.Committed journal wraps container key disk) :
    ∃ database, disk.database.promote journal = .ok ((), database) ∧ database.journal = none ∧
      database.credentials = old.database.credentials.map (promotedRow wraps) := by
  have hrows : (disk.database.promoteStagedDeks journal.migrationId).2.credentials =
      old.database.credentials.map (promotedRow wraps) := by
    show disk.database.credentials.map _ = _
    rw [h.rows, List.map_map]
    apply List.map_congr_left
    intro row hrow
    have hlegacy := old.rows row hrow
    obtain ⟨wrapped, hwrapped⟩ := Option.ne_none_iff_exists'.1 (h.complete row hrow)
    rw [Function.comp_apply, if_pos, stagedRow_of_some hwrapped, promotedRow, hwrapped]
    · rw [← hlegacy.unstaged, ← hlegacy.unclaimed]
      rfl
    · have hversion : row.dekWrapVersion = 1 := hlegacy.version
      simp [isStaged_stagedRow (h.complete row hrow), stagedRow_version, hversion]
  have hlegacy := countLegacyRows_of_promoted hrows
  have hjournal : (disk.database.promoteStagedDeks journal.migrationId).2.journal = some journal :=
    h.pending
  refine ⟨{ (disk.database.promoteStagedDeks journal.migrationId).2 with journal := none },
    ?_, rfl, hrows⟩
  rw [CredentialDatabase.promote, h.migration]
  have hsame : journal.sameMigration journal := ⟨rfl, rfl, rfl, rfl, rfl, rfl⟩
  have hready : ¬(disk.database.countStagedRows journal.migrationId ≠ journal.expectedRows ∨
      disk.database.countLegacyRows ≠ journal.expectedRows ∨
      disk.database.countRows ≠ journal.expectedRows) := by
    rw [h.countStagedRows h.complete, h.countLegacyRows, h.countRows]
    simp
  dsimp only
  rw [if_neg (not_not_intro hsame), if_neg hready, hlegacy, if_neg (not_not_intro rfl),
    CredentialDatabase.deleteMigration_of_journal _ hjournal h.fits.singleton]
  rfl

/-! ## What the phases have in common -/

theorem Staged.recoverable (h : old.Staged journal wraps disk)
    (hrow : row ∈ old.database.credentials) : old.Recoverable disk row := by
  obtain ⟨dek, hdek, -⟩ := (old.rows row hrow).unwraps
  refine ⟨_, dek, h.get hrow, ?_, hdek, ?_⟩
  · rw [stagedRow]
    cases wraps row.service <;> rfl
  · have hwrapped : (stagedRow journal.migrationId wraps row).wrappedDek = row.wrappedDek := by
      rw [stagedRow]
      cases wraps row.service <;> rfl
    rw [Disk.dek, stagedRow_version, if_pos (old.rows row hrow).version, h.legacyKey, hwrapped]
    exact hdek

theorem Rekeyed.vaultKey {generation : Bytes} (h : old.Rekeyed generation disk container key) :
    disk.vaultKey p = some old.vaultKey := by
  rw [Disk.vaultKey, h.decodes]
  dsimp only
  rw [if_neg (by rw [h.version]; decide), h.tier1]
  exact h.unwraps

theorem Migrated.recoverable (h : old.Migrated disk) (hrow : row ∈ old.database.credentials) :
    old.Recoverable disk row := by
  obtain ⟨dek, hdek, -⟩ := (old.rows row hrow).unwraps
  obtain ⟨wraps, hwraps, hall, hrows⟩ := h.rows
  obtain ⟨generation, container, key, hrekeyed⟩ := h.rekeyed
  obtain ⟨wrapped, hwrapped⟩ := Option.ne_none_iff_exists'.1 (hall row hrow)
  have hmem : promotedRow wraps row ∈ disk.database.credentials := by
    rw [hrows]
    exact List.mem_map_of_mem hrow
  have hget : disk.database.get row.service = some (promotedRow wraps row) :=
    disk.database.get_of_mem hmem
  refine ⟨promotedRow wraps row, dek, hget, rfl, hdek, ?_⟩
  have hversion : (promotedRow wraps row).dekWrapVersion ≠ legacyDekWrapVersion := by
    show vaultDekWrapVersion ≠ legacyDekWrapVersion
    decide
  rw [Disk.dek, if_neg hversion, hrekeyed.vaultKey, promotedRow, hwrapped]
  exact (hwraps row hrow wrapped hwrapped).trans hdek

theorem Phase.recoverable (h : old.Phase disk) (hrow : row ∈ old.database.credentials) :
    old.Recoverable disk row := by
  cases h with
  | untouched h =>
    obtain ⟨dek, hdek, -⟩ := (old.rows row hrow).unwraps
    refine ⟨row, dek, ?_, rfl, hdek, ?_⟩
    · rw [h.database, old.database.get_of_mem hrow]
    · rw [Disk.dek, if_pos (old.rows row hrow).version, h.legacyKey]
      exact hdek
  | staging h | committed h | migrated h => exact h.recoverable hrow

/-- The rows of the installation, all and only under the vault key. -/
structure OnVaultKey (old : LegacyInstall p) (disk : Disk Key) : Prop where
  journal : disk.database.journal = none
  services : disk.database.credentials.map (·.service) =
    old.database.credentials.map (·.service)
  rows : ∀ row ∈ disk.database.credentials, row.dekWrapVersion = vaultDekWrapVersion ∧
    row.pendingWrappedDek = none ∧ row.pendingMigrationId = none ∧
    ∃ dek, p.unwrapDek row.service row.wrappedDek old.vaultKey = some dek

theorem Migrated.onVaultKey (h : old.Migrated disk) : old.OnVaultKey disk := by
  obtain ⟨wraps, hwraps, hall, hrows⟩ := h.rows
  refine ⟨h.journal, ?_, ?_⟩
  · rw [hrows, List.map_map]
    rfl
  · intro now hnow
    rw [hrows] at hnow
    obtain ⟨row, hrow, rfl⟩ := List.mem_map.1 hnow
    obtain ⟨dek, hdek, -⟩ := (old.rows row hrow).unwraps
    obtain ⟨wrapped, hwrapped⟩ := Option.ne_none_iff_exists'.1 (hall row hrow)
    refine ⟨rfl, (old.rows row hrow).unstaged, (old.rows row hrow).unclaimed, dek, ?_⟩
    rw [promotedRow, hwrapped]
    exact (hwraps row hrow wrapped hwrapped).trans hdek

end LegacyInstall

end

end Conveyance.Phone
