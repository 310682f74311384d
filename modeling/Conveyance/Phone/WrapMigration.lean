import Conveyance.Phone.MigrationPhases

/-!
# The wrap migration survives interruption

Each operation of an unlock leads from a phase of the migration to the same or the
next one. The `wp_*` lemmas say so function by function: wherever an unlock is cut,
the disk is in a phase, and in each phase an unlock goes on to the last.
-/

namespace Conveyance.Phone

open Lib Interruptible Tier1KeyEnvelope CredentialWrapMigrator IdentityVault IdentityContainer

section

variable {Key Identity : Type}

namespace LegacyInstall

variable {p : Platform Key Identity} {old : LegacyInstall p} {disk : Disk Key}
  {journal : CredentialWrapMigrationEntity} {wraps : String → Option Bytes}
  {container : IdentityContainer} {key : Key} {row : CredentialEntity}

/-! ## Unlocking, operation by operation -/

section Programs

variable {draws : Draws Key} {E : VaultError → Disk Key → Prop}

/-- A round of the staging loop stages its service, if it was not staged before. -/
theorem wp_stageRow {completed : Int} (h : old.Staging journal wraps disk)
    (hrow : row ∈ old.database.credentials) :
    Wp (stageRow p draws journal old.vaultKey (unwrapLegacyDek p) completed row.service)
      (fun _ disk' => ∃ wraps', old.Staging journal wraps' disk' ∧ wraps' row.service ≠ none ∧
        ∀ service, wraps service ≠ none → wraps' service ≠ none) E old.Phase disk := by
  have hphase : old.Phase disk := .staging h
  rw [stageRow]
  apply wp_select hphase (h.get hrow)
  by_cases hnone : wraps row.service = none
  · have hlegacy := old.rows row hrow
    obtain ⟨dek, hdek, hlen⟩ := hlegacy.unwraps
    obtain ⟨wrapped, hwrap, hunwrap⟩ :=
      p.exists_wrapDek row.service (draws.dekNonce row.service) hlen old.vaultKey_length
    have hstaged := h.stage hrow hnone (hunwrap.trans hdek.symm)
    have hnew : Function.update wraps row.service (some wrapped) row.service ≠ none := by
      rw [Function.update_self]
      exact Option.some_ne_none wrapped
    have hmore : ∀ service, wraps service ≠ none →
        Function.update wraps row.service (some wrapped) service ≠ none := by
      intro service hservice
      rw [Function.update_apply]
      split_ifs
      · exact Option.some_ne_none wrapped
      · exact hservice
    have hunstaged : ¬CredentialDatabase.isStaged journal.migrationId row = true := by
      simp [CredentialDatabase.isStaged, hlegacy.unstaged]
    rw [stagedRow_of_none hnone]
    dsimp only
    rw [if_neg hunstaged]
    apply wp_bind
    apply wp_throwIf (by simp [hlegacy.unstaged, hlegacy.unclaimed])
    apply wp_bind
    apply wp_throwIf (not_not_intro hlegacy.version)
    apply wp_bind
    apply wp_unwrapLegacyDek hphase h.legacyKey hdek
    apply wp_ofExcept hwrap
    apply wp_bind
    apply wp_sql hphase rfl
    split_ifs
    · -- no row changed is no error as long as the row is staged
      apply wp_select (.staging hstaged) (hstaged.get hrow)
      apply wp_bind
      apply wp_throwIf
      · rw [not_not]
        exact isStaged_stagedRow hnew
      · exact wp_pure ⟨_, hstaged, hnew, hmore⟩
    · apply wp_pause (.staging hstaged)
      exact wp_pure ⟨_, hstaged, hnew, hmore⟩
  · dsimp only
    rw [if_pos (isStaged_stagedRow hnone)]
    exact wp_pure ⟨wraps, h, hnone, fun _ => id⟩

/-- A disk on which the migration of the journal may start or go on. -/
def Begun (old : LegacyInstall p) (journal : CredentialWrapMigrationEntity) (disk : Disk Key) :
    Prop :=
  old.Untouched disk ∧ old.Journal journal ∨ ∃ wraps, old.Staging journal wraps disk

theorem Untouched.migration (h : old.Untouched disk) : disk.database.migration = none := by
  rw [CredentialDatabase.migration, h.database, old.noJournal]
  rfl

theorem wp_openJournal (h : old.Begun journal disk) :
    Wp (openJournal journal) (fun _ disk' => ∃ wraps, old.Staging journal wraps disk') E old.Phase
      disk := by
  rcases h with ⟨h, hjournal⟩ | ⟨wraps, h⟩
  · apply wp_select (.untouched h) h.migration
    have hinsert : disk.database.insertMigration journal =
        .ok ((), { disk.database with journal := some journal }) := by
      rw [CredentialDatabase.insertMigration, h.database, old.noJournal]
    apply wp_sql (.untouched h) hinsert
    refine ⟨fun _ => none, ⟨h.legacyKey, rfl, hjournal, ?_, ?_⟩, h.file⟩
    · intro row _ wrapped hwrapped
      cases hwrapped
    · show disk.database.credentials = _
      rw [h.database]
      exact (List.map_id _).symm
  · apply wp_select (.staging h) h.migration
    apply wp_throwIf (not_not_intro ⟨rfl, rfl, rfl, rfl, rfl, rfl⟩)
    exact ⟨wraps, h⟩

/-- The staging ends with a wrap for every row. -/
theorem wp_stageLegacyRowsUnlocked (h : old.Begun journal disk) (hjournal : old.Journal journal) :
    Wp (stageLegacyRowsUnlocked p draws journal old.vaultKey (unwrapLegacyDek p))
      (fun _ disk' => ∃ wraps, old.Staging journal wraps disk' ∧ old.Complete wraps)
      E old.Phase disk := by
  have hhash : journal.sourceIdentityHash.length = 32 := by
    rw [hjournal.source]
    exact (p.sha256 old.source).2
  have hrows : journal.expectedRows ≥ 0 := by
    rw [hjournal.rows]
    exact Int.natCast_nonneg _
  rw [stageLegacyRowsUnlocked]
  apply wp_require hjournal.singleton
  apply wp_require hhash
  apply wp_require hjournal.generation
  apply wp_require hrows
  apply wp_bind
  refine wp_mono (wp_openJournal h) ?_
  rintro - disk' ⟨wraps, hstaging⟩
  have hphase : old.Phase disk' := .staging hstaging
  apply wp_select hphase rfl
  apply wp_select hphase hstaging.countRows
  apply wp_bind
  apply wp_throwIf
  · rw [CredentialDatabase.length_legacyServices, hstaging.countLegacyRows]
    simp
  apply wp_select hphase rfl
  apply wp_pause hphase
  apply wp_bind
  -- the services done so far have their wraps
  refine wp_mono (wp_foldlM (fun done _ disk => ∃ wraps, old.Staging journal wraps disk ∧
    ∀ service ∈ done, wraps service ≠ none) ⟨wraps, hstaging, by simp⟩ ?_) ?_
  · rintro service hservice done completed disk ⟨wraps, hround, hdone⟩
    obtain ⟨row, hrow, rfl⟩ := hstaging.mem_legacyServices.1 hservice
    refine wp_mono (wp_stageRow hround hrow) ?_
    rintro completed disk ⟨wraps', hround', hnew, hmore⟩
    refine ⟨wraps', hround', ?_⟩
    intro service hservice
    rcases List.mem_append.1 hservice with hold | hlast
    · exact hmore service (hdone service hold)
    · rw [List.mem_singleton.1 hlast]
      exact hnew
  · rintro completed disk ⟨wraps, hfinal, hdone⟩
    have hall : old.Complete wraps := fun row hrow =>
      hdone row.service (hstaging.mem_legacyServices.2 ⟨row, hrow, rfl⟩)
    have hphase : old.Phase disk := .staging hfinal
    apply wp_select hphase hfinal.countRows
    apply wp_select hphase hfinal.countLegacyRows
    apply wp_select hphase (hfinal.countStagedRows hall)
    apply wp_throwIf (by simp)
    exact ⟨wraps, hfinal, hall⟩

/-- The file that the migration writes. -/
def newContainer (old : LegacyInstall p) (generation wrapped : Bytes) : IdentityContainer :=
  ⟨wrapped, old.container.sealedBlob, some .biometric, none, none, some generation,
    currentVersion⟩

variable {generation : Bytes} {Q : Bytes → Disk Key → Prop} {C : Disk Key → Prop}

theorem exists_encode (old : LegacyInstall p) {wrapped : Bytes}
    (hgeneration : generation.length = 16) (hwrapped : wrapped.length = aesGcmWrappedKeyLen) :
    ∃ bytes, (old.newContainer generation wrapped).encode = .ok bytes := by
  have hshort : wrapped.length ≤ 0xFFFF := by
    rw [hwrapped]
    decide
  refine ⟨magic ++ [currentVersion] ++
    [Tier1AuthMethod.biometric.wireTag] ++ generation ++
    u16ToBe (UInt16.ofNat wrapped.length) ++ wrapped ++ old.container.sealedBlob, ?_⟩
  have hversion : (old.newContainer generation wrapped).version ≠
      legacyVersion := by
    show currentVersion ≠ legacyVersion
    decide
  rw [encode, require_bind, if_neg hversion, if_pos (by rfl),
    encodeV2, requireNotNull_bind]
  have hblob : old.container.sealedBlob ≠ [] := sealedBlob_ne_nil old.decodes
  refine ⟨hblob, .biometric, rfl, ?_⟩
  rw [requireNotNull_bind]
  refine ⟨generation, rfl, ?_⟩
  rw [require_bind, bind_eq_ok]
  refine ⟨hgeneration, wrapped, ?_, ?_⟩
  · rw [envelope, require_bind, require_bind]
    exact ⟨⟨rfl, rfl⟩, hwrapped, rfl⟩
  · rw [require_bind]
    exact ⟨hshort, rfl⟩

/-- Wrapping the vault key leaves the staging alone, and a version 2 key in the Keystore. -/
theorem wp_wrap (h : old.Staging journal wraps disk) :
    Wp (wrap p draws old.vaultKey journal.targetGeneration .biometric)
      (fun wrapped disk' => ∃ key, disk'.keystore.tier1 = some key ∧
        old.Staging journal wraps disk' ∧
        wrapped = ⟨.biometric, p.wrapKey key draws.iv old.vaultKey, none, none⟩)
      E old.Phase disk := by
  rw [wrap]
  apply wp_require old.vaultKey_length
  apply wp_require h.fits.generation
  have hstaging : old.Staging journal wraps { disk with
      keystore := { disk.keystore with
        tier1 := some (disk.keystore.tier1.getD draws.tier1Key) } } := { h with }
  apply wp_bind
  refine wp_update (.staging h) ?_
  apply wp_pause (.staging hstaging)
  exact wp_pure ⟨_, rfl, hstaging, rfl⟩

/-- Replacing the file commits the migration. -/
theorem wp_writeContainer (draws : Draws Key) (h : old.Staging journal wraps disk)
    (hall : old.Complete wraps) (hkey : disk.keystore.tier1 = some key) :
    Wp (writeContainer (old.newContainer journal.targetGeneration
        (p.wrapKey key draws.iv old.vaultKey)))
      (fun _ disk' => ∃ container, old.Committed journal wraps container key disk')
      E old.Phase disk := by
  have hlen : (p.wrapKey key draws.iv old.vaultKey).length =
      aesGcmWrappedKeyLen := by
    rw [p.wrapKey_length, old.vaultKey_length]
    rfl
  obtain ⟨bytes, hbytes⟩ := old.exists_encode h.fits.generation hlen
  rw [writeContainer]
  apply wp_ofExcept hbytes
  apply wp_update (.staging h)
  exact ⟨_, { h with }, hall, decode_of_encode hbytes, rfl, rfl, rfl, rfl, hkey,
    p.unwrapKey_wrapKey key draws.iv old.vaultKey_length⟩

theorem wp_promoteUnlocked (h : old.Committed journal wraps container key disk) :
    Wp (promoteUnlocked journal) (fun _ => old.Migrated) E old.Phase disk := by
  obtain ⟨database, hpromote, hjournal, hrows⟩ := h.promote
  apply wp_sql (.committed h) hpromote
  exact ⟨hjournal, ⟨_, container, key, { h.rekeyed with }⟩, wraps, h.sound, h.complete, hrows⟩

theorem wp_deleteLegacyKey (h : old.Migrated disk) :
    Wp (deleteLegacyKey draws) (fun _ => old.Migrated) E old.Phase disk := by
  refine wp_update (.migrated h) ?_
  split_ifs
  · obtain ⟨generation, container, key, hrekeyed⟩ := h.rekeyed
    exact ⟨h.journal, ⟨generation, container, key, { hrekeyed with }⟩, h.rows⟩
  · exact h

/-- A legacy disk, whether or not its migration has begun. -/
def Legacy (old : LegacyInstall p) (disk : Disk Key) : Prop :=
  old.Untouched disk ∨ ∃ journal wraps, old.Staging journal wraps disk

theorem Legacy.phase (h : old.Legacy disk) : old.Phase disk := by
  rcases h with h | ⟨journal, wraps, h⟩
  · exact .untouched h
  · exact .staging h

theorem wp_pendingOrNew (h : old.Legacy disk) :
    Wp (pendingOrNew draws (p.sha256 old.source).val)
      (fun journal disk' => old.Journal journal ∧ old.Begun journal disk') E old.Phase disk := by
  rcases h with h | ⟨journal, wraps, h⟩
  · have hcount : disk.database.countLegacyRows = old.database.credentials.length := by
      rw [CredentialDatabase.countLegacyRows, h.database, List.countP_eq_length.2]
      intro row hrow
      exact decide_eq_true (old.rows row hrow).version
    have hjournal : old.Journal (newMigration draws (p.sha256 old.source).val
        old.database.credentials.length) :=
      ⟨rfl, rfl, draws.targetGeneration.2, rfl, rfl⟩
    apply wp_select (.untouched h) h.migration
    apply wp_select (.untouched h) hcount
    exact wp_pure ⟨hjournal, .inl ⟨h, hjournal⟩⟩
  · apply wp_select (.staging h) h.migration
    exact wp_pure ⟨h.fits, .inr ⟨wraps, h⟩⟩

theorem wp_migrateLegacyIdentity (h : old.Legacy disk) :
    Wp (migrateLegacyIdentity p draws old.source old.vaultKey .biometric)
      (fun _ => old.Migrated) E old.Phase disk := by
  rw [migrateLegacyIdentity]
  apply wp_bind
  apply wp_throwIf (by simp [Tier1AuthInput.method])
  apply wp_bind
  refine wp_mono (wp_pendingOrNew h) ?_
  rintro journal disk ⟨hjournal, hbegun⟩
  apply wp_bind
  apply wp_throwIf (by simp [hjournal.source, hjournal.method])
  apply wp_bind
  refine wp_mono (wp_stageLegacyRowsUnlocked hbegun hjournal) ?_
  rintro - disk ⟨wraps, hstaging, hall⟩
  apply wp_bind
  refine wp_mono (wp_wrap hstaging) ?_
  rintro - disk ⟨key, hkey, hstaging, rfl⟩
  apply wp_ofExcept old.decodes
  apply wp_bind
  refine wp_mono (wp_writeContainer draws hstaging hall hkey) ?_
  rintro - disk ⟨container, hcommitted⟩
  apply wp_bind
  refine wp_mono (wp_promoteUnlocked hcommitted) ?_
  rintro - disk hmigrated
  apply wp_bind
  refine wp_mono (wp_deleteLegacyKey hmigrated) ?_
  rintro - disk hmigrated
  exact wp_pure hmigrated

theorem Migrated.migration (h : old.Migrated disk) : disk.database.migration = none := by
  rw [CredentialDatabase.migration, h.journal]
  rfl

theorem Migrated.countLegacyRows (h : old.Migrated disk) : disk.database.countLegacyRows = 0 := by
  obtain ⟨wraps, -, -, hrows⟩ := h.rows
  exact countLegacyRows_of_promoted hrows

theorem wp_unwrap_legacy (hC : C disk) (hkey : disk.keystore.legacyTier1 = some old.key)
    (h : Q old.vaultKey disk) : Wp (unwrap p draws old.container .biometric) Q E C disk := by
  have hmethod : old.container.authMethod = none :=
    authMethod_of_legacy old.decodes old.legacy
  rw [unwrap]
  apply wp_bind
  apply wp_throwIf (by simp [hmethod, Tier1AuthInput.method])
  apply wp_bind
  rw [envelopeKey, if_pos old.legacy]
  apply wp_legacyKey hC hkey
  apply wp_pause hC
  exact wp_finished old.unwraps h

theorem wp_unwrap_rekeyed (hC : C disk) (hrekeyed : old.Rekeyed generation disk container key)
    (h : Q old.vaultKey disk) : Wp (unwrap p draws container .biometric) Q E C disk := by
  rw [unwrap]
  apply wp_bind
  apply wp_throwIf (by simp [hrekeyed.method, Tier1AuthInput.method])
  apply wp_bind
  rw [envelopeKey, if_neg (by rw [hrekeyed.version]; decide)]
  apply wp_tier1Key hC hrekeyed.tier1
  apply wp_pause hC
  exact wp_finished hrekeyed.unwraps h

/-- With the file of version 2, an unlock finishes what there is to finish. -/
theorem wp_unlock_rekeyed {Q : UnlockedPhoneSession Identity → Disk Key → Prop} (hC : C disk)
    (hrekeyed : old.Rekeyed generation disk container key)
    (h : Wp (finishCommittedMigration draws container generation)
      (fun _ => Q ⟨old.identity, .biometric, generation, old.vaultKey⟩) E C disk) :
    Wp (unlockInternal p draws .biometric) Q E C disk := by
  have hopens : p.openSealedIdentity container.sealedBlob old.vaultKey = some old.identity := by
    rw [hrekeyed.blob, old.opens]
  rw [unlockInternal]
  apply wp_bind
  apply wp_query hC rfl
  apply wp_ofExcept hrekeyed.decodes
  apply wp_bind
  apply wp_unwrap_rekeyed hC hrekeyed
  rw [hopens]
  dsimp only
  rw [if_neg (by rw [hrekeyed.version]; decide), hrekeyed.generation, hrekeyed.method]
  apply wp_ofExcept rfl
  apply wp_bind
  refine wp_mono h ?_
  intro _ disk' hQ
  apply wp_ofExcept rfl
  exact wp_pure hQ

theorem wp_unlock_migrated (h : old.Migrated disk) (hC : C disk) :
    Wp (unlockInternal p draws .biometric) (fun _ disk' => disk' = disk) E C disk := by
  obtain ⟨generation, container, key, hrekeyed⟩ := h.rekeyed
  apply wp_unlock_rekeyed hC hrekeyed
  rw [finishCommittedMigration]
  apply wp_select hC h.migration
  apply wp_select hC h.countLegacyRows
  exact wp_throwIf (not_not_intro rfl) rfl

theorem wp_unlock_committed (h : old.Committed journal wraps container key disk) :
    Wp (unlockInternal p draws .biometric) (fun _ => old.Migrated) E old.Phase disk := by
  apply wp_unlock_rekeyed (.committed h) h.rekeyed
  rw [finishCommittedMigration]
  apply wp_select (.committed h) h.migration
  apply wp_bind
  apply wp_throwIf (by simp [h.fits.method, h.rekeyed.method])
  apply wp_bind
  refine wp_mono (wp_promoteUnlocked h) ?_
  rintro - disk' hmigrated
  exact wp_deleteLegacyKey hmigrated

theorem wp_unlock_legacy (h : old.Legacy disk) :
    Wp (unlockInternal p draws .biometric) (fun _ => old.Migrated) E old.Phase disk := by
  have hfile : disk.identityFile = old.source := by
    rcases h with h | ⟨journal, wraps, h⟩ <;> exact h.file
  have hkey : disk.keystore.legacyTier1 = some old.key := by
    rcases h with h | ⟨journal, wraps, h⟩ <;> exact h.legacyKey
  rw [unlockInternal]
  apply wp_bind
  apply wp_query h.phase hfile
  apply wp_ofExcept old.decodes
  apply wp_bind
  apply wp_unwrap_legacy h.phase hkey
  rw [old.opens]
  dsimp only
  rw [if_pos old.legacy]
  apply wp_bind
  refine wp_mono (wp_migrateLegacyIdentity h) ?_
  rintro generation disk' hmigrated
  exact wp_pure hmigrated

/-- In every phase an unlock with the configured method ends the migration, unless it is cut. -/
theorem wp_unlock_biometric (draws : Draws Key) (h : old.Phase disk) :
    Wp (unlockInternal p draws .biometric) (fun _ => old.Migrated) E old.Phase disk := by
  cases h with
  | untouched h => exact wp_unlock_legacy (.inl h)
  | staging h => exact wp_unlock_legacy (.inr ⟨_, _, h⟩)
  | committed h => exact wp_unlock_committed h
  | migrated h =>
    refine wp_mono (wp_unlock_migrated h (.migrated h)) ?_
    rintro - disk' rfl
    exact h

theorem Phase.method (h : old.Phase disk) :
    ∃ container, decode disk.identityFile = .ok container ∧
      container.authMethod.getD .biometric = .biometric := by
  have hlegacy : old.container.authMethod = none :=
    authMethod_of_legacy old.decodes old.legacy
  cases h with
  | untouched h | staging h =>
    exact ⟨old.container, by rw [h.file, old.decodes], by rw [hlegacy]; rfl⟩
  | committed h => exact ⟨_, h.rekeyed.decodes, by rw [h.rekeyed.method]; rfl⟩
  | migrated h =>
    obtain ⟨generation, container, key, hrekeyed⟩ := h.rekeyed
    exact ⟨container, hrekeyed.decodes, by rw [hrekeyed.method]; rfl⟩

theorem wp_unlock_passphrase (draws : Draws Key) (bytes : Bytes) (h : old.Phase disk)
    (hC : C disk) :
    Wp (unlockInternal p draws (.passphrase bytes)) (fun _ _ => False)
      (fun e disk' => e = .authMethodMismatch ∧ C disk') C disk := by
  obtain ⟨container, hdecodes, hmethod⟩ := h.method
  rw [unlockInternal]
  apply wp_bind
  apply wp_query hC rfl
  apply wp_ofExcept hdecodes
  apply wp_bind
  rw [unwrap]
  apply wp_bind
  refine wp_throw ?_ ⟨rfl, hC⟩
  rw [hmethod]
  exact fun h => by cases h

end Programs

/-! ## Runs -/

theorem unlock_of_phase (h : old.Phase disk) (call : Unlocking Key) :
    old.Phase (unlock p disk call).1 ∧
    (∀ message, (unlock p disk call).2 ≠ .failed (.credentialWrapMigration message)) ∧
    (∀ session, (unlock p disk call).2 = .returned session → old.Migrated (unlock p disk call).1) ∧
    (call.input = .biometric → call.budget = none →
      ∃ session, (unlock p disk call).2 = .returned session) := by
  obtain ⟨input, draws, budget⟩ := call
  rw [unlock]
  cases input with
  | biometric =>
    have hwp := @wp_unlock_biometric _ _ _ _ _ (fun _ _ => False) draws h
    rcases hwp.ends budget with ⟨session, hreturned, hmigrated⟩ | ⟨e, -, hfailed⟩ |
      ⟨hcut, hphase, hbudget⟩
    · exact ⟨.migrated hmigrated, by simp [hreturned], fun _ _ => hmigrated,
        fun _ _ => ⟨session, hreturned⟩⟩
    · exact hfailed.elim
    · exact ⟨hphase, by simp [hcut], by simp [hcut], fun _ hnone => absurd hnone hbudget⟩
  | passphrase bytes =>
    have hwp := wp_unlock_passphrase draws bytes h h
    rcases hwp.ends budget with ⟨session, -, hreturned⟩ | ⟨e, he, rfl, hphase⟩ | ⟨hcut, hphase, -⟩
    · exact hreturned.elim
    · exact ⟨hphase, by simp [he], by simp [he], by simp⟩
    · exact ⟨hphase, by simp [hcut], by simp [hcut], by simp⟩

theorem unlock_of_migrated (h : old.Migrated disk) (call : Unlocking Key) :
    old.Migrated (unlock p disk call).1 := by
  obtain ⟨input, draws, budget⟩ := call
  cases input with
  | biometric =>
    have hwp := @wp_unlock_migrated _ _ _ _ _ draws (fun _ _ => False) old.Migrated h h
    rcases hwp.ends budget with ⟨session, -, hsame⟩ | ⟨e, -, hfailed⟩ | ⟨-, hmigrated, -⟩
    · show old.Migrated (unlockInternal p draws .biometric budget disk).2.1
      rw [hsame]
      exact h
    · exact hfailed.elim
    · exact hmigrated
  | passphrase bytes =>
    have hwp := wp_unlock_passphrase draws bytes (.migrated h) h
    rcases hwp.ends budget with ⟨session, -, hreturned⟩ | ⟨e, -, -, hmigrated⟩ | ⟨-, hmigrated, -⟩
    · exact hreturned.elim
    · exact hmigrated
    · exact hmigrated

theorem unlocks_of_migrated (h : old.Migrated disk) (calls : List (Unlocking Key)) :
    old.Migrated (unlocks p disk calls) := by
  induction calls generalizing disk with
  | nil => exact h
  | cons call calls ih => exact ih (unlock_of_migrated h call)

theorem unlocks_of_phase (h : old.Phase disk) (calls : List (Unlocking Key)) :
    old.Phase (unlocks p disk calls) ∧
    (∀ outcome ∈ answers (unlock p) disk calls,
      ∀ message, outcome ≠ .failed (.credentialWrapMigration message)) ∧
    ((∃ session, .returned session ∈ answers (unlock p) disk calls) →
      old.Migrated (unlocks p disk calls)) := by
  induction calls generalizing disk with
  | nil =>
    refine ⟨h, ?_, ?_⟩
    · intro outcome houtcome
      cases houtcome
    · rintro ⟨session, hsession⟩
      cases hsession
  | cons call calls ih =>
    obtain ⟨hphase, hmismatch, hreturns, -⟩ := unlock_of_phase h call
    obtain ⟨hlast, hrest, hmigrated⟩ := ih hphase
    refine ⟨hlast, ?_, ?_⟩
    · intro outcome houtcome
      rcases List.mem_cons.1 houtcome with rfl | hlater
      · exact hmismatch
      · exact hrest outcome hlater
    · rintro ⟨session, hsession⟩
      rcases List.mem_cons.1 hsession with hfirst | hlater
      · exact unlocks_of_migrated (hreturns session hfirst.symm) calls
      · exact hmigrated ⟨session, hlater⟩

end LegacyInstall

/-- **The migration is crash-safe and resumable.** After any unlocks, each cut anywhere or not:
every DEK can be had from the disk; none of them failed with a migration error; the next one
with the configured method returns unless it is cut; and once one has returned, every row is
under the vault key only. -/
theorem wrap_migration_survives_interruption (p : Platform Key Identity) (old : LegacyInstall p)
    (calls : List (Unlocking Key)) :
    (∀ row ∈ old.database.credentials, old.Recoverable (unlocks p old.disk calls) row) ∧
    (∀ outcome ∈ answers (unlock p) old.disk calls,
      ∀ message, outcome ≠ .failed (.credentialWrapMigration message)) ∧
    (∀ draws, ∃ session,
      (unlock p (unlocks p old.disk calls) ⟨.biometric, draws, none⟩).2 = .returned session) ∧
    ((∃ session, .returned session ∈ answers (unlock p) old.disk calls) →
      old.OnVaultKey (unlocks p old.disk calls)) := by
  have hfresh : old.Phase old.disk := .untouched ⟨rfl, rfl, rfl⟩
  obtain ⟨hphase, hmismatch, hmigrated⟩ := old.unlocks_of_phase hfresh calls
  refine ⟨?_, hmismatch, ?_, ?_⟩
  · intro row hrow
    exact hphase.recoverable hrow
  · intro draws
    obtain ⟨-, -, -, hreturns⟩ := LegacyInstall.unlock_of_phase hphase ⟨.biometric, draws, none⟩
    exact hreturns rfl rfl
  · intro hreturned
    exact (hmigrated hreturned).onVaultKey

end

theorem take_tagged (text : Bytes) :
    some ((text ++ List.replicate 16 0).take ((text ++ List.replicate 16 0).length - 16)) =
      some text := by
  simp

theorem length_tagged (text : Bytes) : (text ++ List.replicate 16 0).length = text.length + 16 := by
  simp

/-- Ciphers that only add a tag. -/
def taggingPlatform : Platform Unit Unit where
  encrypt _ _ plaintext := plaintext ++ List.replicate 16 0
  decrypt _ _ ciphertext := some (ciphertext.take (ciphertext.length - 16))
  decrypt_encrypt _ _ := take_tagged
  encrypt_length _ _ := length_tagged
  aeadSeal _ _ plaintext _ := plaintext ++ List.replicate 16 0
  aeadOpen _ _ ciphertext _ := some (ciphertext.take (ciphertext.length - 16))
  aeadOpen_aeadSeal _ _ text _ := take_tagged text
  aeadSeal_length _ _ text _ := length_tagged text
  deriveDek passphrase _ := passphrase
  sha256 _ := .replicate 32 0
  openSealedIdentity _ _ := some ()

/-- A legacy installation with one credential. -/
def mailInstall : LegacyInstall taggingPlatform where
  source := magic ++ [1, 0, 60] ++ List.replicate 60 0 ++ [7]
  container := ⟨List.replicate 60 0, [7], none, none, none, none, 1⟩
  decodes := by decide +kernel
  legacy := rfl
  key := ()
  vaultKey := List.replicate 32 0
  unwraps := by decide +kernel
  vaultKey_length := rfl
  identity := ()
  opens := rfl
  database := ⟨[⟨"mail", [1, 2, 3], List.replicate 60 5, 0, 1, none, none⟩], by decide, none⟩
  noJournal := rfl
  rows := by
    intro row hrow
    rw [List.mem_singleton.1 hrow]
    exact ⟨rfl, rfl, rfl, List.replicate 32 5, by decide +kernel, rfl⟩
  tier1 := none

def mailDraws : Draws Unit :=
  ⟨"a", .replicate 16 1, fun _ => .replicate 12 2, .replicate 12 3,
    .replicate 16 4, .replicate 12 5, (), true⟩

/-- Cut before the file is replaced, the migration is finished by the next unlock. -/
theorem cut_migration_is_finished :
    mailInstall.OnVaultKey (unlocks taggingPlatform mailInstall.disk
      [⟨.biometric, mailDraws, some 20⟩, ⟨.biometric, mailDraws, none⟩]) := by
  obtain ⟨session, hsession⟩ := (wrap_migration_survives_interruption taggingPlatform mailInstall
    [⟨.biometric, mailDraws, some 20⟩]).2.2.1 mailDraws
  refine (wrap_migration_survives_interruption taggingPlatform mailInstall
    [⟨.biometric, mailDraws, some 20⟩, ⟨.biometric, mailDraws, none⟩]).2.2.2 ⟨session, ?_⟩
  exact List.mem_cons_of_mem _ (List.mem_singleton.2 hsession.symm)

end Conveyance.Phone
