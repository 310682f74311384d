import Conveyance.Lib.Interrupt
import Conveyance.Lib.Transition
import Conveyance.Phone.CredentialDatabase

/-!
# Unlocking the identity vault

The model of `IdentityVault.unlock` with what it runs: `Tier1KeyEnvelope.kt`,
`CredentialDekEnvelope.kt`, `WrappedKey.kt` and the staging of
`CredentialWrapMigrator.kt`. An unlock is an interruptible program over the `Disk`:
the identity file, the credential database and the Keystore's two keys. Its
operations are the single file accesses, SQL statements, transactions, Keystore
calls and biometric prompts; a crash, a cancellation, a refused prompt or an
exception of a callback ends it between two of them. `finally` blocks only wipe
memory, so an exception leaves behind what a crash at its place does.

The cryptography is a `Platform`: what is encrypted under a key is decrypted by it.
-/

namespace Conveyance.Phone

open Lib Interruptible

/-- The platform's cryptography. -/
structure Platform (Key Identity : Type) where
  /-- AES-GCM under a Keystore key: ciphertext and tag. -/
  encrypt : Key → Bytes → Bytes → Bytes
  decrypt : Key → Bytes → Bytes → Option Bytes
  decrypt_encrypt : ∀ key iv plaintext, decrypt key iv (encrypt key iv plaintext) = some plaintext
  encrypt_length : ∀ key iv plaintext, (encrypt key iv plaintext).length = plaintext.length + 16
  /-- `crypto.seal` with key, nonce, plaintext and associated data. -/
  aeadSeal : Bytes → Bytes → Bytes → Bytes → Bytes
  aeadOpen : Bytes → Bytes → Bytes → Bytes → Option Bytes
  aeadOpen_aeadSeal : ∀ key nonce plaintext aad,
    aeadOpen key nonce (aeadSeal key nonce plaintext aad) aad = some plaintext
  aeadSeal_length : ∀ key nonce plaintext aad,
    (aeadSeal key nonce plaintext aad).length = plaintext.length + 16
  /-- Argon2id of a passphrase and a salt. -/
  deriveDek : Bytes → Bytes → Bytes
  sha256 : Bytes → Octets 32
  openSealedIdentity : Bytes → Bytes → Option Identity

/-- The `conveyance.tier1.v1` and `conveyance.tier1.v2` entries. -/
structure Keystore (Key : Type) where
  legacyTier1 : Option Key
  tier1 : Option Key
deriving DecidableEq

/-- What is persisted. -/
structure Disk (Key : Type) where
  identityFile : Bytes
  database : CredentialDatabase
  keystore : Keystore Key
deriving DecidableEq

inductive Tier1AuthInput where
  | biometric
  | passphrase (bytes : Bytes)
deriving DecidableEq

/-- `Tier1AuthInput.method`. -/
def Tier1AuthInput.method : Tier1AuthInput → Tier1AuthMethod
  | biometric => .biometric
  | passphrase _ => .passphrase

/-- What one unlock draws at random or is told by the Keystore. -/
structure Draws (Key : Type) where
  /-- `UUID.randomUUID()`. -/
  migrationId : String
  targetGeneration : Octets 16
  /-- The nonce of a service's wrap. -/
  dekNonce : String → Octets 12
  /-- The IV of the vault key's wrap. -/
  iv : Octets 12
  salt : Octets 16
  nonce : Octets 12
  /-- The key that is generated if there is none yet. -/
  tier1Key : Key
  /-- `deleteLegacyKey` does not throw. -/
  deletes : Bool

structure UnlockedPhoneSession (Identity : Type) where
  identity : Identity
  authMethod : Tier1AuthMethod
  generation : Bytes
  vaultKey : Bytes
deriving DecidableEq

section

variable {Key Identity : Type}

abbrev Vault (Key α : Type) := Interruptible (Disk Key) VaultError α

/-- A statement on the database. -/
def sql {α : Type} (f : CredentialDatabase → Except VaultError (α × CredentialDatabase)) :
    Vault Key α :=
  operation fun disk =>
    (f disk.database).map fun result => (result.1, { disk with database := result.2 })

/-- A statement that only reads. -/
def select {α : Type} (f : CredentialDatabase → α) : Vault Key α :=
  query fun disk => f disk.database

/-- A biometric prompt or a progress callback: it changes nothing, and may be where the
program ends. -/
def pause : Vault Key Unit := query fun _ => ()

def keyLen : Nat := 32

/-! ## `WrappedKey` -/

namespace Platform

variable (p : Platform Key Identity)

/-- `finishEncrypt`: `iv || ciphertext || tag`. -/
def wrapKey (key : Key) (iv : Octets 12) (contentKey : Bytes) : Bytes :=
  iv.val ++ p.encrypt key iv.val contentKey

/-- `decryptCipher` and `finishDecrypt`. -/
def unwrapKey (key : Key) (wrapped : Bytes) : Option Bytes :=
  if wrapped.length > 12 + 16 then p.decrypt key (wrapped.take 12) (wrapped.drop 12) else none

theorem wrapKey_length (key : Key) (iv : Octets 12) (contentKey : Bytes) :
    (p.wrapKey key iv contentKey).length = 12 + (contentKey.length + 16) := by
  rw [wrapKey, List.length_append, iv.2, p.encrypt_length]

theorem unwrapKey_wrapKey (key : Key) (iv : Octets 12) {contentKey : Bytes}
    (hlen : contentKey.length = keyLen) :
    p.unwrapKey key (p.wrapKey key iv contentKey) = some contentKey := by
  have hlong : (p.wrapKey key iv contentKey).length > 12 + 16 := by
    rw [wrapKey_length, hlen, keyLen]
    omega
  rw [unwrapKey, if_pos hlong, wrapKey, List.take_left' iv.2, List.drop_left' iv.2,
    p.decrypt_encrypt]

/-! ## `CredentialDekEnvelope` -/

variable (service : String)

/-- `DOMAIN + service`. -/
def dekAssociatedData : Bytes :=
  "conveyance-credential-dek-v2\u0000".toUTF8.data.toList ++ service.toUTF8.data.toList

def wrapDek (dek vaultKey : Bytes) (nonce : Octets 12) :
    Except VaultError Bytes := do
  require (dek.length = keyLen) "credential DEK must be 32 bytes"
  require (vaultKey.length = keyLen) "vault key must be 32 bytes"
  return nonce.val ++ p.aeadSeal vaultKey nonce.val dek (dekAssociatedData service)

def unwrapDek (wrapped vaultKey : Bytes) : Option Bytes :=
  if wrapped.length < 12 + 16 then none
  else
    (p.aeadOpen vaultKey (wrapped.take 12) (wrapped.drop 12) (dekAssociatedData service)).filter
      (·.length = keyLen)

theorem exists_wrapDek {dek vaultKey : Bytes} (nonce : Octets 12)
    (hdek : dek.length = keyLen) (hkey : vaultKey.length = keyLen) :
    ∃ wrapped, p.wrapDek service dek vaultKey nonce = .ok wrapped ∧
      p.unwrapDek service wrapped vaultKey = some dek := by
  refine ⟨nonce.val ++ p.aeadSeal vaultKey nonce.val dek (dekAssociatedData service), ?_, ?_⟩
  · rw [wrapDek, require_bind, require_bind]
    exact ⟨hdek, hkey, rfl⟩
  · have hlong : ¬(nonce.val ++ p.aeadSeal vaultKey nonce.val dek
        (dekAssociatedData service)).length < 12 + 16 := by
      rw [List.length_append, nonce.2, p.aeadSeal_length]
      omega
    rw [unwrapDek, if_neg hlong, List.take_left' nonce.2, List.drop_left' nonce.2,
      p.aeadOpen_aeadSeal]
    simp [hdek]

end Platform

/-! ## `Tier1KeyEnvelope` -/

namespace Tier1KeyEnvelope

variable (p : Platform Key Identity)

structure WrappedVaultKey where
  method : Tier1AuthMethod
  wrapped : Bytes
  salt : Option Bytes
  nonce : Option Bytes

def associatedData (method : Tier1AuthMethod) (generation : Bytes) : Bytes :=
  "conveyance-vault-key-v2\u0000".toUTF8.data.toList ++ [method.wireTag] ++ generation

variable (draws : Draws Key)

/-- `tier1.key()`: the version 2 key, generated if it is absent. -/
def tier1Key : Vault Key Key :=
  update fun disk =>
    let key := disk.keystore.tier1.getD draws.tier1Key
    (key, { disk with keystore := { disk.keystore with tier1 := some key } })

/-- `tier1.legacyKey() ?: throw IdentityInvalidatedException()`. -/
def legacyKey : Vault Key Key := do
  let key ← query fun disk => disk.keystore.legacyTier1
  match key with
  | some key => pure key
  | none => fail .identityInvalidated

/-- The key of a biometric envelope. -/
def envelopeKey (container : IdentityContainer) : Vault Key Key :=
  if container.version = IdentityContainer.legacyVersion then legacyKey else tier1Key draws

/-- The value a cipher finished with, or `IdentityUnlockFailedException`. -/
def finished (value : Option Bytes) : Vault Key Bytes :=
  match value with
  | some bytes => pure bytes
  | none => fail .identityUnlockFailed

def wrap (vaultKey generation : Bytes) (input : Tier1AuthInput) :
    Vault Key WrappedVaultKey := do
  ofExcept (require (vaultKey.length = keyLen) "Failed requirement.")
  ofExcept (require (generation.length = 16) "Failed requirement.")
  match input with
  | .biometric => do
    let key ← tier1Key draws
    pause
    return ⟨.biometric, p.wrapKey key draws.iv vaultKey, none, none⟩
  | .passphrase bytes =>
    return ⟨.passphrase,
      p.aeadSeal (p.deriveDek bytes draws.salt.val) draws.nonce.val vaultKey
        (associatedData .passphrase generation),
      some draws.salt.val, some draws.nonce.val⟩

def unwrap (container : IdentityContainer) (input : Tier1AuthInput) :
    Vault Key Bytes := do
  let storedMethod := container.authMethod.getD .biometric
  throwIf (input.method ≠ storedMethod) .authMethodMismatch
  match input with
  | .biometric => do
    let key ← envelopeKey draws container
    pause
    finished (p.unwrapKey key container.wrappedContentKey)
  | .passphrase bytes => do
    let salt ← finished container.salt
    let nonce ← finished container.nonce
    let generation ← finished container.generation
    finished (p.aeadOpen (p.deriveDek bytes salt) nonce container.wrappedContentKey
      (associatedData .passphrase generation))

end Tier1KeyEnvelope

/-! ## `CredentialWrapMigrator` -/

namespace CredentialWrapMigrator

variable (p : Platform Key Identity)

/-- A round of the staging loop: the new `completed`. -/
def stageRow (draws : Draws Key) (migration : CredentialWrapMigrationEntity) (vaultKey : Bytes)
    (unwrapLegacy : CredentialEntity → Vault Key Bytes) (completed : Int) (service : String) :
    Vault Key Int := do
  let row ← select (·.get service)
  match row with
  | none => fail (.credentialWrapMigration "credential disappeared during migration")
  | some row =>
    if CredentialDatabase.isStaged migration.migrationId row then pure completed
    else do
      throwIf (row.pendingMigrationId ≠ none ∨ row.pendingWrappedDek ≠ none)
        (.credentialWrapMigration "credential has an unrelated pending wrap")
      throwIf (row.dekWrapVersion ≠ legacyDekWrapVersion)
        (.credentialWrapMigration "credential wrap version changed during migration")
      let dek ← unwrapLegacy row
      let wrapped ← ofExcept (p.wrapDek service dek vaultKey (draws.dekNonce service))
      let staged ← sql fun db => .ok (db.stageLegacyDek service migration.migrationId wrapped)
      if staged ≠ 1 then do
        let latest ← select (·.get service)
        throwIf (¬latest.any (CredentialDatabase.isStaged migration.migrationId))
          (.credentialWrapMigration "could not stage credential wrap")
        pure completed
      else do
        -- `onProgress(completed, migration.expectedRows)`
        pause
        pure (completed + 1)

/-- The journal is written, or the one that is there is this migration's. -/
def openJournal (migration : CredentialWrapMigrationEntity) : Vault Key Unit := do
  let active ← select (·.migration)
  match active with
  | none => sql fun db => db.insertMigration migration
  | some active =>
    throwIf (¬active.sameMigration migration)
      (.credentialWrapMigration "a different credential migration is pending")

def stageLegacyRowsUnlocked (draws : Draws Key) (migration : CredentialWrapMigrationEntity)
    (vaultKey : Bytes) (unwrapLegacy : CredentialEntity → Vault Key Bytes) : Vault Key Unit := do
  ofExcept (require (migration.singletonId = 1) "Failed requirement.")
  ofExcept (require (migration.sourceIdentityHash.length = 32) "Failed requirement.")
  ofExcept (require (migration.targetGeneration.length = 16) "Failed requirement.")
  ofExcept (require (migration.expectedRows ≥ 0) "Failed requirement.")
  openJournal migration
  let services ← select (·.legacyServices)
  let rows ← select (·.countRows)
  throwIf (services.length ≠ migration.expectedRows ∨ rows ≠ migration.expectedRows)
    (.credentialWrapMigration "credential set changed during migration")
  let completed ← select (·.countStagedRows migration.migrationId)
  pause
  let _ ← services.foldlM (stageRow p draws migration vaultKey unwrapLegacy) completed
  let rows ← select (·.countRows)
  let legacy ← select (·.countLegacyRows)
  let staged ← select (·.countStagedRows migration.migrationId)
  throwIf (rows ≠ migration.expectedRows ∨ legacy ≠ migration.expectedRows ∨
      staged ≠ migration.expectedRows)
    (.credentialWrapMigration "credential migration staging is incomplete")

def promoteUnlocked (migration : CredentialWrapMigrationEntity) : Vault Key Unit :=
  sql fun db => db.promote migration

end CredentialWrapMigrator

/-! ## `IdentityVault` -/

namespace IdentityVault

open Tier1KeyEnvelope CredentialWrapMigrator

variable (p : Platform Key Identity)

/-- `writeContainer`: an `AtomicFile` is replaced as a whole. -/
def writeContainer (container : IdentityContainer) : Vault Key Unit := do
  let bytes ← ofExcept container.encode
  update fun disk => ((), { disk with identityFile := bytes })

section

variable (draws : Draws Key)

/-- `runCatching { tier1.deleteLegacyKey() }`. -/
def deleteLegacyKey : Vault Key Unit :=
  update fun disk =>
    ((), if draws.deletes then
        { disk with keystore := { disk.keystore with legacyTier1 := none } }
      else disk)

def unwrapLegacyDek (row : CredentialEntity) : Vault Key Bytes := do
  let key ← legacyKey
  pause
  finished (p.unwrapKey key row.wrappedDek)

/-- The journal of a new migration. -/
def newMigration (sourceHash : Bytes) (legacyRows : Int) :
    CredentialWrapMigrationEntity :=
  ⟨1, draws.migrationId, sourceHash, draws.targetGeneration.val, Tier1AuthMethod.biometric.name,
    legacyRows⟩

/-- The pending migration, or a new one. -/
def pendingOrNew (sourceHash : Bytes) :
    Vault Key CredentialWrapMigrationEntity := do
  let existing ← select (·.migration)
  match existing with
  | some migration => pure migration
  | none => do
    let legacyRows ← select (·.countLegacyRows)
    pure (newMigration draws sourceHash legacyRows)

def migrateLegacyIdentity (sourceBytes vaultKey : Bytes)
    (input : Tier1AuthInput) : Vault Key Bytes := do
  throwIf (input.method ≠ .biometric) .authMethodMismatch
  let sourceHash := (p.sha256 sourceBytes).val
  let migration ← pendingOrNew draws sourceHash
  throwIf (migration.sourceIdentityHash ≠ sourceHash ∨
      migration.targetAuthMethod ≠ Tier1AuthMethod.biometric.name)
    (.credentialWrapMigration "pending migration does not match the legacy identity")
  stageLegacyRowsUnlocked p draws migration vaultKey (unwrapLegacyDek p)
  let wrapped ← wrap p draws vaultKey migration.targetGeneration input
  let source ← ofExcept (IdentityContainer.decode sourceBytes)
  writeContainer ⟨wrapped.wrapped, source.sealedBlob, some wrapped.method, wrapped.salt,
    wrapped.nonce, some migration.targetGeneration, IdentityContainer.currentVersion⟩
  promoteUnlocked migration
  deleteLegacyKey draws
  return migration.targetGeneration

def finishCommittedMigration (container : IdentityContainer)
    (generation : Bytes) : Vault Key Unit := do
  let journal ← select (·.migration)
  match journal with
  | some journal => do
    throwIf (journal.targetGeneration ≠ generation ∨
        some journal.targetAuthMethod ≠ container.authMethod.map Tier1AuthMethod.name)
      (.credentialWrapMigration "identity and credential migration journal disagree")
    promoteUnlocked journal
    deleteLegacyKey draws
  | none => do
    let legacyRows ← select (·.countLegacyRows)
    throwIf (legacyRows ≠ 0)
      (.credentialWrapMigration "legacy credential wraps have no migration journal")

def unlockInternal (input : Tier1AuthInput) :
    Vault Key (UnlockedPhoneSession Identity) := do
  let sourceBytes ← query (·.identityFile)
  let container ← ofExcept (IdentityContainer.decode sourceBytes)
  let vaultKey ← unwrap p draws container input
  match p.openSealedIdentity container.sealedBlob vaultKey with
  | none => fail (.identityCorrupt "identity.enc will not open")
  | some identity =>
    if container.version = IdentityContainer.legacyVersion then do
      let generation ← migrateLegacyIdentity p draws sourceBytes vaultKey input
      return ⟨identity, .biometric, generation, vaultKey⟩
    else do
      let generation ← ofExcept (requireNotNull container.generation "Required value was null.")
      finishCommittedMigration draws container generation
      let method ← ofExcept (requireNotNull container.authMethod "Required value was null.")
      return ⟨identity, method, generation, vaultKey⟩

end

/-- One call of `unlock`: what it is given, and where it is interrupted. -/
structure Unlocking (Key : Type) where
  input : Tier1AuthInput
  draws : Draws Key
  budget : Budget

/-- `unlock`: the disk it leaves behind and how it ended. -/
def unlock (disk : Disk Key) (call : Unlocking Key) :
    Disk Key × Outcome VaultError (UnlockedPhoneSession Identity) :=
  let run := unlockInternal p call.draws call.input call.budget disk
  (run.2.1, run.1)

/-- The disk after calls made one after the other. -/
def unlocks (disk : Disk Key) (calls : List (Unlocking Key)) : Disk Key :=
  calls.foldl (fun disk call => (unlock p disk call).1) disk

end IdentityVault

/-! ## Rules for the vault's operations -/

section Rules

open Tier1KeyEnvelope IdentityVault

variable {p : Platform Key Identity} {draws : Draws Key} {disk : Disk Key} {key : Key}
  {row : CredentialEntity} {E : VaultError → Disk Key → Prop} {C : Disk Key → Prop} {α β : Type}
  {k : Unit → Vault Key β} {Q : β → Disk Key → Prop}

theorem wp_pause (hC : C disk) (h : Wp (k ()) Q E C disk) : Wp (pause >>= k) Q E C disk :=
  wp_bind (wp_query hC rfl h)

theorem wp_select {k : α → Vault Key β} {f : CredentialDatabase → α} {a : α} (hC : C disk)
    (hf : f disk.database = a) (h : Wp (k a) Q E C disk) : Wp (select f >>= k) Q E C disk :=
  wp_bind (wp_query hC hf h)

theorem wp_sql {α : Type} {Q : α → Disk Key → Prop}
    {f : CredentialDatabase → Except VaultError (α × CredentialDatabase)} {a : α}
    {database : CredentialDatabase} (hC : C disk) (hf : f disk.database = .ok (a, database))
    (h : Q a { disk with database := database }) : Wp (sql f) Q E C disk :=
  wp_operation hC (by rw [hf]; rfl) h

theorem wp_legacyKey {Q : Key → Disk Key → Prop} (hC : C disk)
    (hkey : disk.keystore.legacyTier1 = some key) (h : Q key disk) : Wp legacyKey Q E C disk := by
  apply wp_bind
  apply wp_query hC hkey
  exact wp_pure h

theorem wp_finished {Q : Bytes → Disk Key → Prop} {value : Option Bytes}
    {bytes : Bytes} (hvalue : value = some bytes) (h : Q bytes disk) :
    Wp (finished value) Q E C disk := by
  rw [hvalue]
  exact wp_pure h

theorem wp_require {condition : Prop} [Decidable condition] {message : String}
    (hc : condition) (h : Wp (k ()) Q E C disk) :
    Wp (ofExcept (require condition message) >>= k) Q E C disk :=
  wp_ofExcept (if_pos hc) h

theorem wp_tier1Key {Q : Key → Disk Key → Prop} (hC : C disk)
    (hkey : disk.keystore.tier1 = some key) (h : Q key disk) : Wp (tier1Key draws) Q E C disk := by
  refine wp_update hC ?_
  obtain ⟨file, database, legacy, tier1⟩ := disk
  dsimp only at hkey
  subst hkey
  exact h

theorem wp_unwrapLegacyDek {Q : Bytes → Disk Key → Prop} {dek : Bytes}
    (hC : C disk) (hkey : disk.keystore.legacyTier1 = some key)
    (hdek : p.unwrapKey key row.wrappedDek = some dek) (h : Q dek disk) :
    Wp (unwrapLegacyDek p row) Q E C disk := by
  apply wp_bind
  apply wp_legacyKey hC hkey
  apply wp_pause hC
  exact wp_finished hdek h

end Rules

end

end Conveyance.Phone
