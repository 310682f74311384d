import Conveyance.Lib.Envelope
import Conveyance.Phone.IdentityVault
import Mathlib.Data.Option.Basic

/-!
# The credential store (android, storage/credentials/CredentialStore.kt)

`add`, `remove` and `open`, with the writes of `CredentialDao.kt` and the blobs of
`conveyance-crypto`'s `sealed.rs`. A secret is sealed under a DEK of its own, with nothing but
the format's version as associated data; the DEK is wrapped under the vault key for a service.
The two are columns of one row, and neither knows of the other.

A `StoreRun` is the database with the calls that returned. What an adversary may do is
`Rearranged`: any rows, as long as their columns hold what was in some row's columns at some
time. The columns may be exchanged, too.
-/

namespace Conveyance.Phone

open Lib

inductive CredentialException where
  | notFound (service : String)
  | undecryptable (service : String)
  | migrationRequired
deriving DecidableEq

def CredentialException.message : CredentialException → String
  | .notFound service => s!"no credential stored for '{service}'"
  | .undecryptable service => s!"the credential for '{service}' will not decrypt"
  | .migrationRequired => "credential storage migration is not complete"

/-- What `add` throws. -/
inductive AddError where
  | credential (exception : CredentialException)
  /-- The system has no entropy for `sealCredential`. -/
  | entropy
  /-- "Tier 1 session is closed". -/
  | sessionClosed
  /-- A `require` of the envelope. -/
  | envelope (error : VaultError)

/-! ## `CredentialDao` -/

namespace CredentialDatabase

variable (db : CredentialDatabase)

/-- The rows of other services. -/
def others (service : String) : List CredentialEntity :=
  db.credentials.filter (·.service ≠ service)

theorem others_nodup (service : String) : ((db.others service).map (·.service)).Nodup :=
  db.key.sublist (List.filter_sublist.map _)

/-- `OnConflictStrategy.REPLACE`. -/
def upsert (entity : CredentialEntity) : CredentialDatabase where
  credentials := db.others entity.service ++ [entity]
  key := by
    rw [List.map_append, List.nodup_append]
    refine ⟨db.others_nodup entity.service, List.nodup_singleton _, ?_⟩
    intro service hservice service' hservice' heq
    obtain ⟨row, hrow, rfl⟩ := List.mem_map.mp hservice
    have hother : row.service ≠ entity.service := by simpa using (List.mem_filter.mp hrow).2
    exact hother (heq.trans (List.mem_singleton.mp hservice'))
  journal := db.journal

/-- The number of rows deleted, and the table. -/
def delete (service : String) : Int × CredentialDatabase :=
  (db.credentials.countP (·.service = service),
    { db with credentials := db.others service, key := db.others_nodup service })

theorem find?_others (service service' : String) :
    (db.others service).find? (·.service = service') =
      if service = service' then none else db.get service' := by
  rw [others, List.find?_filter]
  split_ifs with h
  · subst h
    exact List.find?_eq_none.mpr (by simp)
  · refine congrArg (fun f => db.credentials.find? f) (funext fun row => ?_)
    by_cases hrow : row.service = service'
    · simp [hrow, Ne.symm h]
    · simp [hrow]

theorem get_upsert (entity : CredentialEntity) (service : String) :
    (db.upsert entity).get service =
      if entity.service = service then some entity else db.get service := by
  show (db.others entity.service ++ [entity]).find? (·.service = service) = _
  rw [List.find?_append, find?_others]
  split_ifs with h <;> simp [h]

theorem get_delete (service service' : String) :
    (db.delete service).2.get service' = if service = service' then none else db.get service' :=
  db.find?_others service service'

end CredentialDatabase

section

variable {Key Identity : Type} (p : Platform Key Identity)

/-! ## `sealed.rs` -/

namespace Platform

def credentialV1 : UInt8 := 1

/-- `sealed::seal`: `version || nonce || ciphertext || tag`. -/
def sealVersioned (version : UInt8) (key plaintext : Bytes) (nonce : Octets 12) : Bytes :=
  version :: (nonce.val ++ p.aeadSeal key nonce.val plaintext [version])

/-- `sealed::open`. -/
def openVersioned (version : UInt8) (key blob : Bytes) : Option Bytes :=
  if blob.length < 13 + 16 ∨ blob.head? ≠ some version then none
  else p.aeadOpen key ((blob.drop 1).take 12) (blob.drop 13) [version]

def sealCredential (secret dek : Bytes) (nonce : Octets 12) : Bytes :=
  p.sealVersioned credentialV1 dek secret nonce

def openCredential (blob dek : Bytes) : Option Bytes := p.openVersioned credentialV1 dek blob

theorem openCredential_sealCredential (secret dek : Bytes) (nonce : Octets 12) :
    p.openCredential (p.sealCredential secret dek nonce) dek = some secret := by
  have hlong : ¬((p.sealCredential secret dek nonce).length < 13 + 16 ∨
      (p.sealCredential secret dek nonce).head? ≠ some credentialV1) := by
    rw [sealCredential, sealVersioned, List.length_cons, List.length_append, nonce.2,
      p.aeadSeal_length, List.head?_cons]
    simp
    omega
  have hnonce : ((p.sealCredential secret dek nonce).drop 1).take 12 = nonce.val :=
    List.take_left' nonce.2
  have hciphertext : (p.sealCredential secret dek nonce).drop 13 =
      p.aeadSeal dek nonce.val secret [credentialV1] := List.drop_left' nonce.2
  rw [openCredential, openVersioned, if_neg hlong, hnonce, hciphertext, p.aeadOpen_aeadSeal]

end Platform

/-! ## `CredentialStore` -/

/-- What an `add` draws. -/
structure AddDraws where
  dek : Octets 32
  /-- The system has entropy for the nonce of `sealCredential`. -/
  entropy : Bool
  secretNonce : Octets 12
  dekNonce : Octets 12
  /-- `System.currentTimeMillis() / 1000`. -/
  createdAt : Int

namespace CredentialStore

/-- The row of a secret. -/
def entity (service : String) (secret wrappedDek : Bytes) (draws : AddDraws) : CredentialEntity :=
  ⟨service, p.sealCredential secret draws.dek.val draws.secretNonce, wrappedDek, draws.createdAt,
    vaultDekWrapVersion, none, none⟩

/-- `add`. A session is its vault key, or none once it is closed. -/
def add (db : CredentialDatabase) (service : String) (secret : Bytes) (session : Option Bytes)
    (draws : AddDraws) : Except AddError CredentialDatabase :=
  if db.migration ≠ none then .error (.credential .migrationRequired)
  else if ¬draws.entropy then .error .entropy
  else
    match session with
    | none => .error .sessionClosed
    | some vaultKey =>
      match p.wrapDek service draws.dek.val vaultKey draws.dekNonce with
      | .error error => .error (.envelope error)
      | .ok wrappedDek => .ok (db.upsert (entity p service secret wrappedDek draws))

/-- `remove`: whether a row was removed. -/
def remove (db : CredentialDatabase) (service : String) :
    Except CredentialException (Bool × CredentialDatabase) :=
  if db.migration ≠ none then .error .migrationRequired
  else .ok (decide ((db.delete service).1 > 0), (db.delete service).2)

/-- Both layers of a row. A closed session, a vault key of another length, an envelope and a blob
that do not open are all the same to the caller. -/
def decrypt (service : String) (row : CredentialEntity) (session : Option Bytes) :
    Option Bytes := do
  let vaultKey ← session
  guard (vaultKey.length = keyLen)
  let dek ← p.unwrapDek service row.wrappedDek vaultKey
  p.openCredential row.secretCiphertext dek

/-- `open`. -/
def openService (db : CredentialDatabase) (service : String) (session : Option Bytes) :
    Except CredentialException Bytes :=
  if db.migration ≠ none then .error .migrationRequired
  else
    match db.get service with
    | none => .error (.notFound service)
    | some row =>
      if row.dekWrapVersion ≠ vaultDekWrapVersion then .error .migrationRequired
      else
        match decrypt p service row session with
        | none => .error (.undecryptable service)
        | some secret => .ok secret

/-! ## Histories -/

/-- A call, with a session of the vault key. -/
inductive StoreCall where
  | add (service : String) (secret : Bytes) (closed : Bool) (draws : AddDraws)
  | remove (service : String)

/-- A call that returned. -/
inductive StoreEvent where
  | added (service : String) (secret : Bytes) (draws : AddDraws)
  | removed (service : String)

/-- The database, and what was done to it. -/
structure StoreRun where
  database : CredentialDatabase
  past : List StoreEvent

def StoreRun.new : StoreRun := ⟨⟨[], List.nodup_nil, none⟩, []⟩

variable (vaultKey : Bytes)

/-- A call that throws changes nothing. -/
def step (s : StoreRun) : StoreCall → StoreRun
  | .add service secret closed draws =>
    match add p s.database service secret (if closed then none else some vaultKey) draws with
    | .ok database => ⟨database, s.past ++ [.added service secret draws]⟩
    | .error _ => s
  | .remove service =>
    match remove s.database service with
    | .ok (_, database) => ⟨database, s.past ++ [.removed service]⟩
    | .error _ => s

section

variable (calls : List StoreCall)

def run : StoreRun := calls.foldl (step p vaultKey) .new

/-- What a service holds, going by the calls alone. -/
def latest (past : List StoreEvent) (service : String) : Option (Bytes × AddDraws) :=
  past.foldl (fun held event =>
    match event with
    | .added service' secret draws => if service' = service then some (secret, draws) else held
    | .removed service' => if service' = service then none else held) none

/-! ## What an adversary may do, and what the cipher holds against it -/

/-- The value was in a column of some row at some time. -/
def EverStored (value : Bytes) : Prop :=
  ∃ earlier later, calls = earlier ++ later ∧
    ∃ row ∈ (run p vaultKey earlier).database.credentials,
      value = row.secretCiphertext ∨ value = row.wrappedDek

/-- Rows under any name, with columns copied, exchanged or rolled back. -/
def Rearranged (db : CredentialDatabase) : Prop :=
  ∀ row ∈ db.credentials,
    EverStored p vaultKey calls row.secretCiphertext ∧ EverStored p vaultKey calls row.wrappedDek

/-- The nonce and the ciphertext that `open` takes a stored value for: a wrapped DEK or a blob. -/
def Submitted (nonce ciphertext : Bytes) : Prop :=
  ∃ value, EverStored p vaultKey calls value ∧
    ((nonce = value.take 12 ∧ ciphertext = value.drop 12) ∨
      nonce = (value.drop 1).take 12 ∧ ciphertext = value.drop 13)

def StoreEvent.envelope : StoreEvent → Option (Envelope Bytes Bytes String)
  | .added service secret draws =>
    some ⟨service, draws.dek.val, secret, draws.dekNonce.val, draws.secretNonce.val⟩
  | .removed _ => none

def envelopes (past : List StoreEvent) : List (Envelope Bytes Bytes String) :=
  past.filterMap StoreEvent.envelope

/-- Every `add` drew a DEK of its own. -/
def FreshDeks : Prop :=
  ((envelopes (run p vaultKey calls).past).map Envelope.key).Nodup

/-- Under the vault key and the DEKs, what was stored opens to nothing but what was sealed. -/
def IdealCipher : Prop :=
  OpensOnly p.aeadOpen
    ((envelopes (run p vaultKey calls).past).flatMap
      (Envelope.sealings p.aeadSeal vaultKey Platform.dekAssociatedData [Platform.credentialV1]))
    (fun key => key = vaultKey ∨ ∃ e ∈ envelopes (run p vaultKey calls).past, e.key = key)
    (Submitted p vaultKey calls)

end

/-! ## Services are told apart -/

theorem dekAssociatedData_injective : Function.Injective Platform.dekAssociatedData :=
  fun _ _ heq => toUTF8_inj (List.append_cancel_left heq)

/-- A wrapped DEK is no blob, and the other way round. -/
theorem dekAssociatedData_ne (service : String) :
    Platform.dekAssociatedData service ≠ [Platform.credentialV1] := by
  intro heq
  have hlength := congrArg List.length heq
  rw [Platform.dekAssociatedData, List.length_append] at hlength
  have hdomain : "conveyance-credential-dek-v2\u0000".toUTF8.data.toList.length = 29 := by
    decide +kernel
  rw [hdomain, List.length_singleton] at hlength
  omega

variable {p vaultKey} {db : CredentialDatabase} {service : String} {secret : Bytes}

/-- The two openings behind a row that is decrypted. -/
theorem decrypt_eq_some {row : CredentialEntity}
    (h : decrypt p service row (some vaultKey) = some secret) :
    ∃ dek, p.aeadOpen vaultKey (row.wrappedDek.take 12) (row.wrappedDek.drop 12)
        (Platform.dekAssociatedData service) = some dek ∧
      p.aeadOpen dek ((row.secretCiphertext.drop 1).take 12) (row.secretCiphertext.drop 13)
        [Platform.credentialV1] = some secret := by
  obtain ⟨_, -, h⟩ := Option.bind_eq_some_iff.mp h
  obtain ⟨dek, hdek, h⟩ := Option.bind_eq_some_iff.mp h
  unfold Platform.unwrapDek at hdek
  unfold Platform.openCredential Platform.openVersioned at h
  split_ifs at hdek h
  exact ⟨dek, (Option.filter_eq_some_iff.mp hdek).1, h⟩

variable {session : Option Bytes} {draws : AddDraws} {s : StoreRun}

theorem openService_eq_ok (h : openService p db service session = .ok secret) :
    ∃ row ∈ db.credentials, decrypt p service row session = some secret := by
  unfold openService at h
  split_ifs at h
  split at h
  next => cases h
  next row hrow =>
    split_ifs at h
    split at h
    next => cases h
    next found hfound =>
      cases h
      exact ⟨row, List.mem_of_find?_eq_some hrow, hfound⟩

/-- **Whatever the rows are**, a secret that comes out for a service was added for it. -/
theorem added_of_opened {calls : List StoreCall} (hideal : IdealCipher p vaultKey calls)
    (hfresh : FreshDeks p vaultKey calls) (hrows : Rearranged p vaultKey calls db)
    (h : openService p db service (some vaultKey) = .ok secret) :
    ∃ draws, .added service secret draws ∈ (run p vaultKey calls).past := by
  obtain ⟨row, hrow, hdecrypt⟩ := openService_eq_ok h
  obtain ⟨dek, hdek, hsecret⟩ := decrypt_eq_some hdecrypt
  obtain ⟨hciphertext, hwrapped⟩ := hrows row hrow
  obtain ⟨e, he, rfl, rfl⟩ := Envelope.bound dekAssociatedData_injective dekAssociatedData_ne hfresh
    hideal ⟨_, hwrapped, .inl ⟨rfl, rfl⟩⟩ ⟨_, hciphertext, .inr ⟨rfl, rfl⟩⟩ hdek hsecret
  obtain ⟨event, hevent, henvelope⟩ := List.mem_filterMap.mp he
  cases event with
  | added service secret draws =>
    obtain rfl := Option.some.inj henvelope
    exact ⟨draws, hevent⟩
  | removed service => cases henvelope

/-! ## Rows that nobody touched -/

/-- A row that opens for its service. -/
structure RowFor (p : Platform Key Identity) (vaultKey : Bytes) (service : String)
    (row : CredentialEntity) (held : Bytes × AddDraws) : Prop where
  version : row.dekWrapVersion = vaultDekWrapVersion
  opens : decrypt p service row (some vaultKey) = some held.1

/-- The database is in no migration, and its rows are the ones the calls say. -/
structure Kept (p : Platform Key Identity) (vaultKey : Bytes) (s : StoreRun) : Prop where
  journal : s.database.journal = none
  rows : ∀ service,
    Option.Rel (RowFor p vaultKey service) (s.database.get service) (latest s.past service)

theorem decrypt_entity {wrappedDek : Bytes}
    (h : p.wrapDek service draws.dek.val vaultKey draws.dekNonce = .ok wrappedDek) :
    decrypt p service (entity p service secret wrappedDek draws) (some vaultKey) = some secret := by
  have hkey : vaultKey.length = keyLen := by
    rw [Platform.wrapDek, require_bind, require_bind] at h
    exact h.2.1
  obtain ⟨wrapped, hwrap, hunwrap⟩ := p.exists_wrapDek service draws.dekNonce draws.dek.2 hkey
  obtain rfl : wrapped = wrappedDek := Except.ok.inj (hwrap.symm.trans h)
  simp [decrypt, entity, hkey, hunwrap, p.openCredential_sealCredential]

theorem add_eq_ok {db' : CredentialDatabase} (h : add p db service secret session draws = .ok db') :
    ∃ vaultKey row, session = some vaultKey ∧ row.service = service ∧
      RowFor p vaultKey service row (secret, draws) ∧ db' = db.upsert row := by
  unfold add at h
  split_ifs at h
  cases session with
  | none => cases h
  | some vaultKey =>
    dsimp only at h
    split at h
    next => cases h
    next wrappedDek hwrap =>
      exact ⟨vaultKey, _, rfl, rfl, ⟨rfl, decrypt_entity hwrap⟩, (Except.ok.inj h).symm⟩

theorem latest_added (past : List StoreEvent) (added : String) (draws : AddDraws) :
    latest (past ++ [.added added secret draws]) service =
      if added = service then some (secret, draws) else latest past service := by
  rw [latest, List.foldl_append]
  rfl

theorem latest_removed (past : List StoreEvent) (removed : String) :
    latest (past ++ [.removed removed]) service =
      if removed = service then none else latest past service := by
  rw [latest, List.foldl_append]
  rfl

theorem kept_new : Kept p vaultKey .new := ⟨rfl, fun _ => .none⟩

theorem kept_step (h : Kept p vaultKey s) (call : StoreCall) :
    Kept p vaultKey (step p vaultKey s call) := by
  unfold step
  cases call with
  | add service secret closed draws =>
    dsimp only
    cases hadd : add p s.database service secret (if closed then none else some vaultKey) draws with
    | error error => exact h
    | ok database =>
      obtain ⟨vaultKey', row, hsession, hservice, hrow, rfl⟩ := add_eq_ok hadd
      obtain rfl : vaultKey = vaultKey' := by
        split_ifs at hsession
        exact Option.some.inj hsession
      refine ⟨h.journal, fun service' => ?_⟩
      dsimp only
      rw [CredentialDatabase.get_upsert, latest_added, hservice]
      split_ifs with hsame
      · subst hsame
        exact .some hrow
      · exact h.rows service'
  | remove service =>
    dsimp only
    cases hremove : remove s.database service with
    | error exception => exact h
    | ok result =>
      unfold remove at hremove
      split_ifs at hremove
      obtain rfl := Except.ok.inj hremove
      refine ⟨h.journal, fun service' => ?_⟩
      dsimp only
      rw [CredentialDatabase.get_delete, latest_removed]
      split_ifs
      · exact .none
      · exact h.rows service'

theorem kept_run (calls : List StoreCall) : Kept p vaultKey (run p vaultKey calls) :=
  List.foldlRecOn calls (step p vaultKey) kept_new fun _ h call _ => kept_step h call

theorem Kept.opens (h : Kept p vaultKey s) (service : String) :
    openService p s.database service (some vaultKey) =
      (latest s.past service).elim (.error (.notFound service)) fun held => .ok held.1 := by
  have hmigration : s.database.migration = none := by
    rw [CredentialDatabase.migration, h.journal]
    rfl
  unfold openService
  rw [if_neg (not_not.mpr hmigration)]
  have hrow := h.rows service
  generalize s.database.get service = found at hrow ⊢
  generalize latest s.past service = held at hrow ⊢
  cases hrow with
  | none => rfl
  | some hrow =>
    dsimp only
    rw [if_neg (not_not.mpr hrow.version), hrow.opens]
    rfl

/-- **Credentials are bound to their service.** Under an ideal cipher and fresh DEKs, whatever
is done to the columns, `open` fails or gives a secret that was added for the service; and while
nothing is done to them, it gives the one that was added last, or finds none. -/
theorem credentials_bound_to_service (p : Platform Key Identity) (vaultKey : Bytes)
    (calls : List StoreCall) :
    (IdealCipher p vaultKey calls → FreshDeks p vaultKey calls →
      ∀ db, Rearranged p vaultKey calls db → ∀ service secret,
        openService p db service (some vaultKey) = .ok secret →
          ∃ draws, .added service secret draws ∈ (run p vaultKey calls).past) ∧
    ∀ service, openService p (run p vaultKey calls).database service (some vaultKey) =
      (latest (run p vaultKey calls).past service).elim (.error (.notFound service))
        fun held => .ok held.1 :=
  ⟨fun hideal hfresh _ hrows _ _ h => added_of_opened hideal hfresh hrows h,
    (kept_run calls).opens⟩

end CredentialStore

end

namespace CredentialStore

/-! ### A cipher that tells two uses of a key apart -/

/-- The uses of associated data in a store with one service, "mail". -/
def mailUse (aad : Bytes) : UInt8 :=
  if aad = [Platform.credentialV1] then 1
  else if aad = Platform.dekAssociatedData "mail" then 2
  else 0

/-- A tag that names the key, the use and the length. -/
def mailTag (key plaintext : Bytes) (use : UInt8) : Bytes :=
  [key.headD 0, use, UInt8.ofNat plaintext.length] ++ List.replicate 13 0

def mailOpen (key ciphertext : Bytes) (use : UInt8) : Option Bytes :=
  let plaintext := ciphertext.take (ciphertext.length - 16)
  if ciphertext.drop (ciphertext.length - 16) = mailTag key plaintext use then some plaintext
  else none

def mailPlatform : Platform Unit Unit where
  encrypt _ _ plaintext := plaintext ++ List.replicate 16 0
  decrypt _ _ ciphertext := some (ciphertext.take (ciphertext.length - 16))
  decrypt_encrypt _ _ plaintext := by simp
  encrypt_length _ _ plaintext := by simp
  aeadSeal key _ plaintext aad := plaintext ++ mailTag key plaintext (mailUse aad)
  aeadOpen key _ ciphertext aad := mailOpen key ciphertext (mailUse aad)
  aeadOpen_aeadSeal key _ plaintext aad := by simp [mailOpen, mailTag]
  aeadSeal_length _ _ plaintext _ := by simp [mailTag]
  deriveDek passphrase _ := passphrase
  sha256 _ := .replicate 32 0
  openSealedIdentity _ _ := some ()

def mailVaultKey : Bytes := List.replicate 32 7

def mailDraw (octet : UInt8) : AddDraws :=
  ⟨.replicate 32 octet, true, .replicate 12 octet, .replicate 12 octet, 0⟩

/-- The secret of a service is replaced. -/
def mailCalls : List StoreCall :=
  [.add "mail" [1] false (mailDraw 1), .add "mail" [2] false (mailDraw 2)]

/-- The row as it was before. -/
def rolledBack : CredentialDatabase :=
  (run mailPlatform mailVaultKey (mailCalls.take 1)).database

/-- What was stored at some time. -/
def mailValues : List Bytes :=
  (rolledBack.credentials ++ (run mailPlatform mailVaultKey mailCalls).database.credentials).flatMap
    fun row => [row.secretCiphertext, row.wrappedDek]

theorem mem_mailValues {value : Bytes} (h : EverStored mailPlatform mailVaultKey mailCalls value) :
    value ∈ mailValues := by
  obtain ⟨earlier, later, hcalls, row, hrow, hvalue⟩ := h
  have hrows : row ∈ rolledBack.credentials ++
      (run mailPlatform mailVaultKey mailCalls).database.credentials := by
    -- none, one or both of the calls
    cases earlier with
    | nil => exact absurd hrow List.not_mem_nil
    | cons first earlier =>
      obtain ⟨rfl, hrest⟩ := List.cons.inj hcalls
      cases earlier with
      | nil => exact List.mem_append_left _ hrow
      | cons second earlier =>
        obtain ⟨rfl, hnone⟩ := List.cons.inj hrest
        obtain ⟨rfl, -⟩ := List.append_eq_nil_iff.mp hnone.symm
        exact List.mem_append_right _ hrow
  refine List.mem_flatMap.mpr ⟨row, hrows, ?_⟩
  rcases hvalue with rfl | rfl
  · exact List.mem_cons_self
  · exact List.mem_cons_of_mem _ List.mem_cons_self

/-- The keys in use, and the associated data. -/
def mailKeys : List Bytes := [mailVaultKey, (mailDraw 1).dek.val, (mailDraw 2).dek.val]

def mailAads : List Bytes := [[Platform.credentialV1], Platform.dekAssociatedData "mail"]

theorem mem_mailAads {aad : Bytes} (h : mailUse aad ≠ 0) : aad ∈ mailAads := by
  unfold mailUse at h
  split_ifs at h with hinner houter
  · exact hinner ▸ List.mem_cons_self
  · exact houter ▸ List.mem_cons_of_mem _ List.mem_cons_self
  · exact absurd rfl h

/-- The cuts of what was stored. -/
def mailTexts : List (Bytes × Bytes) :=
  mailValues.flatMap fun value =>
    [(value.take 12, value.drop 12), ((value.drop 1).take 12, value.drop 13)]

def mailSealings : List (Sealing Bytes Bytes Bytes Bytes) :=
  (envelopes (run mailPlatform mailVaultKey mailCalls).past).flatMap
    (Envelope.sealings mailPlatform.aeadSeal mailVaultKey Platform.dekAssociatedData
      [Platform.credentialV1])

theorem mail_cipher_opens :
    (∀ key ∈ mailKeys, ∀ text ∈ mailTexts, mailOpen key text.2 0 = none) ∧
      ∀ key ∈ mailKeys, ∀ text ∈ mailTexts, ∀ aad ∈ mailAads,
        ∀ plaintext ∈ mailOpen key text.2 (mailUse aad),
          (⟨key, text.1, plaintext, aad, text.2⟩ : Sealing _ _ _ _) ∈ mailSealings := by
  decide +kernel

theorem mail_deks :
    ∀ e ∈ envelopes (run mailPlatform mailVaultKey mailCalls).past, e.key ∈ mailKeys := by
  decide +kernel

theorem mail_cipher_ideal : IdealCipher mailPlatform mailVaultKey mailCalls := by
  intro key nonce ciphertext aad plaintext hkey hsubmitted hopen
  have hkey : key ∈ mailKeys := by
    rcases hkey with rfl | ⟨e, he, rfl⟩
    · exact List.mem_cons_self
    · exact mail_deks e he
  have htext : (nonce, ciphertext) ∈ mailTexts := by
    obtain ⟨value, hstored, hcut⟩ := hsubmitted
    refine List.mem_flatMap.mpr ⟨value, mem_mailValues hstored, ?_⟩
    rcases hcut with ⟨rfl, rfl⟩ | ⟨rfl, rfl⟩
    · exact List.mem_cons_self
    · exact List.mem_cons_of_mem _ List.mem_cons_self
  have huse : mailUse aad ≠ 0 := by
    intro huse
    have hnone := mail_cipher_opens.1 key hkey _ htext
    rw [← huse] at hnone
    cases hnone.symm.trans hopen
  exact mail_cipher_opens.2 key hkey _ htext aad (mem_mailAads huse) plaintext hopen

theorem rolled_back_secret_was_added :
    openService mailPlatform rolledBack "mail" (some mailVaultKey) = .ok [1] ∧
      (∃ draws, .added "mail" [1] draws ∈ (run mailPlatform mailVaultKey mailCalls).past) ∧
      openService mailPlatform (run mailPlatform mailVaultKey mailCalls).database "mail"
        (some mailVaultKey) = .ok [2] := by
  have hfresh : FreshDeks mailPlatform mailVaultKey mailCalls := by
    unfold FreshDeks
    decide +kernel
  have hrows : Rearranged mailPlatform mailVaultKey mailCalls rolledBack := fun row hrow =>
    ⟨⟨mailCalls.take 1, mailCalls.drop 1, rfl, row, hrow, .inl rfl⟩,
      ⟨mailCalls.take 1, mailCalls.drop 1, rfl, row, hrow, .inr rfl⟩⟩
  have hopen : openService mailPlatform rolledBack "mail" (some mailVaultKey) = .ok [1] := by
    decide +kernel
  obtain ⟨hbound, hlast⟩ := credentials_bound_to_service mailPlatform mailVaultKey mailCalls
  exact ⟨hopen, hbound mail_cipher_ideal hfresh rolledBack hrows "mail" [1] hopen, hlast "mail"⟩

end CredentialStore

end Conveyance.Phone
