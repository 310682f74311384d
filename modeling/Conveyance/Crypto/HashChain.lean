import Conveyance.Crypto.CanonicalJson
import Conveyance.Crypto.Hex
import Conveyance.Lib.HashChain

/-!
# The tamper-evident log chain (conveyance-crypto, hashchain.rs)

Each row's hash is SHA-256 over the previous row's hash followed by the
canonical JSON of the row's event. SHA-256 is a parameter; `CollisionFree`
states what is assumed of it, on the inputs at hand only.
-/

namespace Conveyance.Crypto

open Lib

/-- What is hashed of a row of the log. -/
structure LogEvent where
  reqId : Octets 16
  eventType : String
  payloadJson : String
  timestamp : Int64
deriving DecidableEq

structure ChainRow where
  event : LogEvent
  prevHash : Octets 32
  hash : Octets 32
deriving DecidableEq

inductive ChainIssue where
  | contentTampered (index : Nat) (expectedHash storedHash : String)
  | linkBroken (index : Nat) (expectedPrev storedPrev : String)
deriving DecidableEq

def genesisPrevHash : Octets 32 := ⟨List.replicate 32 0, by decide⟩

/-! ## Hashed content -/

def eventFields (event : LogEvent) : List (String × Json.Value) :=
  [("event_type", .string event.eventType), ("payload_json", .string event.payloadJson),
    ("req_id", .string (hexEncode event.reqId.1)),
    ("timestamp", .number (.ofInt64 event.timestamp))]

/-- Every event is in the canonical domain. -/
theorem eventFields_noFloat (event : LogEvent) :
    ¬ (Json.Value.object (eventFields event)).1.HasFloat := by
  intro h
  obtain ⟨f, hf, hfloat⟩ := Json.Value.hasFloat_object h
  simp only [eventFields, List.mem_cons, List.not_mem_nil, or_false] at hf
  rcases hf with rfl | rfl | rfl | rfl
  · exact nomatch hfloat
  · exact nomatch hfloat
  · exact nomatch hfloat
  · exact Json.Value.ofInt64_noFloat _ hfloat

/-- The fields give the event back. -/
theorem eventFields_inj {a b : LogEvent}
    (h : Json.Value.object (eventFields a) = Json.Value.object (eventFields b)) : a = b := by
  have hnodup : ∀ e, ((eventFields e).map Prod.fst).Nodup := fun e => by simp [eventFields]
  have hfield := fun k x y => Json.Value.object_field_eq (k := k) (x := x) (y := y)
    (hnodup a) (hnodup b) h
  obtain ⟨reqId, eventType, payloadJson, timestamp⟩ := a
  obtain ⟨reqId', eventType', payloadJson', timestamp'⟩ := b
  congr
  · exact Subtype.ext (hexEncode_inj (Json.Value.string_inj
      (hfield "req_id" _ _ (by simp [eventFields]) (by simp [eventFields]))))
  · exact Json.Value.string_inj
      (hfield "event_type" _ _ (by simp [eventFields]) (by simp [eventFields]))
  · exact Json.Value.string_inj
      (hfield "payload_json" _ _ (by simp [eventFields]) (by simp [eventFields]))
  · exact Json.Number.ofInt64_inj (Json.Value.number_inj
      (hfield "timestamp" _ _ (by simp [eventFields]) (by simp [eventFields])))

/-- The canonical text of a value in the domain; the source's `expect`. -/
def canonicalText (v : Json.Value) (h : ¬ v.1.HasFloat) : String :=
  match hc : canonicalize v.1 with
  | .ok text => text
  | .error e => False.elim (by
    obtain ⟨text, htext⟩ := (canonicalize_ok_iff v.1).mpr h
    rw [hc] at htext
    cases htext)

theorem canonicalize_canonicalText (v : Json.Value) (h : ¬ v.1.HasFloat) :
    canonicalize v.1 = .ok (canonicalText v h) := by
  obtain ⟨text, htext⟩ := (canonicalize_ok_iff v.1).mpr h
  unfold canonicalText
  split
  · assumption
  · next hc => rw [hc] at htext; cases htext

def eventContentJson (event : LogEvent) : Bytes :=
  (canonicalText (.object (eventFields event)) (eventFields_noFloat event)).toUTF8.data.toList

/-- The canonical text gives the event back. -/
theorem eventContentJson_inj {a b : LogEvent} (h : eventContentJson a = eventContentJson b) :
    a = b := by
  have htext : canonicalText (.object (eventFields a)) (eventFields_noFloat a) =
      canonicalText (.object (eventFields b)) (eventFields_noFloat b) :=
    toUTF8_inj h
  have ha := canonicalize_canonicalText (.object (eventFields a)) (eventFields_noFloat a)
  have hb := canonicalize_canonicalText (.object (eventFields b)) (eventFields_noFloat b)
  rw [htext] at ha
  exact eventFields_inj (canonicalize_inj ha hb)

/-- The bytes hashed for an event after a head. -/
def preimage (prevHash : Octets 32) (event : LogEvent) : Bytes :=
  prevHash.1 ++ eventContentJson event

/-- The hashed bytes determine the previous hash and the event, so a collision of entry hashes is
a collision of SHA-256. -/
theorem preimage_inj {p q : Octets 32} {a b : LogEvent} (h : preimage p a = preimage q b) :
    p = q ∧ a = b := by
  obtain ⟨hprev, hcontent⟩ := List.append_inj h (p.2.trans q.2.symm)
  exact ⟨Subtype.ext hprev, eventContentJson_inj hcontent⟩

/-! ## Building and verifying -/

section Chain

variable (sha256 : Bytes → Octets 32)

def computeEntryHash (prevHash : Octets 32) (event : LogEvent) : Octets 32 :=
  sha256 (preimage prevHash event)

/-- The loop of `build_chain`, from a given head. -/
def buildFrom (prev : Octets 32) : List LogEvent → List ChainRow
  | [] => []
  | event :: events =>
    let hash := computeEntryHash sha256 prev event
    ⟨event, prev, hash⟩ :: buildFrom hash events

def buildChain (events : List LogEvent) : List ChainRow :=
  buildFrom sha256 genesisPrevHash events

/-- The loop of `verify_chain`, from a given head and row index. -/
def verifyFrom (head : Octets 32) (index : Nat) : List ChainRow → Except ChainIssue Unit
  | [] => .ok ()
  | row :: rows =>
    if row.prevHash ≠ head then
      .error (.linkBroken index (hexEncode head.1) (hexEncode row.prevHash.1))
    else
      let recomputed := computeEntryHash sha256 row.prevHash row.event
      if recomputed ≠ row.hash then
        .error (.contentTampered index (hexEncode recomputed.1) (hexEncode row.hash.1))
      else verifyFrom row.hash (index + 1) rows

def verifyChain (rows : List ChainRow) : Except ChainIssue Nat := do
  verifyFrom sha256 genesisPrevHash 0 rows
  .ok rows.length

/-- The head a chain ends in: its last hash, or the genesis. -/
def finalHash (rows : List ChainRow) : Octets 32 :=
  (rows.getLast?.map ChainRow.hash).getD genesisPrevHash

variable {sha256}

/-- From any head, exactly the rows that are built from there are accepted. -/
theorem verifyFrom_ok {head : Octets 32} {index : Nat} {rows : List ChainRow} :
    verifyFrom sha256 head index rows = .ok () ↔
      rows = buildFrom sha256 head (rows.map ChainRow.event) := by
  induction rows generalizing head index with
  | nil => exact ⟨fun _ => rfl, fun _ => rfl⟩
  | cons row rows ih =>
    obtain ⟨event, prev, hash⟩ := row
    simp only [verifyFrom, List.map_cons, buildFrom, List.cons.injEq, ChainRow.mk.injEq, true_and]
    by_cases hprev : prev = head
    · subst hprev
      by_cases hhash : computeEntryHash sha256 prev event = hash
      · subst hhash
        simpa using ih
      · simp [hhash, Ne.symm hhash]
    · simp [hprev]

/-- **Verification accepts exactly the built chains.** -/
theorem verifyChain_ok_iff {rows : List ChainRow} {n : Nat} :
    verifyChain sha256 rows = .ok n ↔
      rows = buildChain sha256 (rows.map ChainRow.event) ∧ n = rows.length := by
  rw [verifyChain, bind_eq_ok]
  constructor
  · rintro ⟨_, hok, hn⟩
    exact ⟨verifyFrom_ok.mp hok, (Except.ok.inj hn).symm⟩
  · rintro ⟨hrows, rfl⟩
    exact ⟨(), verifyFrom_ok.mpr hrows, rfl⟩

/-! ## The chain as folded links -/

/-- The pairs that are hashed are the links of the abstract chain. -/
theorem buildFrom_links (head : Octets 32) (events : List LogEvent) :
    (buildFrom sha256 head events).map (fun r => (r.prevHash, r.event)) =
      HashChain.links (computeEntryHash sha256) head events := by
  induction events generalizing head with
  | nil => rfl
  | cons event events ih => rw [buildFrom, List.map_cons, ih, HashChain.links]

theorem buildFrom_events (head : Octets 32) (events : List LogEvent) :
    (buildFrom sha256 head events).map ChainRow.event = events := by
  induction events generalizing head with
  | nil => rfl
  | cons event events ih => rw [buildFrom, List.map_cons, ih]

theorem verifyChain_buildChain (events : List LogEvent) :
    verifyChain sha256 (buildChain sha256 events) = .ok events.length := by
  have hevents : (buildChain sha256 events).map ChainRow.event = events := buildFrom_events _ _
  refine verifyChain_ok_iff.mpr ⟨by rw [hevents], ?_⟩
  rw [← List.length_map ChainRow.event, hevents]

/-- A later part is built on the hash the earlier one ends with. -/
theorem buildFrom_append (head : Octets 32) (events later : List LogEvent) :
    buildFrom sha256 head (events ++ later) = buildFrom sha256 head events ++
      buildFrom sha256 (HashChain.final (computeEntryHash sha256) head events) later := by
  induction events generalizing head with
  | nil => rfl
  | cons x events ih =>
    rw [List.cons_append, buildFrom, ih, buildFrom]
    rfl

theorem buildFrom_snoc (head : Octets 32) (events : List LogEvent) (event : LogEvent) :
    buildFrom sha256 head (events ++ [event]) = buildFrom sha256 head events ++
      [⟨event, HashChain.final (computeEntryHash sha256) head events,
        computeEntryHash sha256 (HashChain.final (computeEntryHash sha256) head events) event⟩] :=
  buildFrom_append head events [event]

/-- The last hash is where the abstract chain ends. -/
theorem finalHash_buildChain (events : List LogEvent) :
    finalHash (buildChain sha256 events) =
      HashChain.final (computeEntryHash sha256) genesisPrevHash events := by
  induction events using List.reverseRecOn with
  | nil => rfl
  | append_singleton events event _ =>
    rw [buildChain, buildFrom_snoc, HashChain.final_snoc]
    simp [finalHash]

/-! ## Tamper evidence -/

/-- What SHA-256 was computed over for a chain's rows. -/
def inputs (rows : List ChainRow) : List Bytes :=
  rows.map fun r => preimage r.prevHash r.event

/-- SHA-256 has no collision among `xs` and maps none of them to the genesis
hash. -/
structure CollisionFree (sha256 : Bytes → Octets 32) (xs : List Bytes) : Prop where
  inj : ∀ x ∈ xs, ∀ y ∈ xs, sha256 x = sha256 y → x = y
  genesis : ∀ x ∈ xs, sha256 x ≠ genesisPrevHash

theorem CollisionFree.mono {xs ys : List Bytes} (h : CollisionFree sha256 ys)
    (hsub : ∀ x ∈ xs, x ∈ ys) : CollisionFree sha256 xs :=
  ⟨fun x hx y hy => h.inj x (hsub x hx) y (hsub y hy), fun x hx => h.genesis x (hsub x hx)⟩

/-- A chain without collisions has none in its first part. -/
theorem CollisionFree.of_append {done events : List LogEvent}
    (h : CollisionFree sha256 (inputs (buildChain sha256 (done ++ events)))) :
    CollisionFree sha256 (inputs (buildChain sha256 done)) := by
  have hinputs : ∀ es, inputs (buildChain sha256 es) =
      (HashChain.links (computeEntryHash sha256) genesisPrevHash es).map fun p =>
        preimage p.1 p.2 := by
    intro es
    rw [← buildFrom_links, List.map_map]
    rfl
  rw [hinputs, HashChain.links_append, List.map_append] at h
  rw [hinputs]
  exact h.mono fun x hx => List.mem_append_left _ hx

/-- A collision of entry hashes is a collision of SHA-256. -/
theorem CollisionFree.links {rows : List ChainRow} (h : CollisionFree sha256 (inputs rows)) :
    HashChain.Injective (computeEntryHash sha256) genesisPrevHash
      (rows.map fun r => (r.prevHash, r.event)) := by
  have hmem : ∀ p ∈ rows.map (fun r => (r.prevHash, r.event)), preimage p.1 p.2 ∈ inputs rows := by
    intro p hp
    obtain ⟨r, hr, rfl⟩ := List.mem_map.mp hp
    exact List.mem_map_of_mem hr
  refine ⟨fun p hp q hq heq => ?_, fun p hp => h.genesis _ (hmem p hp)⟩
  obtain ⟨hprev, hevent⟩ := preimage_inj (h.inj _ (hmem p hp) _ (hmem q hq) heq)
  exact Prod.ext hprev hevent

/-- **Verified chains with one final hash are equal.** -/
theorem verified_inj {a b : List ChainRow} {m n : Nat}
    (hfree : CollisionFree sha256 (inputs (a ++ b))) (ha : verifyChain sha256 a = .ok m)
    (hb : verifyChain sha256 b = .ok n) (hfinal : finalHash a = finalHash b) : a = b := by
  obtain ⟨ha, -⟩ := verifyChain_ok_iff.mp ha
  obtain ⟨hb, -⟩ := verifyChain_ok_iff.mp hb
  have hlinks := hfree.links
  rw [List.map_append, ha, hb, buildChain, buildChain, buildFrom_links, buildFrom_links] at hlinks
  rw [ha, hb, finalHash_buildChain, finalHash_buildChain] at hfinal
  rw [ha, hb, HashChain.final_inj hlinks hfinal]

end Chain

end Conveyance.Crypto
