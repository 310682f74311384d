import Conveyance.Daemon.Owner
import Conveyance.Storage.LogDb

/-!
# The recovery sweep (conveyance-daemon, recovery.rs)

At startup the daemon closes the requests a crash left open: every req_id whose
newest row is not terminal gets a `request_timeout` row. The hash map of the
source is the list of its entries, in the order they were first inserted; the
sweep sorts them by the index of their first row before it uses them.

`newestOf` is the newest row of one req_id and `firstIndex` where its first row
stands; `mem_newest` says the table holds them, of every req_id in the log. A log
is `Settled` when every newest row but the lifecycle's is terminal; a sweep of a
settled log appends nothing (`sweep_of_settled`).
-/

namespace Conveyance.Daemon

open Lib Crypto Storage

def crashedBeforeTerminal : String := "crashed_before_terminal"

/-- What the sweep remembers of a req_id: its first row's index, and the type of
its newest row. -/
structure Trail where
  reqId : Octets 16
  first : Nat
  lastType : String
deriving DecidableEq

/-- One row noted: the first index stays, the type is overwritten. -/
def noteRow (trails : List Trail) (index : Nat) (event : LogEvent) : List Trail :=
  if trails.any (·.reqId = event.reqId) then
    trails.map fun t => if t.reqId = event.reqId then { t with lastType := event.eventType } else t
  else trails ++ [⟨event.reqId, index, event.eventType⟩]

def newest (events : List LogEvent) : List Trail :=
  (events.zipIdx).foldl (fun trails (event, index) => noteRow trails index event) []

def orphans (events : List LogEvent) : List Trail :=
  (((newest events).filter fun t => t.reqId ≠ lifecycleReqId).insertionSort
    (fun a b => a.first ≤ b.first)).filter fun t => t.lastType ∉ terminalEventTypes

section Sweep

variable (sha256 : Bytes → Octets 32) (jsonText : Json.Value → String) (now : Int64)

/-- The row that closes an orphan. -/
def Trail.row (t : Trail) : LogEvent where
  reqId := t.reqId
  eventType := "request_timeout"
  payloadJson :=
    let payload := .object
      [("reason", .string crashedBeforeTerminal), ("orphaned_after", .string t.lastType)]
    match Protocol.toCanonicalString payload with
    | .ok text => text
    | .error _ => jsonText payload
  timestamp := now

/-- Append one row per orphan, and count them. -/
def sweepAll (log : LogDb) (swept : Nat) : List Trail → Except StorageError (LogDb × Nat)
  | [] => .ok (log, swept)
  | t :: rest => do
    let (log, _) ← log.append sha256 (t.row jsonText now)
    sweepAll log (swept + 1) rest

def sweepOrphanedRequests (log : LogDb) : Except StorageError (LogDb × Nat) := do
  let events ← log.events
  sweepAll sha256 jsonText now log 0 (orphans events)

end Sweep

/-! ## The newest row -/

/-- The type of the newest row of a req_id. -/
def newestOf (events : List LogEvent) (reqId : Octets 16) : Option String :=
  ((events.filter (·.reqId = reqId)).getLast?).map (·.eventType)

section Newest

variable {events later : List LogEvent} {event : LogEvent} {reqId : Octets 16}

theorem newestOf_append :
    newestOf (events ++ later) reqId = (newestOf later reqId).or (newestOf events reqId) := by
  unfold newestOf
  rw [List.filter_append, List.getLast?_append]
  cases (later.filter (·.reqId = reqId)).getLast? <;> rfl

theorem newestOf_same (h : event.reqId = reqId) :
    newestOf (events ++ [event]) reqId = some event.eventType := by
  simp [newestOf, h]

theorem newestOf_other (h : event.reqId ≠ reqId) :
    newestOf (events ++ [event]) reqId = newestOf events reqId := by
  simp [newestOf, h]

/-- Where the first row of a req_id stands; behind the log, if it has none. -/
def firstIndex (events : List LogEvent) (reqId : Octets 16) : Nat :=
  events.findIdx fun e => e.reqId = reqId

theorem firstIndex_lt {eventType : String} (h : newestOf events reqId = some eventType) :
    firstIndex events reqId < events.length := by
  obtain ⟨e, he, -⟩ := Option.map_eq_some_iff.mp h
  obtain ⟨hmem, hid⟩ := List.mem_filter.mp (List.mem_of_getLast? he)
  exact List.findIdx_lt_length.mpr ⟨e, hmem, hid⟩

theorem firstIndex_append {eventType : String} (h : newestOf events reqId = some eventType) :
    firstIndex (events ++ later) reqId = firstIndex events reqId := by
  unfold firstIndex
  rw [List.findIdx_append]
  exact if_pos (firstIndex_lt h)

theorem firstIndex_fresh (h : newestOf events event.reqId = none) :
    firstIndex (events ++ [event]) event.reqId = events.length := by
  have hnot : ¬ events.findIdx (fun e => e.reqId = event.reqId) < events.length := by
    rw [List.findIdx_lt_length]
    rintro ⟨e, he, hid⟩
    rw [newestOf, Option.map_eq_none_iff, List.getLast?_eq_none_iff] at h
    exact List.not_mem_nil (h ▸ List.mem_filter.mpr ⟨he, hid⟩)
  unfold firstIndex
  rw [List.findIdx_append, if_neg hnot]
  simp

/-- Two requests do not have their first rows in one place. -/
theorem firstIndex_inj {reqId' : Octets 16} {a b : String} (ha : newestOf events reqId = some a)
    (hb : newestOf events reqId' = some b)
    (h : firstIndex events reqId = firstIndex events reqId') : reqId = reqId' := by
  have hid : ∀ {id : Octets 16} (hlt : firstIndex events id < events.length),
      (events.get ⟨firstIndex events id, hlt⟩).reqId = id := fun hlt =>
    of_decide_eq_true (List.findIdx_getElem (w := hlt))
  have hreq := hid (firstIndex_lt ha)
  have hreq' := hid (firstIndex_lt hb)
  simp only [h] at hreq
  exact hreq.symm.trans hreq'

theorem newest_snoc : newest (events ++ [event]) = noteRow (newest events) events.length event := by
  rw [newest, List.zipIdx_append, List.foldl_append]
  simp only [List.zipIdx_cons, List.zipIdx_nil, List.foldl_cons, List.foldl_nil, Nat.zero_add]
  rfl

/-- Noting a row concerns the entry of its req_id only. -/
theorem mem_noteRow {trails : List Trail} {index : Nat} {t : Trail} :
    t ∈ noteRow trails index event ↔
      if event.reqId = t.reqId then t.lastType = event.eventType ∧
        ((∃ u ∈ trails, u.reqId = t.reqId ∧ u.first = t.first) ∨
          (∀ u ∈ trails, u.reqId ≠ t.reqId) ∧ t.first = index)
      else t ∈ trails := by
  obtain ⟨reqId, first, lastType⟩ := t
  unfold noteRow
  grind

/-- The table lists the req_ids of the log, with the first row and the newest of each. -/
theorem mem_newest {t : Trail} :
    t ∈ newest events ↔ newestOf events t.reqId = some t.lastType ∧
      t.first = firstIndex events t.reqId := by
  induction events using List.reverseRecOn generalizing t with
  | nil => simp [newest, newestOf]
  | append_singleton events event ih =>
    rw [newest_snoc, mem_noteRow]
    split_ifs with hsame
    · rw [newestOf_same hsame, Option.some.injEq, eq_comm]
      refine and_congr_right fun _ => ?_
      cases hnewest : newestOf events t.reqId with
      | none =>
        have hnone : ∀ u ∈ newest events, u.reqId ≠ t.reqId := by
          intro u hu hid
          cases (hid ▸ (ih.mp hu).1).symm.trans hnewest
        rw [← hsame, firstIndex_fresh (hsame ▸ hnewest), hsame]
        exact ⟨fun h => h.elim (fun ⟨u, hu, hid, _⟩ => absurd hid (hnone u hu)) And.right,
          fun h => .inr ⟨hnone, h⟩⟩
      | some lastType =>
        rw [firstIndex_append hnewest]
        have hold : ⟨t.reqId, firstIndex events t.reqId, lastType⟩ ∈ newest events :=
          ih.mpr ⟨hnewest, rfl⟩
        constructor
        · rintro (⟨u, hu, hid, hfirst⟩ | ⟨hnone, -⟩)
          · rw [← hfirst, (ih.mp hu).2, hid]
          · exact (hnone _ hold rfl).elim
        · exact fun h => .inl ⟨_, hold, rfl, h.symm⟩
    · rw [newestOf_other hsame, ih]
      refine and_congr_right fun htype => ?_
      rw [firstIndex_append htype]

end Newest

/-! ## Settled logs -/

/-- Every request of the log is closed. -/
def Settled (events : List LogEvent) : Prop :=
  ∀ reqId eventType, newestOf events reqId = some eventType → reqId ≠ lifecycleReqId →
    eventType ∈ terminalEventTypes

theorem Settled.append {events later : List LogEvent} (h : Settled events) (h' : Settled later) :
    Settled (events ++ later) := by
  intro reqId eventType hnewest hid
  rw [newestOf_append] at hnewest
  cases hlater : newestOf later reqId with
  | none =>
    rw [hlater, Option.none_or] at hnewest
    exact h reqId eventType hnewest hid
  | some last =>
    rw [hlater, Option.some_or] at hnewest
    exact Option.some.inj hnewest ▸ h' reqId last hlater hid

theorem Settled.orphans {events : List LogEvent} (h : Settled events) : orphans events = [] := by
  refine List.filter_eq_nil_iff.mpr fun t ht => ?_
  rw [List.mem_insertionSort, List.mem_filter] at ht
  have hid : t.reqId ≠ lifecycleReqId := of_decide_eq_true ht.2
  have hterminal := h t.reqId t.lastType (mem_newest.mp ht.1).1 hid
  simp [hterminal]

/-- **A settled log is left alone.** -/
theorem sweep_of_settled {sha256 : Bytes → Octets 32} {db : LogDb} {events : List LogEvent}
    (hdb : LogDb.Stores sha256 db events) (h : Settled events) (jsonText : Json.Value → String)
    (now : Int64) : sweepOrphanedRequests sha256 jsonText now db = .ok (db, 0) := by
  refine bind_eq_ok.mpr ⟨events, hdb.events, ?_⟩
  rw [h.orphans]
  rfl

end Conveyance.Daemon
