import Conveyance.Daemon.Recovery

/-!
# What a sweep leaves behind

The sweep reads the log once and then appends row after row, so it can stop between any
two appends. `orphans_after` is why it can be run again: once the first `k` orphans are
closed, those still open are the others, in the order they had.
-/

namespace Conveyance.Daemon

open Lib Crypto Storage

/-! ## Orphans -/

section Orphans

variable {events : List LogEvent}

theorem map_reqId_noteRow {trails : List Trail} {index : Nat} {event : LogEvent} :
    (noteRow trails index event).map (·.reqId) =
      if trails.any (·.reqId = event.reqId) then trails.map (·.reqId)
      else trails.map (·.reqId) ++ [event.reqId] := by
  unfold noteRow
  split_ifs
  · rw [List.map_map]
    refine List.map_congr_left fun t _ => ?_
    show (if t.reqId = event.reqId then { t with lastType := event.eventType } else t).reqId = _
    split_ifs <;> rfl
  · rw [List.map_append]
    rfl

theorem newest_nodup : ((newest events).map (·.reqId)).Nodup := by
  induction events using List.reverseRecOn with
  | nil => exact List.nodup_nil
  | append_singleton events event ih =>
    rw [newest_snoc, map_reqId_noteRow]
    split_ifs with hany
    · exact ih
    · refine List.nodup_append.mpr ⟨ih, List.nodup_singleton _, ?_⟩
      intro a ha b hb heq
      obtain ⟨t, ht, rfl⟩ := List.mem_map.mp ha
      rw [List.mem_singleton.mp hb] at heq
      exact hany (List.any_eq_true.mpr ⟨t, ht, decide_eq_true heq⟩)

theorem mem_orphans {t : Trail} :
    t ∈ orphans events ↔ t.reqId ≠ lifecycleReqId ∧ newestOf events t.reqId = some t.lastType ∧
      t.lastType ∉ terminalEventTypes ∧ t.first = firstIndex events t.reqId := by
  rw [orphans, List.mem_filter, List.mem_insertionSort, List.mem_filter, mem_newest,
    decide_eq_true_eq, decide_eq_true_eq]
  tauto

theorem orphans_inj {t u : Trail} (ht : t ∈ orphans events) (hu : u ∈ orphans events)
    (hid : t.reqId = u.reqId) : t = u := by
  obtain ⟨-, htypeT, -, hfirstT⟩ := mem_orphans.mp ht
  obtain ⟨-, htypeU, -, hfirstU⟩ := mem_orphans.mp hu
  rw [hid, htypeU] at htypeT
  obtain ⟨reqId, first, lastType⟩ := t
  obtain ⟨reqId', first', lastType'⟩ := u
  dsimp only at hid hfirstT hfirstU htypeT
  rw [hid] at hfirstT
  rw [hid, hfirstT, hfirstU, Option.some.inj htypeT]

theorem orphans_ordered : (orphans events).Pairwise fun a b => a.first < b.first := by
  have : Std.Total fun a b : Trail => a.first ≤ b.first := ⟨fun a b => Nat.le_total _ _⟩
  have : IsTrans Trail fun a b => a.first ≤ b.first := ⟨fun _ _ _ => Nat.le_trans⟩
  have hsorted := List.pairwise_insertionSort (fun a b : Trail => a.first ≤ b.first)
    ((newest events).filter fun t => t.reqId ≠ lifecycleReqId)
  have hnodup : (((newest events).filter fun t => t.reqId ≠ lifecycleReqId).insertionSort
      fun a b => a.first ≤ b.first).Nodup :=
    (List.perm_insertionSort _ _).nodup_iff.mpr (newest_nodup.of_map.filter _)
  refine List.Pairwise.imp_of_mem ?_ ((hsorted.and hnodup).filter _)
  intro a b ha hb hab
  refine Nat.lt_of_le_of_ne hab.1 fun heq => hab.2 ?_
  obtain ⟨-, htypeA, -, hfirstA⟩ := mem_orphans.mp ha
  obtain ⟨-, htypeB, -, hfirstB⟩ := mem_orphans.mp hb
  exact orphans_inj ha hb (firstIndex_inj htypeA htypeB (by rw [← hfirstA, ← hfirstB, heq]))

/-- Trails in one order are told apart by what they hold. -/
theorem eq_of_ordered {ts us : List Trail} (hts : ts.Pairwise fun a b => a.first < b.first)
    (hus : us.Pairwise fun a b => a.first < b.first) (h : ∀ t, t ∈ ts ↔ t ∈ us) : ts = us := by
  have : Std.Irrefl fun a b : Trail => a.first < b.first := ⟨fun a => Nat.lt_irrefl _⟩
  have : Std.Antisymm fun a b : Trail => a.first < b.first :=
    ⟨fun a b hab hba => absurd hba (Nat.lt_asymm hab)⟩
  exact List.Pairwise.eq_of_mem_iff hts hus h

end Orphans

/-! ## Closing rows -/

section Closing

variable (jsonText : Json.Value → String) (now : Int64)

/-- The rows that close orphans. -/
def closing (trails : List Trail) : List LogEvent := trails.map (·.row jsonText now)

/-- What of a row does not depend on when it was written. -/
def content (event : LogEvent) : Octets 16 × String × String :=
  (event.reqId, event.eventType, event.payloadJson)

variable {jsonText now} {events : List LogEvent} {trails : List Trail} {reqId : Octets 16}

theorem content_closing (now now' : Int64) :
    (closing jsonText now trails).map content = (closing jsonText now' trails).map content := by
  rw [closing, closing, List.map_map, List.map_map]
  rfl

theorem newestOf_closing (h : ∃ t ∈ trails, t.reqId = reqId) :
    newestOf (events ++ closing jsonText now trails) reqId = some "request_timeout" := by
  obtain ⟨t, ht, hid⟩ := h
  have hne : (closing jsonText now trails).filter (·.reqId = reqId) ≠ [] :=
    List.ne_nil_of_mem (List.mem_filter.mpr ⟨List.mem_map_of_mem ht, decide_eq_true hid⟩)
  rw [newestOf_append, newestOf, List.getLast?_eq_some_getLast hne, Option.map_some, Option.some_or]
  obtain ⟨u, -, hu⟩ := List.mem_map.mp (List.mem_of_mem_filter (List.getLast_mem hne))
  rw [← hu]
  rfl

theorem newestOf_not_closing (h : ∀ t ∈ trails, t.reqId ≠ reqId) :
    newestOf (events ++ closing jsonText now trails) reqId = newestOf events reqId := by
  have hnone : (closing jsonText now trails).filter (·.reqId = reqId) = [] := by
    refine List.filter_eq_nil_iff.mpr fun e he => ?_
    obtain ⟨t, ht, rfl⟩ := List.mem_map.mp he
    exact fun hid => h t ht (of_decide_eq_true hid)
  rw [newestOf_append, newestOf, hnone]
  rfl

/-- **What is still open once some orphans are closed.** -/
theorem orphans_after (jsonText : Json.Value → String) (now : Int64) (events : List LogEvent)
    (k : Nat) :
    orphans (events ++ closing jsonText now ((orphans events).take k)) =
      (orphans events).drop k := by
  have hall := List.take_append_drop k (orphans events)
  have hnodup : (orphans events).Nodup := orphans_ordered.imp fun h heq => absurd h (by
    rw [heq]
    exact Nat.lt_irrefl _)
  have hapart : ∀ t ∈ (orphans events).drop k, ∀ u ∈ (orphans events).take k,
      u.reqId ≠ t.reqId := by
    intro t ht u hu hid
    rw [← hall] at hnodup
    have heq := orphans_inj (List.mem_of_mem_take hu) (List.mem_of_mem_drop ht) hid
    exact (List.nodup_append.mp hnodup).2.2 u hu t ht heq
  refine eq_of_ordered orphans_ordered (orphans_ordered.sublist (List.drop_sublist _ _)) ?_
  intro t
  constructor
  · intro ht
    obtain ⟨hid, htype, hopen, hfirst⟩ := mem_orphans.mp ht
    have hnot : ∀ u ∈ (orphans events).take k, u.reqId ≠ t.reqId := by
      intro u hu heq
      rw [newestOf_closing ⟨u, hu, heq⟩] at htype
      rw [← Option.some.inj htype] at hopen
      exact hopen (by decide)
    rw [newestOf_not_closing hnot] at htype
    rw [firstIndex_append htype] at hfirst
    have hmem := mem_orphans.mpr ⟨hid, htype, hopen, hfirst⟩
    rw [← hall, List.mem_append] at hmem
    exact hmem.resolve_left fun h => hnot t h rfl
  · intro ht
    obtain ⟨hid, htype, hopen, hfirst⟩ := mem_orphans.mp (List.mem_of_mem_drop ht)
    refine mem_orphans.mpr ⟨hid, ?_, hopen, ?_⟩
    · rw [newestOf_not_closing (hapart t ht)]
      exact htype
    · rw [firstIndex_append htype]
      exact hfirst

end Closing

/-! ## Sweeps -/

section Sweeps

variable {sha256 : Bytes → Octets 32} {jsonText : Json.Value → String} {now : Int64}
  {db db' : LogDb} {events : List LogEvent}

/-- The loop appends the closing rows. -/
theorem sweepAll_ok {trails : List Trail} {swept swept' : Nat} :
    sweepAll sha256 jsonText now db swept trails = .ok (db', swept') ↔
      db.appendAll sha256 (closing jsonText now trails) = .ok db' ∧
        swept' = swept + trails.length := by
  induction trails generalizing db swept with
  | nil =>
    constructor
    · intro h
      cases h
      exact ⟨rfl, rfl⟩
    · rintro ⟨h, rfl⟩
      cases h
      rfl
  | cons t trails ih =>
    rw [sweepAll, closing, List.map_cons, LogDb.appendAll, bind_eq_ok, bind_eq_ok]
    constructor
    · rintro ⟨⟨mid, row⟩, hone, hrest⟩
      obtain ⟨happend, rfl⟩ := ih.mp hrest
      refine ⟨⟨_, hone, happend⟩, ?_⟩
      rw [List.length_cons]
      omega
    · rintro ⟨⟨⟨mid, row⟩, hone, hrest⟩, rfl⟩
      refine ⟨_, hone, ih.mpr ⟨hrest, ?_⟩⟩
      rw [List.length_cons]
      omega

/-- The rows of the log are the chain of these events. -/
def Holds (sha256 : Bytes → Octets 32) (db : LogDb) (events : List LogEvent) : Prop :=
  db.contents = (buildChain sha256 events).map .ofRow

theorem Holds.events_eq (h : Holds sha256 db events) : db.events = .ok events := by
  rw [LogDb.events, h, LogDb.eventsOf_ofRow, buildChain, buildFrom_events]

theorem Holds.of_verified {rows : List ChainRow} {n : Nat} (hread : db.readRows = .ok rows)
    (hverify : verifyChain sha256 rows = .ok n) : Holds sha256 db (rows.map (·.event)) := by
  rw [Holds, ← (verifyChain_ok_iff.mp hverify).1]
  exact LogDb.readRows_ok.mp hread

theorem Holds.sweep_ok (h : Holds sha256 db events) {swept : Nat} :
    sweepOrphanedRequests sha256 jsonText now db = .ok (db', swept) ↔
      db.appendAll sha256 (closing jsonText now (orphans events)) = .ok db' ∧
        swept = (orphans events).length := by
  rw [sweepOrphanedRequests, h.events_eq]
  show sweepAll sha256 jsonText now db 0 (orphans events) = .ok (db', swept) ↔ _
  rw [sweepAll_ok, Nat.zero_add]

theorem Holds.appendAll {added : List LogEvent} (h : Holds sha256 db events)
    (happend : db.appendAll sha256 added = .ok db') : Holds sha256 db' (events ++ added) :=
  (LogDb.appendAll_chain h happend).2

theorem Holds.second_sweep (h : Holds sha256 db (events ++ closing jsonText now (orphans events)))
    (now' : Int64) : sweepOrphanedRequests sha256 jsonText now' db = .ok (db, 0) := by
  have hnone : orphans (events ++ closing jsonText now (orphans events)) = [] := by
    have hafter := orphans_after jsonText now events (orphans events).length
    rwa [List.take_length, List.drop_length] at hafter
  rw [h.sweep_ok, hnone]
  exact ⟨rfl, rfl⟩

end Sweeps

/-- The rows added are those that close the orphans: exactly one for each request, other
than the lifecycle's, whose newest row is not terminal, naming the type of that row, in
the order in which the requests first appear. -/
structure ClosesOrphans (now : Int64) (events added : List LogEvent) : Prop where
  exact : ∀ row, row ∈ added ↔ ∃ lastType, row.reqId ≠ lifecycleReqId ∧
    newestOf events row.reqId = some lastType ∧ lastType ∉ terminalEventTypes ∧
    row.eventType = "request_timeout" ∧ row.timestamp = now ∧
    Protocol.toCanonicalString (.object [("reason", .string crashedBeforeTerminal),
      ("orphaned_after", .string lastType)]) = .ok row.payloadJson
  once : (added.map (·.reqId)).Nodup
  ordered : added.Pairwise fun a b => firstIndex events a.reqId < firstIndex events b.reqId

theorem Trail.row_payload (jsonText : Json.Value → String) (now : Int64) (t : Trail) :
    Protocol.toCanonicalString (.object [("reason", .string crashedBeforeTerminal),
      ("orphaned_after", .string t.lastType)]) = .ok (t.row jsonText now).payloadJson := by
  have hfloat : ¬ (Json.Value.object [("reason", .string crashedBeforeTerminal),
      ("orphaned_after", .string t.lastType)]).1.HasFloat := by
    intro h
    obtain ⟨f, hf, hfloat⟩ := Json.Value.hasFloat_object h
    simp only [List.mem_cons, List.not_mem_nil, or_false] at hf
    rcases hf with rfl | rfl
    · cases hfloat
    · cases hfloat
  obtain ⟨text, htext⟩ := (canonicalize_ok_iff _).mpr hfloat
  have hcanonical := Protocol.toCanonicalString_ok.mpr htext
  rw [hcanonical]
  unfold Trail.row
  dsimp only
  rw [hcanonical]

theorem closesOrphans (jsonText : Json.Value → String) (now : Int64) (events : List LogEvent) :
    ClosesOrphans now events (closing jsonText now (orphans events)) := by
  have hordered : (closing jsonText now (orphans events)).Pairwise fun a b =>
      firstIndex events a.reqId < firstIndex events b.reqId := by
    refine List.pairwise_map.mpr (orphans_ordered.imp_of_mem fun {a b} ha hb hlt => ?_)
    show firstIndex events a.reqId < firstIndex events b.reqId
    rwa [← (mem_orphans.mp ha).2.2.2, ← (mem_orphans.mp hb).2.2.2]
  refine ⟨fun row => ?_, ?_, hordered⟩
  · constructor
    · intro hrow
      obtain ⟨t, ht, rfl⟩ := List.mem_map.mp hrow
      obtain ⟨hid, htype, hopen, -⟩ := mem_orphans.mp ht
      exact ⟨t.lastType, hid, htype, hopen, rfl, rfl, t.row_payload jsonText now⟩
    · rintro ⟨lastType, hid, htype, hopen, hevent, htime, hpayload⟩
      refine List.mem_map.mpr ⟨⟨row.reqId, firstIndex events row.reqId, lastType⟩,
        mem_orphans.mpr ⟨hid, htype, hopen, rfl⟩, ?_⟩
      rw [Trail.row_payload jsonText now ⟨row.reqId, firstIndex events row.reqId, lastType⟩]
        at hpayload
      obtain ⟨reqId, eventType, payloadJson, timestamp⟩ := row
      dsimp only at hevent htime hpayload
      rw [hevent, htime]
      exact congrArg (LogEvent.mk reqId _ · now) (Except.ok.inj hpayload)
  · refine List.pairwise_map.mpr (hordered.imp fun hlt heq => ?_)
    rw [heq] at hlt
    exact Nat.lt_irrefl _ hlt

/-- **The sweep is exact, appends only, and can be resumed.** For every log that verifies:
a completed sweep keeps all rows and adds those that close its orphans, and the longer
log verifies; a second sweep adds nothing. If the sweep stops after any number of
appends and is run again, at whatever times, the log has in the end the rows of an
uninterrupted sweep. And a sweep does complete where SHA-256 has no collision on the
rows. -/
theorem sweep_is_exact_and_resumable (sha256 : Bytes → Octets 32) (jsonText : Json.Value → String)
    (db : LogDb) (rows : List ChainRow) (n : Nat) (hread : db.readRows = .ok rows)
    (hverify : verifyChain sha256 rows = .ok n) :
    (∀ now db' swept, sweepOrphanedRequests sha256 jsonText now db = .ok (db', swept) →
      ∃ added, db.entries <+: db'.entries ∧ db'.readRows = .ok (rows ++ added) ∧
        ClosesOrphans now (rows.map (·.event)) (added.map (·.event)) ∧ swept = added.length ∧
        verifyChain sha256 (rows ++ added) = .ok (rows ++ added).length ∧
        ∀ now', sweepOrphanedRequests sha256 jsonText now' db' = .ok (db', 0)) ∧
    (∀ stopped k cut m again db₂ m₂ uninterrupted db₁ m₁,
      sweepAll sha256 jsonText stopped db 0 ((orphans (rows.map (·.event))).take k) = .ok (cut, m) →
      sweepOrphanedRequests sha256 jsonText again cut = .ok (db₂, m₂) →
      sweepOrphanedRequests sha256 jsonText uninterrupted db = .ok (db₁, m₁) →
      ∃ events₁ events₂, db₁.events = .ok events₁ ∧ db₂.events = .ok events₂ ∧
        events₂.map content = events₁.map content) ∧
    ∀ now, CollisionFree sha256 (inputs (buildChain sha256 (rows.map (·.event) ++
        closing jsonText now (orphans (rows.map (·.event)))))) →
      ∃ db', sweepOrphanedRequests sha256 jsonText now db =
        .ok (db', (orphans (rows.map (·.event))).length) := by
  have hholds := Holds.of_verified hread hverify
  have hrows : rows = buildChain sha256 (rows.map (·.event)) := (verifyChain_ok_iff.mp hverify).1
  generalize rows.map (·.event) = events at hholds hrows ⊢
  refine ⟨?_, ?_, ?_⟩
  · intro now db' swept hsweep
    obtain ⟨happend, rfl⟩ := hholds.sweep_ok.mp hsweep
    have hafter := hholds.appendAll happend
    have hchain : buildChain sha256 (events ++ closing jsonText now (orphans events)) =
        rows ++ buildFrom sha256 (HashChain.final (computeEntryHash sha256) genesisPrevHash events)
          (closing jsonText now (orphans events)) := by
      rw [hrows]
      exact buildFrom_append _ _ _
    refine ⟨buildFrom sha256 (HashChain.final (computeEntryHash sha256) genesisPrevHash events)
      (closing jsonText now (orphans events)), (LogDb.appendAll_chain hholds happend).1,
      ?_, ?_, ?_, ?_, hafter.second_sweep⟩
    · rw [LogDb.readRows_ok, ← hchain]
      exact hafter
    · rw [buildFrom_events]
      exact closesOrphans jsonText now events
    · rw [← List.length_map ChainRow.event, buildFrom_events, closing, List.length_map]
    · rw [← hchain, ← List.length_map ChainRow.event, buildChain, buildFrom_events]
      exact verifyChain_buildChain _
  · intro stopped k cut m again db₂ m₂ uninterrupted db₁ m₁ hstopped hagain huninterrupted
    have hcut := hholds.appendAll (sweepAll_ok.mp hstopped).1
    have hfinal₂ := hcut.appendAll (hcut.sweep_ok.mp hagain).1
    have hfinal₁ := hholds.appendAll (hholds.sweep_ok.mp huninterrupted).1
    refine ⟨_, _, hfinal₁.events_eq, hfinal₂.events_eq, ?_⟩
    -- what was closed before the stop, and what is closed after it
    have hjoin : (closing jsonText uninterrupted ((orphans events).take k)).map content ++
        (closing jsonText uninterrupted ((orphans events).drop k)).map content =
        (closing jsonText uninterrupted (orphans events)).map content := by
      rw [← List.map_append, closing, closing, ← List.map_append, List.take_append_drop, closing]
    rw [orphans_after, List.append_assoc, List.map_append, List.map_append, List.map_append,
      content_closing stopped uninterrupted, content_closing again uninterrupted, hjoin]
  · intro now hfree
    obtain ⟨db', happend⟩ := LogDb.appendAll_ok hholds hfree
    exact ⟨db', hholds.sweep_ok.mpr ⟨happend, rfl⟩⟩

/-- Two requests that the daemon left open, the second of them granted. -/
def openEvents : List LogEvent :=
  [⟨.replicate 16 1, "approval_request", "{}", 10⟩,
    ⟨.replicate 16 2, "approval_request", "{}", 11⟩,
    ⟨.replicate 16 2, "approval_granted", "{}", 12⟩]

/-- Both are closed, and the second sweep finds nothing. -/
theorem open_log_swept_twice :
    ∃ db' added, sweepOrphanedRequests countDigest (fun _ => "") 20 (countLog openEvents) =
        .ok (db', 2) ∧ ClosesOrphans 20 openEvents added ∧
      sweepOrphanedRequests countDigest (fun _ => "") 30 db' = .ok (db', 0) := by
  have hverify : verifyChain countDigest (buildChain countDigest openEvents) = .ok 3 :=
    verifyChain_buildChain openEvents
  obtain ⟨hexact, -, hcompletes⟩ := sweep_is_exact_and_resumable countDigest (fun _ => "") _ _ 3
    (countLog_rows openEvents) hverify
  have hevents : (buildChain countDigest openEvents).map (·.event) = openEvents :=
    buildFrom_events _ _
  rw [hevents] at hexact hcompletes
  have horphans : (orphans openEvents).length = 2 := by decide +kernel
  have hdistinct : ((inputs (buildChain countDigest (openEvents ++
      closing (fun _ => "") 20 (orphans openEvents)))).map countDigest).Nodup := by
    decide +kernel
  obtain ⟨db', hsweep⟩ := hcompletes 20
    ⟨fun x hx y hy => List.inj_on_of_nodup_map hdistinct hx hy, by decide +kernel⟩
  rw [horphans] at hsweep
  obtain ⟨added, -, -, hcloses, -, -, hsecond⟩ := hexact 20 db' 2 hsweep
  exact ⟨db', _, hsweep, hcloses, hsecond 30⟩

end Conveyance.Daemon
