import Conveyance.Storage.LogDiff

/-!
# What a reconciliation report tells

- The three primary categories are the intersection and the two differences of the
  granted and the executed requests, whatever is signed wrongly.
- Timestamps are compared for one execution of a request only. What follows from
  that for a clean report is said in terms of `decisiveExecution`.
-/

namespace Conveyance.Storage

open Lib Crypto Protocol

/-! ## Sorted lists of ids -/

theorem mem_sortIds {ids : List (Octets 16)} {id : Octets 16} : id ∈ sortIds ids ↔ id ∈ ids :=
  (List.perm_insertionSort idLe ids).mem_iff

/-- Sorted, every id once, and exactly those that `P` holds of. -/
structure Lists (ids : List (Octets 16)) (P : Octets 16 → Prop) : Prop where
  sorted : ids.Pairwise fun a b => idLe a b ∧ a ≠ b
  mem_iff : ∀ id, id ∈ ids ↔ P id

theorem lists_sortIds {ids : List (Octets 16)} {P : Octets 16 → Prop} (hnodup : ids.Nodup)
    (hmem : ∀ id, id ∈ ids ↔ P id) : Lists (sortIds ids) P := by
  have hsorted : (sortIds ids).Pairwise idLe := List.pairwise_insertionSort idLe ids
  have hdistinct : (sortIds ids).Nodup := (List.perm_insertionSort idLe ids).nodup_iff.mpr hnodup
  exact ⟨hsorted.and hdistinct, fun id => mem_sortIds.trans (hmem id)⟩

/-! ## Granted and executed requests -/

section Categories

variable (verify : Octets 32 → Bytes → Octets 64 → Bool) (phonePub : Octets 32)

/-- There is a validly signed grant of the request. -/
def Granted (phoneRows : List PhoneLogRow) (id : Octets 16) : Prop :=
  ∃ row ∈ phoneRows, row.verifySignature verify phonePub = true ∧ row.Grants id

/-- There is an execution of the request. -/
def Executed (pcEvents : List PcEvent) (id : Octets 16) : Prop := ∃ ev ∈ pcEvents, ev.Executes id

variable {verify phonePub} {phoneRows : List PhoneLogRow} {pcEvents : List PcEvent} {id : Octets 16}

theorem isSome_granted :
    ((grants (trustedRows verify phonePub phoneRows)).lookup id).isSome ↔
      Granted verify phonePub phoneRows id := by
  rw [granted_lookup, firstGrant, Option.isSome_map, List.find?_isSome]
  constructor
  · rintro ⟨row, hrow, hgrants⟩
    obtain ⟨hmem, htrusted⟩ := List.mem_filter.mp hrow
    exact ⟨row, hmem, htrusted, of_decide_eq_true hgrants⟩
  · rintro ⟨row, hmem, htrusted, hgrants⟩
    exact ⟨row, List.mem_filter.mpr ⟨hmem, htrusted⟩, decide_eq_true hgrants⟩

theorem isSome_decisive : (decisiveExecution pcEvents id).isSome ↔ Executed pcEvents id := by
  have hlast : (pcEvents.filter fun ev => ev.eventType = "execute_result" ∧
      ev.reqId = id).getLast?.isSome ↔ ∃ ev ∈ pcEvents, ev.eventType = "execute_result" ∧
        ev.reqId = id := by
    rw [List.getLast?_isSome, ne_eq, List.filter_eq_nil_iff]
    push Not
    simp only [decide_eq_true_eq]
  rw [decisiveExecution, Option.isSome_or, Bool.or_eq_true, hlast, List.find?_isSome]
  constructor
  · rintro (⟨ev, hmem, htype, hid⟩ | ⟨ev, hmem, hev⟩)
    · exact ⟨ev, hmem, .inr htype, hid⟩
    · obtain ⟨htype, hid⟩ := of_decide_eq_true hev
      exact ⟨ev, hmem, .inl htype, hid⟩
  · rintro ⟨ev, hmem, htype | htype, hid⟩
    · exact .inr ⟨ev, hmem, decide_eq_true ⟨htype, hid⟩⟩
    · exact .inl ⟨ev, hmem, htype, hid⟩

theorem isSome_executed : ((pcExecuted pcEvents).lookup id).isSome ↔ Executed pcEvents id := by
  rw [executed_lookup, isSome_decisive]

theorem mem_keys_iter {V : Type} {m : Index V} {order : Order} :
    id ∈ (m.iter order).map Prod.fst ↔ (m.lookup id).isSome := by
  rw [List.mem_map, Option.isSome_iff_exists]
  constructor
  · rintro ⟨e, he, rfl⟩
    exact ⟨e.2, Index.mem_iter.mp he⟩
  · rintro ⟨v, hv⟩
    exact ⟨(id, v), Index.mem_iter.mpr hv, rfl⟩

theorem lists_keys {V : Type} {m : Index V} (order : Order) (q : Octets 16 → Bool)
    {P : Octets 16 → Prop} (hP : ∀ id, (m.lookup id).isSome ∧ q id = true ↔ P id) :
    Lists (sortIds (((m.iter order).map Prod.fst).filter q)) P := by
  refine lists_sortIds ((Index.nodup_iter order m).filter q) fun id => ?_
  rw [List.mem_filter, mem_keys_iter, hP]

theorem filter_keys {V : Type} (entries : List (Octets 16 × V)) (q : Octets 16 → Bool) :
    (entries.filter fun e => q e.1).map Prod.fst = (entries.map Prod.fst).filter q := by
  rw [List.filter_map]
  rfl

end Categories

section Report

variable (verify : Octets 32 → Bytes → Octets 64 → Bool) (fromStr : String → Option Json.Value)
  (order : Order) (pcEvents : List PcEvent) (phoneRows : List PhoneLogRow) (phonePub : Octets 32)

theorem lists_matched :
    Lists (diffLogs verify fromStr order pcEvents phoneRows phonePub).matched fun id =>
      Granted verify phonePub phoneRows id ∧ Executed pcEvents id := by
  unfold diffLogs
  dsimp only
  rw [filter_keys _ fun id => ((pcExecuted pcEvents).lookup id).isSome]
  refine lists_keys order _ fun id => ?_
  rw [isSome_granted, isSome_executed]

theorem lists_missing :
    Lists (diffLogs verify fromStr order pcEvents phoneRows phonePub).missingExecution fun id =>
      Granted verify phonePub phoneRows id ∧ ¬ Executed pcEvents id := by
  unfold diffLogs
  dsimp only
  rw [filter_keys _ fun id => ((pcExecuted pcEvents).lookup id).isNone]
  refine lists_keys order _ fun id => ?_
  rw [isSome_granted, ← isSome_executed, Bool.not_eq_true, Option.isSome_eq_false_iff]

theorem lists_unapproved :
    Lists (diffLogs verify fromStr order pcEvents phoneRows phonePub).executionWithoutApproval
      fun id => Executed pcEvents id ∧ ¬ Granted verify phonePub phoneRows id := by
  refine lists_keys order _ fun id => ?_
  rw [isSome_executed, ← isSome_granted, Bool.not_eq_true, Option.isSome_eq_false_iff]

/-- The anomalies reported: the decisive execution came before the first grant. -/
theorem mem_anomalies {a : TimestampAnomaly} :
    a ∈ (diffLogs verify fromStr order pcEvents phoneRows phonePub).timestampAnomalies ↔
      ∃ exec approvedAt, decisiveExecution pcEvents a.reqId = some exec ∧
        firstGrant (trustedRows verify phonePub phoneRows) a.reqId = some approvedAt ∧
        exec.timestamp < approvedAt ∧ a = ⟨a.reqId, exec.timestamp, approvedAt⟩ := by
  unfold diffLogs
  rw [(List.perm_insertionSort _ _).mem_iff, List.mem_filterMap]
  constructor
  · rintro ⟨⟨id, approvedAt⟩, hgrant, ha⟩
    have hgrant := Index.mem_iter.mp hgrant
    rw [granted_lookup] at hgrant
    obtain ⟨exec, hexec, ha⟩ := Option.bind_eq_some_iff.mp ha
    rw [executed_lookup] at hexec
    split_ifs at ha with hlt
    cases ha
    exact ⟨exec, approvedAt, hexec, hgrant, hlt, rfl⟩
  · rintro ⟨exec, approvedAt, hexec, hgrant, hlt, ha⟩
    refine ⟨(a.reqId, approvedAt), ?_, ?_⟩
    · rw [Index.mem_iter, granted_lookup]
      exact hgrant
    · refine Option.bind_eq_some_iff.mpr ⟨exec, ?_, ?_⟩
      · rw [executed_lookup]
        exact hexec
      · rw [if_pos hlt, ← ha]

/-- What is not about the phone's own signatures. -/
structure SameFindings (report report' : DiffReport) : Prop where
  matched : report'.matched.Perm report.matched
  missingExecution : report'.missingExecution.Perm report.missingExecution
  executionWithoutApproval :
    report'.executionWithoutApproval.Perm report.executionWithoutApproval
  timestampAnomalies : report'.timestampAnomalies.Perm report.timestampAnomalies
  openRequests : report'.openRequests.Perm report.openRequests
  pcFailures : (report'.signatureFailures.filter (·.side = .pc)).Perm
    (report.signatureFailures.filter (·.side = .pc))

theorem pcFailures_of_report :
    ((diffLogs verify fromStr order pcEvents phoneRows phonePub).signatureFailures.filter
      (·.side = .pc)).Perm (pcFailures verify fromStr phonePub pcEvents) := by
  unfold diffLogs
  refine ((List.perm_insertionSort failureLe _).filter _).trans ?_
  have hphone : (phoneFailures verify phonePub phoneRows).filter (·.side = .pc) = [] := by
    rw [phoneFailures, List.filter_map, List.map_eq_nil_iff, List.filter_eq_nil_iff]
    exact fun _ _ => by simp
  have hpc : (pcFailures verify fromStr phonePub pcEvents).filter (·.side = .pc) =
      pcFailures verify fromStr phonePub pcEvents := by
    rw [pcFailures, List.filter_map, List.filter_eq_self.mpr]
    exact fun _ _ => by simp
  rw [List.filter_append, hphone, hpc, List.nil_append]

/-- Maps with one content come out as one multiset. -/
theorem iter_perm {V : Type} (m : Index V) (order' : Order) : (m.iter order').Perm (m.iter order) :=
  (order'.perm _).trans (order.perm _).symm

/-- Rows that do not verify have no part in the findings, and neither does the order
in which the maps are gone through. -/
theorem sameFindings_of_trusted (order' : Order) {phoneRows' : List PhoneLogRow}
    (htrusted : trustedRows verify phonePub phoneRows' = trustedRows verify phonePub phoneRows) :
    SameFindings (diffLogs verify fromStr order pcEvents phoneRows phonePub)
      (diffLogs verify fromStr order' pcEvents phoneRows' phonePub) := by
  have hsort : ∀ {l l' : List (Octets 16)}, l'.Perm l → (sortIds l').Perm (sortIds l) := fun h =>
    (List.perm_insertionSort idLe _).trans (h.trans (List.perm_insertionSort idLe _).symm)
  refine ⟨?_, ?_, ?_, ?_, ?_, ?_⟩
  · exact hsort (htrusted ▸ ((iter_perm order _ order').filter _).map _)
  · exact hsort (htrusted ▸ ((iter_perm order _ order').filter _).map _)
  · exact hsort (htrusted ▸ ((iter_perm order _ order').map _).filter _)
  · refine (List.perm_insertionSort _ _).trans (.trans ?_ (List.perm_insertionSort _ _).symm)
    exact htrusted ▸ (iter_perm order _ order').filterMap _
  · rw [diffLogs, diffLogs, htrusted]
  · exact (pcFailures_of_report ..).trans (pcFailures_of_report ..).symm

end Report

/-- **Reconciliation categories are exact.** For every two logs: the matched requests
are those granted and executed, the missing executions those granted only, the
executions without approval those executed only, each listed once and in order. And
the phone rows that do not verify, however many and wherever they stand, change
nothing but the list of the phone's failures. -/
theorem reconciliation_is_exact (verify : Octets 32 → Bytes → Octets 64 → Bool)
    (fromStr : String → Option Json.Value) (order : Order) (pcEvents : List PcEvent)
    (phoneRows : List PhoneLogRow) (phonePub : Octets 32) :
    let report := diffLogs verify fromStr order pcEvents phoneRows phonePub
    let granted := Granted verify phonePub phoneRows
    let executed := Executed pcEvents
    Lists report.matched (fun id => granted id ∧ executed id) ∧
      Lists report.missingExecution (fun id => granted id ∧ ¬ executed id) ∧
      Lists report.executionWithoutApproval (fun id => executed id ∧ ¬ granted id) ∧
      ∀ (order' : Order) (phoneRows' : List PhoneLogRow),
        trustedRows verify phonePub phoneRows' = trustedRows verify phonePub phoneRows →
        SameFindings report (diffLogs verify fromStr order' pcEvents phoneRows' phonePub) :=
  ⟨lists_matched .., lists_missing .., lists_unapproved .., fun order' _ htrusted =>
    sameFindings_of_trusted _ _ _ _ _ _ order' htrusted⟩

/-! ## Clean reports -/

/-- What a report should tell of consent: if it is clean, every execution has a grant
that is not later; and a request with an execution before its first grant is flagged. -/
def TellsConsent (verify : Octets 32 → Bytes → Octets 64 → Bool) (phonePub : Octets 32)
    (pcEvents : List PcEvent) (phoneRows : List PhoneLogRow) (report : DiffReport) : Prop :=
  (report.clean = true → ∀ ev ∈ pcEvents, ev.Executes ev.reqId →
    ∃ row ∈ phoneRows, row.verifySignature verify phonePub = true ∧ row.Grants ev.reqId ∧
      row.timestamp ≤ ev.timestamp) ∧
  ∀ ev ∈ pcEvents, ev.Executes ev.reqId → ∀ approvedAt,
    firstGrant (trustedRows verify phonePub phoneRows) ev.reqId = some approvedAt →
    ev.timestamp < approvedAt → ∃ a ∈ report.timestampAnomalies, a.reqId = ev.reqId

/-- **A clean report means consent where the compared execution is the early one.**
The report tells of consent exactly when, for each request with an execution before
its first trusted grant, the last result came before that grant, too, or the first
sent request if there is no result. -/
theorem clean_report_follows_consent (verify : Octets 32 → Bytes → Octets 64 → Bool)
    (fromStr : String → Option Json.Value) (order : Order) (pcEvents : List PcEvent)
    (phoneRows : List PhoneLogRow) (phonePub : Octets 32) :
    TellsConsent verify phonePub pcEvents phoneRows
        (diffLogs verify fromStr order pcEvents phoneRows phonePub) ↔
      ∀ ev ∈ pcEvents, ev.Executes ev.reqId → ∀ approvedAt,
        firstGrant (trustedRows verify phonePub phoneRows) ev.reqId = some approvedAt →
        ev.timestamp < approvedAt → ∀ exec, decisiveExecution pcEvents ev.reqId = some exec →
          exec.timestamp < approvedAt := by
  constructor
  · rintro ⟨-, hflagged⟩ ev hev hexecutes approvedAt hgrant hearly exec hexec
    obtain ⟨a, ha, hid⟩ := hflagged ev hev hexecutes approvedAt hgrant hearly
    obtain ⟨exec', approvedAt', hexec', hgrant', hlt, -⟩ := (mem_anomalies ..).mp ha
    rw [hid, hexec] at hexec'
    rw [hid, hgrant] at hgrant'
    cases hexec'
    cases hgrant'
    exact hlt
  · intro hdecisive
    have hflagged : ∀ ev ∈ pcEvents, ev.Executes ev.reqId → ∀ approvedAt,
        firstGrant (trustedRows verify phonePub phoneRows) ev.reqId = some approvedAt →
        ev.timestamp < approvedAt →
        ∃ a ∈ (diffLogs verify fromStr order pcEvents phoneRows phonePub).timestampAnomalies,
          a.reqId = ev.reqId := by
      intro ev hev hexecutes approvedAt hgrant hearly
      obtain ⟨exec, hexec⟩ := Option.isSome_iff_exists.mp (isSome_decisive.mpr ⟨ev, hev, hexecutes⟩)
      have hlt := hdecisive ev hev hexecutes approvedAt hgrant hearly exec hexec
      exact ⟨⟨ev.reqId, exec.timestamp, approvedAt⟩,
        (mem_anomalies ..).mpr ⟨exec, approvedAt, hexec, hgrant, hlt, rfl⟩, rfl⟩
    refine ⟨fun hclean ev hev hexecutes => ?_, hflagged⟩
    rw [DiffReport.clean, Bool.and_eq_true, Bool.and_eq_true, List.isEmpty_iff, List.isEmpty_iff,
      List.isEmpty_iff] at hclean
    obtain ⟨⟨hunapproved, -⟩, hanomalies⟩ := hclean
    -- the request is granted, since none is executed without approval
    have hgranted : Granted verify phonePub phoneRows ev.reqId := by
      by_contra hnot
      have hmem := ((lists_unapproved verify fromStr order pcEvents phoneRows phonePub).mem_iff
        ev.reqId).mpr ⟨⟨ev, hev, hexecutes⟩, hnot⟩
      rw [hunapproved] at hmem
      cases hmem
    obtain ⟨approvedAt, hgrant⟩ := Option.isSome_iff_exists.mp (isSome_granted.mpr hgranted)
    rw [granted_lookup] at hgrant
    obtain ⟨row, hrow, rfl⟩ := Option.map_eq_some_iff.mp hgrant
    obtain ⟨hmem, htrusted⟩ := List.mem_filter.mp (List.mem_of_find?_eq_some hrow)
    have hgrants := List.find?_some hrow
    refine ⟨row, hmem, htrusted, of_decide_eq_true hgrants, ?_⟩
    by_contra hlate
    obtain ⟨a, ha, -⟩ := hflagged ev hev hexecutes row.timestamp hgrant (Int64.not_le.mp hlate)
    rw [hanomalies] at ha
    cases ha

def earlyId : Octets 16 := .replicate 16 7

def lateGrant : PhoneLogRow := ⟨earlyId, "approval_granted", "{}", 100, .replicate 64 0⟩

/-- The request went out before its grant, and its result came after. -/
def earlyEvents : List PcEvent :=
  [⟨earlyId, "execute_sent", "{}", 50⟩, ⟨earlyId, "execute_result", "{}", 150⟩]

/-- The report is clean, and the only grant is later than the execution. -/
theorem late_grant_is_clean :
    let report := diffLogs (fun _ _ _ => true) (fun _ => none) .insertion earlyEvents [lateGrant]
      (.replicate 32 0)
    report.clean = true ∧ report.matched = [earlyId] ∧ report.timestampAnomalies = [] ∧
      ¬ TellsConsent (fun _ _ _ => true) (.replicate 32 0) earlyEvents [lateGrant] report := by
  intro report
  have hclean : report.clean = true := by decide +kernel
  refine ⟨hclean, by decide +kernel, by decide +kernel, fun htells => ?_⟩
  obtain ⟨row, hrow, -, -, htime⟩ := htells.1 hclean _ List.mem_cons_self (by decide)
  rw [List.mem_singleton.mp hrow] at htime
  exact absurd htime (by decide)

end Conveyance.Storage
