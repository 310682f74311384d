import Conveyance.Storage.Reconciliation

/-!
# The lists of a report: open requests, and in which order entries stand

- Open requests are found in the list of all the requests the phone received, and of
  the decisions only the grants are looked up: a request that was denied or has
  expired stays in the list, and one that was logged twice is in it twice.
- Lists that come out of a map are sorted afterwards. Ids are sorted by a total order,
  and so the map's own order is forgotten. Anomalies are sorted by the time of the
  execution, which several of them can share.
-/

namespace Conveyance.Storage

open Lib Crypto Protocol

/-! ## Open requests -/

/-- The row records that the phone received the request. -/
def PhoneLogRow.Requests (row : PhoneLogRow) (id : Octets 16) : Prop :=
  row.eventType = "approval_request" ∧ row.reqId = id

instance (row : PhoneLogRow) (id : Octets 16) : Decidable (row.Requests id) :=
  inferInstanceAs (Decidable (_ ∧ _))

/-- The row records that the request was refused, or ran out. -/
def PhoneLogRow.Refuses (row : PhoneLogRow) (id : Octets 16) : Prop :=
  (row.eventType = "approval_denied" ∨ row.eventType = "approval_expired") ∧ row.reqId = id

/-- The row records a decision on the request. -/
def PhoneLogRow.Decides (row : PhoneLogRow) (id : Octets 16) : Prop :=
  row.Grants id ∨ row.Refuses id

section OpenRequests

variable (verify : Octets 32 → Bytes → Octets 64 → Bool) (phonePub : Octets 32)

/-- There is a validly signed row of the request. -/
def Requested (phoneRows : List PhoneLogRow) (id : Octets 16) : Prop :=
  ∃ row ∈ phoneRows, row.verifySignature verify phonePub = true ∧ row.Requests id

/-- There is a validly signed decision. -/
def Decided (phoneRows : List PhoneLogRow) (id : Octets 16) : Prop :=
  ∃ row ∈ phoneRows, row.verifySignature verify phonePub = true ∧ row.Decides id

/-- There is a validly signed refusal. -/
def Refused (phoneRows : List PhoneLogRow) (id : Octets 16) : Prop :=
  ∃ row ∈ phoneRows, row.verifySignature verify phonePub = true ∧ row.Refuses id

/-- Each once, the requests received, not decided and not executed. -/
def ListsUndecided (pcEvents : List PcEvent) (phoneRows : List PhoneLogRow)
    (listed : List (Octets 16)) : Prop :=
  listed.Nodup ∧ ∀ id, id ∈ listed ↔ Requested verify phonePub phoneRows id ∧
    ¬ Decided verify phonePub phoneRows id ∧ ¬ Executed pcEvents id

/-- The validly signed rows of the request. -/
def requestRows (phoneRows : List PhoneLogRow) (id : Octets 16) : List PhoneLogRow :=
  (trustedRows verify phonePub phoneRows).filter fun row => decide (row.Requests id)

variable {verify phonePub} {phoneRows : List PhoneLogRow} {pcEvents : List PcEvent} {id : Octets 16}

theorem decided_iff :
    Decided verify phonePub phoneRows id ↔
      Granted verify phonePub phoneRows id ∨ Refused verify phonePub phoneRows id := by
  simp only [Decided, Granted, Refused, PhoneLogRow.Decides, and_or_left, exists_or]

theorem mem_requestRows {row : PhoneLogRow} :
    row ∈ requestRows verify phonePub phoneRows id ↔
      row ∈ phoneRows ∧ row.verifySignature verify phonePub = true ∧ row.Requests id := by
  rw [requestRows, trustedRows, List.mem_filter, List.mem_filter, decide_eq_true_eq, and_assoc]

theorem requestRows_pos :
    0 < (requestRows verify phonePub phoneRows id).length ↔
      Requested verify phonePub phoneRows id := by
  rw [List.length_pos_iff_exists_mem]
  exact exists_congr fun row => mem_requestRows

variable (verify phonePub phoneRows pcEvents)

/-- Every row of the request has its own entry, unless it was granted or executed. -/
theorem count_openRequests (fromStr : String → Option Json.Value) (order : Order) (id : Octets 16) :
    (¬ Granted verify phonePub phoneRows id ∧ ¬ Executed pcEvents id →
      (diffLogs verify fromStr order pcEvents phoneRows phonePub).openRequests.count id =
        (requestRows verify phonePub phoneRows id).length) ∧
    (Granted verify phonePub phoneRows id ∨ Executed pcEvents id →
      (diffLogs verify fromStr order pcEvents phoneRows phonePub).openRequests.count id = 0) := by
  have hcount : ∀ rows : List PhoneLogRow,
      ((rows.filter (·.eventType = "approval_request")).map (·.reqId)).count id =
        (rows.filter fun row => decide (row.Requests id)).length := by
    intro rows
    rw [List.count, List.countP_map, List.countP_filter, List.countP_eq_length_filter]
    refine congrArg List.length (List.filter_congr fun row _ => ?_)
    show (row.reqId == id && decide (row.eventType = "approval_request")) =
      decide (row.eventType = "approval_request" ∧ row.reqId = id)
    rw [Bool.and_comm, beq_eq_decide, Bool.decide_and]
  have hopen : ((grants (trustedRows verify phonePub phoneRows)).lookup id).isNone &&
      ((pcExecuted pcEvents).lookup id).isNone ↔
        ¬ Granted verify phonePub phoneRows id ∧ ¬ Executed pcEvents id := by
    rw [Bool.and_eq_true, ← isSome_granted, ← isSome_executed, Option.not_isSome_iff_eq_none,
      Option.not_isSome_iff_eq_none, Option.isNone_iff_eq_none, Option.isNone_iff_eq_none]
  unfold diffLogs
  dsimp only
  rw [sortIds, (List.perm_insertionSort idLe _).count_eq]
  constructor
  · intro hundecided
    refine (List.count_filter ?_).trans (hcount _)
    exact hopen.mpr hundecided
  · intro hsettled
    rw [List.count_eq_zero, List.mem_filter, hopen]
    exact fun h => hsettled.elim h.2.1 h.2.2

end OpenRequests

/-- **Open requests are the undecided ones where refusals are missing and rows are not
repeated.** The list of open requests holds, each once, exactly the requests received,
not decided and not executed, if and only if each request received that was neither
granted nor executed has one valid row and no valid refusal. -/
theorem openRequests_are_undecided (verify : Octets 32 → Bytes → Octets 64 → Bool)
    (fromStr : String → Option Json.Value) (order : Order) (pcEvents : List PcEvent)
    (phoneRows : List PhoneLogRow) (phonePub : Octets 32) :
    ListsUndecided verify phonePub pcEvents phoneRows
        (diffLogs verify fromStr order pcEvents phoneRows phonePub).openRequests ↔
      ∀ id, Requested verify phonePub phoneRows id → ¬ Granted verify phonePub phoneRows id →
        ¬ Executed pcEvents id → (requestRows verify phonePub phoneRows id).length = 1 ∧
          ¬ Refused verify phonePub phoneRows id := by
  have hcount := count_openRequests verify phonePub phoneRows pcEvents fromStr order
  generalize (diffLogs verify fromStr order pcEvents phoneRows phonePub).openRequests = listed
    at hcount ⊢
  constructor
  · rintro ⟨hnodup, hmem⟩ id hrequested hgranted hexecuted
    have hlength := (hcount id).1 ⟨hgranted, hexecuted⟩
    have hpos : 0 < listed.count id := by
      rw [hlength]
      exact requestRows_pos.mpr hrequested
    have hlisted : id ∈ listed := List.count_pos_iff.mp hpos
    constructor
    · rw [← hlength]
      exact List.count_eq_one_of_mem hnodup hlisted
    · intro hrefused
      exact ((hmem id).mp hlisted).2.1 (decided_iff.mpr (Or.inr hrefused))
  · intro hone
    -- how often an id is listed, under the condition
    have hlisted : ∀ id, 0 < listed.count id → Requested verify phonePub phoneRows id ∧
        ¬ Granted verify phonePub phoneRows id ∧ ¬ Executed pcEvents id ∧
        listed.count id = (requestRows verify phonePub phoneRows id).length := by
      intro id hpos
      by_cases hopen : ¬ Granted verify phonePub phoneRows id ∧ ¬ Executed pcEvents id
      · have hlength := (hcount id).1 hopen
        exact ⟨requestRows_pos.mp (hlength ▸ hpos), hopen.1, hopen.2, hlength⟩
      · rw [← not_or, not_not] at hopen
        exact absurd ((hcount id).2 hopen) (Nat.ne_of_gt hpos)
    constructor
    · rw [List.nodup_iff_count_le_one]
      intro id
      by_cases hpos : 0 < listed.count id
      · obtain ⟨hrequested, hgranted, hexecuted, hlength⟩ := hlisted id hpos
        exact Nat.le_of_eq (hlength.trans (hone id hrequested hgranted hexecuted).1)
      · omega
    · intro id
      rw [← List.count_pos_iff, decided_iff, not_or]
      constructor
      · intro hpos
        obtain ⟨hrequested, hgranted, hexecuted, -⟩ := hlisted id hpos
        exact ⟨hrequested, ⟨hgranted, (hone id hrequested hgranted hexecuted).2⟩, hexecuted⟩
      · rintro ⟨hrequested, ⟨hgranted, -⟩, hexecuted⟩
        rw [(hcount id).1 ⟨hgranted, hexecuted⟩]
        exact requestRows_pos.mpr hrequested

/-- A request, and that the user denied it. -/
def deniedRows : List PhoneLogRow :=
  [⟨earlyId, "approval_request", "{}", 100, .replicate 64 0⟩,
    ⟨earlyId, "approval_denied", "{}", 110, .replicate 64 0⟩]

/-- The denied request is listed as open. -/
theorem denied_request_stays_open :
    let report := diffLogs (fun _ _ _ => true) (fun _ => none) .insertion [] deniedRows
      (.replicate 32 0)
    report.openRequests = [earlyId] ∧
      Decided (fun _ _ _ => true) (.replicate 32 0) deniedRows earlyId ∧
      ¬ ListsUndecided (fun _ _ _ => true) (.replicate 32 0) [] deniedRows report.openRequests := by
  intro report
  have hlisted : report.openRequests = [earlyId] := by decide +kernel
  have hdecided : Decided (fun _ _ _ => true) (.replicate 32 0) deniedRows earlyId :=
    ⟨_, List.mem_cons_of_mem _ List.mem_cons_self, by decide +kernel, Or.inr ⟨Or.inl rfl, rfl⟩⟩
  refine ⟨hlisted, hdecided, fun hexact => ?_⟩
  have hmem : earlyId ∈ report.openRequests := by
    rw [hlisted]
    exact List.mem_singleton_self _
  exact ((hexact.2 earlyId).mp hmem).2.1 hdecided

/-! ## The order of the lists -/

instance : Std.Antisymm idLe := ⟨fun _ _ h h' => Subtype.ext (lexLe_antisymm h h')⟩

theorem sortIds_eq_of_perm {ids ids' : List (Octets 16)} (h : ids.Perm ids') :
    sortIds ids = sortIds ids' := by
  refine List.Perm.eq_of_pairwise' (List.pairwise_insertionSort idLe ids)
    (List.pairwise_insertionSort idLe ids') ?_
  exact (List.perm_insertionSort idLe ids).trans (h.trans (List.perm_insertionSort idLe ids').symm)

/-- The entries from the other end. -/
def Order.reversed (order : Order) : Order :=
  ⟨fun l => (order.entries l).reverse, fun l => (List.reverse_perm _).trans (order.perm l)⟩

theorem iter_reversed {V : Type} (order : Order) (m : Index V) :
    m.iter order.reversed = (m.iter order).reverse := rfl

theorem pair_order_total {α : Type} {l : List α} {a b : α} (ha : a ∈ l) (hb : b ∈ l)
    (hne : a ≠ b) : [a, b].Sublist l ∨ [b, a].Sublist l := by
  induction l with
  | nil => cases ha
  | cons x l ih =>
    rcases List.mem_cons.mp ha with rfl | hal
    · have hbl := (List.mem_cons.mp hb).resolve_left hne.symm
      exact .inl ((List.singleton_sublist.mpr hbl).cons_cons a)
    · rcases List.mem_cons.mp hb with rfl | hbl
      · exact .inr ((List.singleton_sublist.mpr hal).cons_cons b)
      · exact (ih hal hbl).imp (·.cons x) (·.cons x)

theorem pair_order_unique {α : Type} {l : List α} (hnodup : l.Nodup) {a b : α}
    (hab : [a, b].Sublist l) (hba : [b, a].Sublist l) : False := by
  induction l with
  | nil => cases hab
  | cons x l ih =>
    obtain ⟨hx, hnodup⟩ := List.nodup_cons.mp hnodup
    -- whichever of the two comes first in one order is not found behind the head
    cases hab with
    | cons _ hab =>
      cases hba with
      | cons _ hba => exact ih hnodup hab hba
      | cons_cons _ hba => exact hx (hab.subset (List.mem_cons_of_mem _ List.mem_cons_self))
    | cons_cons _ hab =>
      cases hba with
      | cons _ hba => exact hx (hba.subset (List.mem_cons_of_mem _ List.mem_cons_self))
      | cons_cons _ hba => exact hx (hab.subset List.mem_cons_self)

section Anomalies

variable (verify : Octets 32 → Bytes → Octets 64 → Bool) (phonePub : Octets 32)
  (pcEvents : List PcEvent) (phoneRows : List PhoneLogRow)

/-- The compared execution of the request was at `time`, before the first grant. -/
def EarlyAt (id : Octets 16) (time : Int64) : Prop :=
  ∃ exec approvedAt, decisiveExecution pcEvents id = some exec ∧
    firstGrant (trustedRows verify phonePub phoneRows) id = some approvedAt ∧
    exec.timestamp < approvedAt ∧ exec.timestamp = time

/-- The anomalies as the map brings them, before they are sorted. -/
def foundAnomalies (order : Order) : List TimestampAnomaly :=
  ((grants (trustedRows verify phonePub phoneRows)).iter order).filterMap
    (anomaly (pcExecuted pcEvents))

variable {verify phonePub pcEvents phoneRows} {order : Order}

theorem anomaly_grant {executed : Index PcEvent} {grant : Octets 16 × Int64} {a : TimestampAnomaly}
    (h : anomaly executed grant = some a) : grant = (a.reqId, a.approvedAt) := by
  obtain ⟨exec, -, ha⟩ := Option.bind_eq_some_iff.mp h
  split_ifs at ha
  cases ha
  rfl

theorem nodup_foundAnomalies : (foundAnomalies verify phonePub pcEvents phoneRows order).Nodup := by
  have hentries : ((grants (trustedRows verify phonePub phoneRows)).iter order).Nodup :=
    List.Nodup.of_map Prod.fst (Index.nodup_iter ..)
  refine hentries.filterMap fun grant grant' a h h' => ?_
  rw [anomaly_grant h, anomaly_grant h']

variable (fromStr : String → Option Json.Value)

theorem mem_foundAnomalies {a : TimestampAnomaly} :
    a ∈ foundAnomalies verify phonePub pcEvents phoneRows order ↔
      a ∈ (diffLogs verify fromStr order pcEvents phoneRows phonePub).timestampAnomalies :=
  (List.perm_insertionSort _ _).mem_iff.symm

/-- A request found too early has an anomaly that says when. -/
theorem earlyAt_iff (order : Order) {id : Octets 16} {time : Int64} :
    EarlyAt verify phonePub pcEvents phoneRows id time ↔
      ∃ a ∈ foundAnomalies verify phonePub pcEvents phoneRows order,
        a.reqId = id ∧ a.executedAt = time := by
  simp only [mem_foundAnomalies fun _ => none, mem_anomalies]
  constructor
  · rintro ⟨exec, approvedAt, hexec, hgrant, hlt, htime⟩
    exact ⟨⟨id, exec.timestamp, approvedAt⟩, ⟨exec, approvedAt, hexec, hgrant, hlt, rfl⟩, rfl,
      htime⟩
  · rintro ⟨a, ⟨exec, approvedAt, hexec, hgrant, hlt, ha⟩, rfl, rfl⟩
    exact ⟨exec, approvedAt, hexec, hgrant, hlt, by rw [ha]⟩

theorem eq_of_reqId_eq {a a' : TimestampAnomaly}
    (ha : a ∈ foundAnomalies verify phonePub pcEvents phoneRows order)
    (ha' : a' ∈ foundAnomalies verify phonePub pcEvents phoneRows order)
    (hid : a.reqId = a'.reqId) : a = a' := by
  rw [mem_foundAnomalies fun _ => none, mem_anomalies] at ha ha'
  obtain ⟨exec, approvedAt, hexec, hgrant, -, ha⟩ := ha
  obtain ⟨exec', approvedAt', hexec', hgrant', -, ha'⟩ := ha'
  rw [← hid, hexec] at hexec'
  rw [← hid, hgrant] at hgrant'
  cases hexec'
  cases hgrant'
  rw [ha, ha', hid]

/-- Sorted by the time of the execution. -/
theorem pairwise_anomalies :
    (diffLogs verify fromStr order pcEvents phoneRows phonePub).timestampAnomalies.Pairwise
      fun a b => a.executedAt ≤ b.executedAt := by
  have : Std.Total fun a b : TimestampAnomaly => a.executedAt ≤ b.executedAt :=
    ⟨fun a b => Int64.le_total a.executedAt b.executedAt⟩
  have : IsTrans TimestampAnomaly fun a b => a.executedAt ≤ b.executedAt :=
    ⟨fun _ _ _ => Int64.le_trans⟩
  exact List.pairwise_insertionSort _ _

/-- If two anomalies share their time, the reversed map has them the other way round. -/
theorem anomalies_reversed {a b : TimestampAnomaly} (htime : a.executedAt = b.executedAt)
    (hab : [a, b].Sublist (foundAnomalies verify phonePub pcEvents phoneRows order)) :
    (diffLogs verify fromStr order pcEvents phoneRows phonePub).timestampAnomalies ≠
      (diffLogs verify fromStr order.reversed pcEvents phoneRows phonePub).timestampAnomalies := by
  intro heq
  have hrev : foundAnomalies verify phonePub pcEvents phoneRows order.reversed =
      (foundAnomalies verify phonePub pcEvents phoneRows order).reverse := by
    rw [foundAnomalies, iter_reversed, List.filterMap_reverse]
    rfl
  have hba : [b, a].Sublist (foundAnomalies verify phonePub pcEvents phoneRows order.reversed) := by
    rw [hrev]
    exact hab.reverse
  -- the sort is stable, so each report keeps the order of its map
  have hsorted : [a, b].Sublist
      (diffLogs verify fromStr order pcEvents phoneRows phonePub).timestampAnomalies :=
    List.pair_sublist_insertionSort (Int64.le_of_eq htime) hab
  have hsorted' : [b, a].Sublist
      (diffLogs verify fromStr order.reversed pcEvents phoneRows phonePub).timestampAnomalies :=
    List.pair_sublist_insertionSort (Int64.le_of_eq htime.symm) hba
  rw [← heq] at hsorted'
  exact pair_order_unique ((List.perm_insertionSort _ _).nodup_iff.mpr nodup_foundAnomalies)
    hsorted hsorted'

end Anomalies

/-- **Reports do not depend on the order of the maps where early executions differ in
time.** Every two orders give one report if and only if no two requests whose compared
execution came before their first grant were executed at one time. -/
theorem report_ignores_map_order (verify : Octets 32 → Bytes → Octets 64 → Bool)
    (fromStr : String → Option Json.Value) (pcEvents : List PcEvent)
    (phoneRows : List PhoneLogRow) (phonePub : Octets 32) :
    (∀ order order' : Order, diffLogs verify fromStr order pcEvents phoneRows phonePub =
        diffLogs verify fromStr order' pcEvents phoneRows phonePub) ↔
      ∀ id id' time, EarlyAt verify phonePub pcEvents phoneRows id time →
        EarlyAt verify phonePub pcEvents phoneRows id' time → id = id' := by
  constructor
  · intro hsame id id' time hearly hearly'
    by_contra hne
    obtain ⟨a, ha, rfl, rfl⟩ := (earlyAt_iff .insertion).mp hearly
    obtain ⟨b, hb, rfl, htime⟩ := (earlyAt_iff .insertion).mp hearly'
    have hab : a ≠ b := fun h => hne (congrArg _ h)
    have hreversed := congrArg DiffReport.timestampAnomalies
      (hsame .insertion Order.insertion.reversed)
    rcases pair_order_total ha hb hab with h | h
    · exact anomalies_reversed fromStr htime.symm h hreversed
    · exact anomalies_reversed fromStr htime h hreversed
  · intro hdistinct order order'
    have hanomalies :
        (diffLogs verify fromStr order pcEvents phoneRows phonePub).timestampAnomalies =
          (diffLogs verify fromStr order' pcEvents phoneRows phonePub).timestampAnomalies := by
      refine List.Perm.eq_of_pairwise ?_ (pairwise_anomalies fromStr) (pairwise_anomalies fromStr)
        (sameFindings_of_trusted verify fromStr order' pcEvents phoneRows phonePub order
          rfl).timestampAnomalies
      intro a b ha hb hle hge
      have htime : a.executedAt = b.executedAt := Int64.le_antisymm hle hge
      rw [← mem_foundAnomalies] at ha hb
      have hb' : b ∈ foundAnomalies verify phonePub pcEvents phoneRows order :=
        ((iter_perm order' _ order).filterMap _).mem_iff.mpr hb
      refine eq_of_reqId_eq ha hb' (hdistinct _ _ b.executedAt ?_ ?_)
      · exact (earlyAt_iff _).mpr ⟨a, ha, rfl, htime⟩
      · exact (earlyAt_iff _).mpr ⟨b, hb, rfl, rfl⟩
    unfold diffLogs at hanomalies ⊢
    dsimp only at hanomalies ⊢
    rw [DiffReport.mk.injEq]
    refine ⟨?_, ?_, ?_, rfl, hanomalies, rfl⟩
    · exact sortIds_eq_of_perm (((iter_perm order' _ order).filter _).map _)
    · exact sortIds_eq_of_perm (((iter_perm order' _ order).filter _).map _)
    · exact sortIds_eq_of_perm (((iter_perm order' _ order).map _).filter _)

/-- Two requests, both executed half a minute before they were granted. -/
def tiedEvents : List PcEvent :=
  [⟨.replicate 16 1, "execute_sent", "{}", 70⟩,
    ⟨.replicate 16 2, "execute_sent", "{}", 70⟩]

def tiedGrants : List PhoneLogRow :=
  [⟨.replicate 16 1, "approval_granted", "{}", 100, .replicate 64 0⟩,
    ⟨.replicate 16 2, "approval_granted", "{}", 100, .replicate 64 0⟩]

/-- The anomalies come out in the order of the map, whichever it is. -/
theorem tied_anomalies_follow_map_order :
    (diffLogs (fun _ _ _ => true) (fun _ => none) .insertion tiedEvents tiedGrants
      (.replicate 32 0)).timestampAnomalies.map (·.reqId) = [.replicate 16 2, .replicate 16 1] ∧
    (diffLogs (fun _ _ _ => true) (fun _ => none) Order.insertion.reversed tiedEvents tiedGrants
      (.replicate 32 0)).timestampAnomalies.map (·.reqId) = [.replicate 16 1, .replicate 16 2] ∧
    diffLogs (fun _ _ _ => true) (fun _ => none) .insertion tiedEvents tiedGrants
        (.replicate 32 0) ≠
      diffLogs (fun _ _ _ => true) (fun _ => none) Order.insertion.reversed tiedEvents tiedGrants
        (.replicate 32 0) := by
  refine ⟨by decide +kernel, by decide +kernel, by decide +kernel⟩

end Conveyance.Storage
