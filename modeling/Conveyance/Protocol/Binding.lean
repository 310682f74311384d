import Conveyance.Protocol.Message

/-!
# Approval/execute binding (conveyance-protocol, binding.rs)

The tracker that remembers what the user approved and lets it be executed once.
The two hash maps are their lookup functions. A call reads the clock several
times; `Readings` holds what it read, in the order the call reads it, and
`Chronological` says that calls read the clock one after another.

- `recordApproval_cases`, `validateExecute_cases`: all a call can do.
- `Tracked`: every pending entry is the newest successful approval of its
  req_id, and no execution of it was attempted since. One call keeps it.
-/

namespace Conveyance.Protocol

open Lib Crypto

/-- `Duration::MAX`, in nanoseconds. -/
def durationMax : Nat := (2 ^ 64 - 1) * 1000000000 + 999999999

def defaultApprovalTtl : Nat := 300 * 1000000000

/-- A pending approval. -/
structure Entry where
  approvedJson : String
  approvedAt : Nat
deriving DecidableEq

/-- Times are instants and durations in nanoseconds. `double_le` is what keeps
the source's `self.ttl * 2` from overflowing. -/
structure ApprovedRequestTracker where
  ttl : Nat
  pending : String → Option Entry
  consumed : String → Option Nat
  double_le : ttl * 2 ≤ durationMax

/-- What one call reads off the clock: once per tombstone while pruning, then
for the tombstone check, the age check and the new stamp. -/
structure Readings where
  start : Nat
  prune : String → Nat
  check : Nat
  age : Nat
  stamp : Nat
  start_le_prune : ∀ id, start ≤ prune id
  prune_le_check : ∀ id, prune id ≤ check
  check_le_age : check ≤ age
  age_le_stamp : age ≤ stamp

/-- A clock that stands still during the call. -/
def Readings.still (now : Nat) : Readings :=
  ⟨now, fun _ => now, now, now, now, fun _ => le_rfl, fun _ => le_rfl, le_rfl, le_rfl⟩

theorem Readings.start_le_age (r : Readings) : r.start ≤ r.age :=
  ((r.start_le_prune "").trans (r.prune_le_check "")).trans r.check_le_age

namespace ApprovedRequestTracker

def withTtl (ttl : Nat) (h : ttl * 2 ≤ durationMax) : ApprovedRequestTracker :=
  ⟨ttl, fun _ => none, fun _ => none, h⟩

def new : ApprovedRequestTracker := withTtl defaultApprovalTtl (by decide)

/-- Drop tombstones older than twice the TTL. -/
def prune (t : ApprovedRequestTracker) (r : Readings) : ApprovedRequestTracker :=
  { t with
    consumed := fun id => (t.consumed id).filter fun spentAt => r.prune id - spentAt ≤ t.ttl * 2 }

section

variable (t : ApprovedRequestTracker)

/-- `pending.insert`. -/
def insert (id : String) (entry : Entry) : ApprovedRequestTracker :=
  { t with pending := Function.update t.pending id (some entry) }

/-- `pending.remove`. -/
def remove (id : String) : ApprovedRequestTracker :=
  { t with pending := Function.update t.pending id none }

/-- `consumed.insert`. -/
def spend (id : String) (now : Nat) : ApprovedRequestTracker :=
  { t with consumed := Function.update t.consumed id (some now) }

end

section Fields

variable (t : ApprovedRequestTracker) (id : String) (entry : Entry) (now : Nat) (r : Readings)

@[simp] theorem prune_ttl : (t.prune r).ttl = t.ttl := rfl

@[simp] theorem prune_pending : (t.prune r).pending = t.pending := rfl

@[simp] theorem insert_ttl : (t.insert id entry).ttl = t.ttl := rfl

@[simp] theorem insert_pending :
    (t.insert id entry).pending = Function.update t.pending id (some entry) := rfl

@[simp] theorem remove_pending : (t.remove id).pending = Function.update t.pending id none := rfl

@[simp] theorem spend_pending : (t.spend id now).pending = t.pending := rfl

@[simp] theorem spend_consumed :
    (t.spend id now).consumed = Function.update t.consumed id (some now) := rfl

end Fields

section

variable (t : ApprovedRequestTracker)

/-- An id that is pending, or spent and not pruned yet, is not approved again. -/
def recordApproval (request : ApprovalRequest)
    (response : ApprovalResponse) (r : Readings) :
    ApprovedRequestTracker × Except ProtocolError Unit :=
  match request.validate with
  | .error e => (t, .error e)
  | .ok _ =>
    if request.opType ≠ .authenticatedRequest ∨ response.decision ≠ .approved then
      (t, .error .notApproved)
    else if request.reqId ≠ response.reqId then
      (t, .error (.approvalMismatch .payloadDiffers))
    else
      let t := t.prune r
      if (t.pending request.reqId.hex).isSome ∨ (t.consumed request.reqId.hex).isSome then
        (t, .error .duplicateRequestId)
      else
        match request.canonicalBindingJson with
        | .error e => (t, .error e)
        | .ok json => (t.insert request.reqId.hex ⟨json, r.stamp⟩, .ok ())

/-- One attempt for each approval: the entry goes, whatever comes of it. The id is spent if the
texts are compared, also if they differ. -/
def validateExecute (exec : ExecuteRequest) (r : Readings) :
    ApprovedRequestTracker × Except ProtocolError Unit :=
  let id := exec.reqId.hex
  let t := t.prune r
  if (t.consumed id).any (fun spentAt => r.check - spentAt ≤ t.ttl * 2) then
    (t, .error (.approvalMismatch .replayedReqId))
  else
    match t.pending id with
    | none => (t.remove id, .error (.approvalMismatch .unknownReqId))
    | some entry =>
      if t.ttl < r.age - entry.approvedAt then
        (t.remove id, .error (.approvalMismatch .expiredReqId))
      else
        match toCanonicalString exec.json with
        | .error e => (t.remove id, .error e)
        | .ok execJson =>
          if execJson = entry.approvedJson then ((t.remove id).spend id r.stamp, .ok ())
          else
            ((t.remove id).spend id r.stamp, .error (.approvalMismatch .payloadDiffers))

/-! ## What a call can do -/

/-- Nothing is both pending and spent. -/
def Disjoint : Prop :=
  ∀ id, (t.pending id).isSome → t.consumed id = none

end

theorem prune_consumed {t : ApprovedRequestTracker} {r : Readings} {id : String}
    (h : t.consumed id = none) : (t.prune r).consumed id = none := by
  simp [prune, h]

theorem Disjoint.prune {t : ApprovedRequestTracker} (h : t.Disjoint) (r : Readings) :
    (t.prune r).Disjoint :=
  fun id hid => prune_consumed (h id hid)

section

variable (t : ApprovedRequestTracker)

/-- Recording succeeds, and the request is pending from then on, or it fails
and at most the tombstones are pruned. -/
theorem recordApproval_cases (request : ApprovalRequest)
    (response : ApprovalResponse) (r : Readings) :
    (∃ json, request.canonicalBindingJson = .ok json ∧
      (t.prune r).consumed request.reqId.hex = none ∧
      t.recordApproval request response r =
        ((t.prune r).insert request.reqId.hex ⟨json, r.stamp⟩, .ok ())) ∨
    (∃ e, t.recordApproval request response r = (t, .error e) ∨
      t.recordApproval request response r = (t.prune r, .error e)) := by
  unfold recordApproval
  cases request.validate with
  | error e => exact .inr ⟨e, .inl rfl⟩
  | ok _ =>
    dsimp only
    split_ifs with hnot hreq hdup
    · exact .inr ⟨_, .inl rfl⟩
    · exact .inr ⟨_, .inl rfl⟩
    · exact .inr ⟨_, .inr rfl⟩
    · cases hjson : request.canonicalBindingJson with
      | error e => exact .inr ⟨e, .inr rfl⟩
      | ok json =>
        refine .inl ⟨json, rfl, ?_, rfl⟩
        simpa using fun h => hdup (.inr h)

/-- An attempt on a spent req_id changes nothing but the pruning; any other
leaves its req_id no longer pending, and it succeeds only on a fresh entry with
the same canonical text. -/
theorem validateExecute_cases (exec : ExecuteRequest) (r : Readings) :
    ((t.prune r).consumed exec.reqId.hex ≠ none ∧
      ∃ e, t.validateExecute exec r = (t.prune r, .error e)) ∨
    (∃ e, t.validateExecute exec r = ((t.prune r).remove exec.reqId.hex, .error e)) ∨
    (∃ entry, t.pending exec.reqId.hex = some entry ∧ r.age ≤ entry.approvedAt + t.ttl ∧
      ((toCanonicalString exec.json = .ok entry.approvedJson ∧
        t.validateExecute exec r =
          (((t.prune r).remove exec.reqId.hex).spend exec.reqId.hex r.stamp, .ok ())) ∨
      ∃ e, t.validateExecute exec r =
        (((t.prune r).remove exec.reqId.hex).spend exec.reqId.hex r.stamp, .error e))) := by
  unfold validateExecute
  dsimp only
  split_ifs with hspent
  · refine .inl ⟨fun h => ?_, _, rfl⟩
    rw [h] at hspent
    cases hspent
  · right
    rw [prune_pending, prune_ttl]
    cases hpending : t.pending exec.reqId.hex with
    | none => exact .inl ⟨_, rfl⟩
    | some entry =>
      dsimp only
      split_ifs with hage
      · exact .inl ⟨_, rfl⟩
      · cases hjson : toCanonicalString exec.json with
        | error e => exact .inl ⟨e, rfl⟩
        | ok execJson =>
          refine .inr ⟨entry, rfl, by omega, ?_⟩
          dsimp only
          split_ifs with hsame
          · exact .inl ⟨by rw [hsame], rfl⟩
          · exact .inr ⟨_, rfl⟩

/-! ## What is approved is executed -/

/-- The req_id is neither pending nor spent. -/
def Unused (id : String) : Prop :=
  t.pending id = none ∧ t.consumed id = none

end

theorem unused_new (id : String) : new.Unused id := ⟨rfl, rfl⟩

section Unused

variable {t : ApprovedRequestTracker} {id : String} {request : ApprovalRequest}
  {response : ApprovalResponse} {exec : ExecuteRequest} {r r' : Readings}

theorem Unused.prune (h : t.Unused id) (r : Readings) : (t.prune r).Unused id :=
  ⟨h.1, prune_consumed h.2⟩

/-- Recording touches its own id only. -/
theorem Unused.recordApproval (h : t.Unused id) (hne : id ≠ request.reqId.hex)
    (response : ApprovalResponse) (r : Readings) :
    (t.recordApproval request response r).1.Unused id := by
  rcases recordApproval_cases t request response r with ⟨json, -, -, heq⟩ | ⟨e, heq | heq⟩
  · rw [heq]
    refine ⟨?_, (h.prune r).2⟩
    rw [insert_pending, Function.update_of_ne hne]
    exact h.1
  · rw [heq]
    exact h
  · rw [heq]
    exact h.prune r

theorem Unused.validateExecute (h : t.Unused id) (hne : id ≠ exec.reqId.hex) (r : Readings) :
    (t.validateExecute exec r).1.Unused id := by
  have hremoved : ((t.prune r).remove exec.reqId.hex).Unused id := by
    refine ⟨?_, (h.prune r).2⟩
    rw [remove_pending, Function.update_of_ne hne]
    exact h.1
  have hspent : (((t.prune r).remove exec.reqId.hex).spend exec.reqId.hex r.stamp).Unused id := by
    refine ⟨hremoved.1, ?_⟩
    rw [spend_consumed, Function.update_of_ne hne]
    exact hremoved.2
  rcases validateExecute_cases t exec r with
    ⟨-, e, heq⟩ | ⟨e, heq⟩ | ⟨entry, -, -, ⟨-, heq⟩ | ⟨e, heq⟩⟩
  · rw [heq]
    exact h.prune r
  · rw [heq]
    exact hremoved
  · rw [heq]
    exact hspent
  · rw [heq]
    exact hspent

theorem recordApproval_unused (hvalid : request.validate = .ok ())
    (hop : request.opType = .authenticatedRequest) (hdecision : response.decision = .approved)
    (hreq : request.reqId = response.reqId) (h : t.Unused request.reqId.hex) (r : Readings) :
    ∃ json, request.canonicalBindingJson = .ok json ∧
      t.recordApproval request response r =
        ((t.prune r).insert request.reqId.hex ⟨json, r.stamp⟩, .ok ()) := by
  obtain ⟨json, hjson⟩ := request.canonicalBindingJson_ok hvalid
  refine ⟨json, hjson, ?_⟩
  unfold recordApproval
  rw [hvalid]
  rw [if_neg (by simp [hop, hdecision]), if_neg (by simpa using hreq), hjson,
    if_neg (by simp [h.1, (h.prune r).2])]

/-- What was just recorded may be executed, if the clock has not jumped. -/
theorem validateExecute_recorded {json : String} (hjson : request.canonicalBindingJson = .ok json)
    (hsame : SameFields request exec) (h : t.Unused request.reqId.hex)
    (hage : r'.age ≤ r.stamp + t.ttl) :
    (((t.prune r).insert request.reqId.hex ⟨json, r.stamp⟩).validateExecute exec r').2 =
      .ok () := by
  have hid : exec.reqId.hex = request.reqId.hex := by rw [hsame.reqId]
  obtain ⟨_, -, htext⟩ := bind_eq_ok.mp hjson
  have hspent : (((t.prune r).insert request.reqId.hex ⟨json, r.stamp⟩).prune r').consumed
      request.reqId.hex = none := prune_consumed (h.prune r).2
  have hyoung : ¬ t.ttl < r'.age - r.stamp := by omega
  unfold validateExecute
  dsimp only
  rw [hid, hspent, if_neg (by simp), prune_pending, insert_pending, Function.update_self]
  dsimp only
  rw [prune_ttl, insert_ttl, prune_ttl, if_neg hyoung, hsame.json, htext]
  simp

end Unused

end ApprovedRequestTracker

/-! ## Runs -/

inductive Call where
  | record (request : ApprovalRequest) (response : ApprovalResponse) (r : Readings)
  | validate (exec : ExecuteRequest) (r : Readings)

def Call.readings : Call → Readings
  | .record _ _ r => r
  | .validate _ r => r

/-- A call and what it returned. -/
abbrev Outcome := Call × Except ProtocolError Unit

/-- Every call reads the clock at or after the last reading of those before. -/
def Chronological (calls : List Call) : Prop :=
  calls.Pairwise fun c d => c.readings.stamp ≤ d.readings.start

namespace ApprovedRequestTracker

def call (t : ApprovedRequestTracker) :
    Call → ApprovedRequestTracker × Except ProtocolError Unit
  | .record request response r => t.recordApproval request response r
  | .validate exec r => t.validateExecute exec r

/-- The outcomes of a sequence of calls. -/
def run (t : ApprovedRequestTracker) : List Call → List Outcome
  | [] => []
  | c :: cs => (c, (t.call c).2) :: run (t.call c).1 cs

theorem run_calls (t : ApprovedRequestTracker) (cs : List Call) : (t.run cs).map Prod.fst = cs := by
  induction cs generalizing t with
  | nil => rfl
  | cons c cs ih => rw [run, List.map_cons, ih]

/-- After position `k` of the history, no execution of `id` was attempted. -/
def Untried (past : List Outcome) (k : Nat) (id : String) : Prop :=
  ∀ i exec r res, k < i → past[i]? = some (.validate exec r, res) → exec.reqId.hex ≠ id

/-- The entry was recorded at position `k` and not tried since. -/
structure RecordedAt (past : List Outcome) (id : String) (entry : Entry) (k : Nat) : Prop where
  recorded : ∃ req rsp r, past[k]? = some (.record req rsp r, .ok ()) ∧ req.reqId.hex = id ∧
    req.canonicalBindingJson = .ok entry.approvedJson ∧ entry.approvedAt = r.stamp
  untried : Untried past k id

/-- What the tracker knows of its history. -/
structure Tracked (past : List Outcome) (t : ApprovedRequestTracker) : Prop where
  disjoint : t.Disjoint
  recorded : ∀ id entry, t.pending id = some entry → ∃ k, RecordedAt past id entry k

/-- An execution at position `i` rests on an approval of all its fields, no
older than `ttl`, that nothing else tried to execute in between. -/
def Justified (ttl : Nat) (past : List Outcome) (i : Nat) (exec : ExecuteRequest)
    (r : Readings) : Prop :=
  ∃ k req rsp r', k < i ∧ past[k]? = some (.record req rsp r', .ok ()) ∧ SameFields req exec ∧
    r.age ≤ r'.stamp + ttl ∧
    ∀ j exec' r'' res, k < j → j < i → past[j]? = some (.validate exec' r'', res) →
      exec'.reqId ≠ exec.reqId

/-- Every successful execution of the history is justified. -/
def Sound (ttl : Nat) (past : List Outcome) : Prop :=
  ∀ i exec r, past[i]? = some (.validate exec r, .ok ()) → Justified ttl past i exec r

/-! ### One call -/

variable {i : Nat} {t : ApprovedRequestTracker} {past : List Outcome}

theorem getElem?_snoc {α : Type} {l : List α} {x y : α} :
    (l ++ [x])[i]? = some y ↔ l[i]? = some y ∨ (i = l.length ∧ x = y) := by
  grind

/-- A recorded entry stays recorded while its req_id is not tried. -/
theorem RecordedAt.snoc {id : String} {entry : Entry} {k : Nat}
    (h : RecordedAt past id entry k) {o : Outcome}
    (hother : ∀ exec r, o.1 = .validate exec r → exec.reqId.hex ≠ id) :
    RecordedAt (past ++ [o]) id entry k := by
  obtain ⟨⟨req, rsp, r, hk, hrest⟩, huntried⟩ := h
  refine ⟨⟨req, rsp, r, getElem?_snoc.mpr (.inl hk), hrest⟩, fun i exec r' res hi ho => ?_⟩
  rcases getElem?_snoc.mp ho with ho | ⟨-, rfl⟩
  · exact huntried i exec r' res hi ho
  · exact hother exec r' rfl

/-- A tracker with no more pending than before still knows its history. -/
theorem Tracked.snoc {t t' : ApprovedRequestTracker} (h : Tracked past t)
    {o : Outcome} (hdisjoint : t'.Disjoint)
    (hpending : ∀ id entry, t'.pending id = some entry → t.pending id = some entry ∧
      ∀ exec r, o.1 = .validate exec r → exec.reqId.hex ≠ id) : Tracked (past ++ [o]) t' := by
  refine ⟨hdisjoint, fun id entry hid => ?_⟩
  obtain ⟨hold, hother⟩ := hpending id entry hid
  obtain ⟨k, hk⟩ := h.recorded id entry hold
  exact ⟨k, hk.snoc hother⟩

theorem Disjoint.remove (h : t.Disjoint) (id : String) : (t.remove id).Disjoint := by
  intro id' hid'
  by_cases heq : id' = id
  · subst heq
    simp at hid'
  · rw [remove_pending, Function.update_of_ne heq] at hid'
    exact h id' hid'

/-- What is spent has been removed before. -/
theorem Disjoint.spend (h : t.Disjoint) (id : String) (now : Nat) :
    ((t.remove id).spend id now).Disjoint := by
  intro id' hid'
  by_cases heq : id' = id
  · subst heq
    simp at hid'
  · rw [spend_consumed, Function.update_of_ne heq]
    exact h.remove id id' hid'

theorem pending_remove {id id' : String} {entry : Entry}
    (h : (t.remove id).pending id' = some entry) : t.pending id' = some entry ∧ id ≠ id' := by
  by_cases heq : id' = id
  · subst heq
    simp at h
  · rw [remove_pending, Function.update_of_ne heq] at h
    exact ⟨h, Ne.symm heq⟩

/-- **One call keeps the history known.** -/
theorem Tracked.call (h : Tracked past t) (c : Call) :
    Tracked (past ++ [(c, (t.call c).2)]) (t.call c).1 := by
  have hprune := fun r => h.disjoint.prune r
  cases c with
  | record request response r =>
    simp only [ApprovedRequestTracker.call]
    rcases recordApproval_cases t request response r with
      ⟨json, hjson, hspent, heq⟩ | ⟨e, heq | heq⟩
    · rw [heq]
      refine ⟨fun id hid => ?_, fun id entry hid => ?_⟩
      · by_cases hsame : id = request.reqId.hex
        · rw [hsame]
          exact hspent
        · simp only [insert_pending, Function.update_of_ne hsame] at hid
          exact hprune r id hid
      · by_cases hsame : id = request.reqId.hex
        · -- the new entry, at the position of this very call
          subst hsame
          simp only [insert_pending, Function.update_self] at hid
          cases hid
          refine ⟨past.length, ⟨request, response, r, by simp, rfl, hjson, rfl⟩, ?_⟩
          intro i exec r' res hi ho
          rcases getElem?_snoc.mp ho with ho | ⟨rfl, -⟩
          · exact absurd (List.getElem?_eq_some_iff.mp ho).1 (by omega)
          · exact absurd hi (Nat.lt_irrefl _)
        · simp only [insert_pending, Function.update_of_ne hsame] at hid
          obtain ⟨k, hk⟩ := h.recorded id entry hid
          exact ⟨k, hk.snoc nofun⟩
    · rw [heq]
      exact h.snoc h.disjoint fun _ _ hid => ⟨hid, nofun⟩
    · rw [heq]
      exact h.snoc (hprune r) fun _ _ hid => ⟨hid, nofun⟩
  | validate exec r =>
    simp only [ApprovedRequestTracker.call]
    have hremoved : ∀ {o : Except ProtocolError Unit} id entry,
        ((t.prune r).remove exec.reqId.hex).pending id = some entry → t.pending id = some entry ∧
          ∀ exec' r', ((.validate exec r, o) : Outcome).1 = .validate exec' r' →
            exec'.reqId.hex ≠ id := by
      intro o id entry hid
      obtain ⟨hold, hne⟩ := pending_remove hid
      refine ⟨hold, fun exec' r' heq => ?_⟩
      cases heq
      exact hne
    rcases validateExecute_cases t exec r with
      ⟨hspent, e, heq⟩ | ⟨e, heq⟩ | ⟨entry, -, -, ⟨-, heq⟩ | ⟨e, heq⟩⟩
    · rw [heq]
      refine h.snoc (hprune r) fun id entry hid => ⟨hid, ?_⟩
      rintro exec' r' hcall rfl
      cases hcall
      -- a spent req_id is not pending
      exact hspent (hprune r _ (by rw [hid]; rfl))
    · rw [heq]
      exact h.snoc ((hprune r).remove _) hremoved
    · rw [heq]
      exact h.snoc ((hprune r).spend _ _) hremoved
    · rw [heq]
      exact h.snoc ((hprune r).spend _ _) hremoved

theorem call_ttl (t : ApprovedRequestTracker) (c : Call) : (t.call c).1.ttl = t.ttl := by
  cases c with
  | record request response r =>
    rw [ApprovedRequestTracker.call]
    rcases recordApproval_cases t request response r with ⟨_, -, -, heq⟩ | ⟨_, heq | heq⟩ <;>
      rw [heq] <;> rfl
  | validate exec r =>
    rw [ApprovedRequestTracker.call]
    rcases validateExecute_cases t exec r with
      ⟨-, _, heq⟩ | ⟨_, heq⟩ | ⟨_, -, -, ⟨-, heq⟩ | ⟨_, heq⟩⟩ <;> rw [heq] <;> rfl

/-- A successful execution is justified by the entry it consumes. -/
theorem justified_of_ok (h : Tracked past t) {exec : ExecuteRequest} {r : Readings}
    (hok : (t.validateExecute exec r).2 = .ok ()) : Justified t.ttl past past.length exec r := by
  rcases validateExecute_cases t exec r with
    ⟨-, e, heq⟩ | ⟨e, heq⟩ | ⟨entry, hpending, hage, ⟨hjson, -⟩ | ⟨e, heq⟩⟩
  · rw [heq] at hok
    cases hok
  · rw [heq] at hok
    cases hok
  · obtain ⟨k, ⟨req, rsp, r', hk, -, hreqJson, hat⟩, huntried⟩ := h.recorded _ entry hpending
    refine ⟨k, req, rsp, r', (List.getElem?_eq_some_iff.mp hk).1, hk,
      sameFields_of_canonical hreqJson hjson, hat ▸ hage, ?_⟩
    intro j exec' r'' res hkj _ hj heq
    exact huntried j exec' r'' res hkj hj (by rw [heq])
  · rw [heq] at hok
    cases hok

theorem Justified.snoc {ttl : Nat} {exec : ExecuteRequest}
    {r : Readings} (h : Justified ttl past i exec r) (hi : i ≤ past.length) (o : Outcome) :
    Justified ttl (past ++ [o]) i exec r := by
  obtain ⟨k, req, rsp, r', hk, hrec, hfields, hage, hbetween⟩ := h
  refine ⟨k, req, rsp, r', hk, getElem?_snoc.mpr (.inl hrec), hfields, hage, ?_⟩
  intro j exec' r'' res hkj hji hj
  rcases getElem?_snoc.mp hj with hj | ⟨rfl, -⟩
  · exact hbetween j exec' r'' res hkj hji hj
  · omega

/-- **One call keeps every execution justified.** -/
theorem Sound.call (h : Sound t.ttl past) (htracked : Tracked past t) (c : Call) :
    Sound t.ttl (past ++ [(c, (t.call c).2)]) := by
  intro i exec r hi
  rcases getElem?_snoc.mp hi with hi | ⟨rfl, heq⟩
  · exact (h i exec r hi).snoc (List.getElem?_eq_some_iff.mp hi).1.le _
  · obtain ⟨rfl, hok⟩ := Prod.mk.inj heq
    exact (justified_of_ok htracked hok).snoc le_rfl _

/-! ### Whole runs -/

/-- A whole run is sound. -/
theorem sound_run (h : Sound t.ttl past) (htracked : Tracked past t) (cs : List Call) :
    Sound t.ttl (past ++ t.run cs) := by
  induction cs generalizing past t with
  | nil => rwa [run, List.append_nil]
  | cons c cs ih =>
    have hnext := h.call htracked c
    rw [← call_ttl t c] at hnext ⊢
    rw [run, List.append_cons]
    exact ih hnext (htracked.call c)

theorem sound_run_withTtl (ttl : Nat) (hdouble : ttl * 2 ≤ durationMax) (cs : List Call) :
    Sound ttl ((withTtl ttl hdouble).run cs) := by
  have htracked : Tracked [] (withTtl ttl hdouble) := ⟨nofun, nofun⟩
  exact sound_run (fun i _ _ hi => by cases hi) htracked cs

/-- An earlier call stamps before a later one starts. -/
theorem chronological_run {cs : List Call} (h : Chronological cs) {k : Nat} {a b : Outcome}
    (hki : k < i) (ha : (t.run cs)[k]? = some a) (hb : (t.run cs)[i]? = some b) :
    a.1.readings.stamp ≤ b.1.readings.start := by
  have hcall : ∀ {n : Nat} {o : Outcome}, (t.run cs)[n]? = some o → cs[n]? = some o.1 := by
    intro n o ho
    rw [← run_calls t cs, List.getElem?_map, ho]
    rfl
  obtain ⟨hi, hib⟩ := List.getElem?_eq_some_iff.mp (hcall hb)
  obtain ⟨hk, hka⟩ := List.getElem?_eq_some_iff.mp (hcall ha)
  rw [← hib, ← hka]
  exact List.pairwise_iff_getElem.mp h k i hk hi hki

end ApprovedRequestTracker

/-- **Approval/execute binding is one-shot and exact.** In every sequence of
calls on a fresh tracker, whatever its TTL and under a non-decreasing clock,
the successful executions are matched one-to-one with earlier successful
approvals of all their eight fields, recorded at most the TTL before. And once
an execution of a req_id has been attempted, whatever it returned, the next
successful one has a new successful approval in between. -/
theorem binding_one_shot_and_exact (ttl : Nat) (hdouble : ttl * 2 ≤ durationMax)
    (calls : List Call) (hclock : Chronological calls) :
    let history := (ApprovedRequestTracker.withTtl ttl hdouble).run calls
    (∃ approval : Nat → Nat,
      (∀ i exec r, history[i]? = some (.validate exec r, .ok ()) →
        ∃ req rsp r', approval i < i ∧
          history[approval i]? = some (.record req rsp r', .ok ()) ∧ SameFields req exec ∧
          r'.stamp ≤ r.age ∧ r.age ≤ r'.stamp + ttl) ∧
      (∀ i j exec exec' r r', history[i]? = some (.validate exec r, .ok ()) →
        history[j]? = some (.validate exec' r', .ok ()) → approval i = approval j → i = j)) ∧
    (∀ (i j : Nat) exec exec' r r' res, i < j → history[i]? = some (.validate exec r, res) →
      history[j]? = some (.validate exec' r', .ok ()) → exec'.reqId = exec.reqId →
      ∃ (k : Nat) (req : ApprovalRequest) (rsp : ApprovalResponse) (r'' : Readings), i < k ∧ k < j ∧
        history[k]? = some (.record req rsp r'', .ok ()) ∧ req.reqId = exec.reqId) := by
  intro history
  have hsound := ApprovedRequestTracker.sound_run_withTtl ttl hdouble calls
  -- the approval each successful execution rests on
  have hchoice : ∀ i : Nat, ∃ k : Nat, ∀ exec r, history[i]? = some (.validate exec r, .ok ()) →
      ∃ req rsp r', k < i ∧ history[k]? = some (.record req rsp r', .ok ()) ∧
        SameFields req exec ∧ r.age ≤ r'.stamp + ttl ∧
        ∀ (j : Nat) exec' r'' res, k < j → j < i → history[j]? = some (.validate exec' r'', res) →
          exec'.reqId ≠ exec.reqId := by
    intro i
    by_cases hi : ∃ exec r, history[i]? = some (.validate exec r, .ok ())
    · obtain ⟨exec, r, hi⟩ := hi
      obtain ⟨k, req, rsp, r', hjust⟩ := hsound i exec r hi
      refine ⟨k, fun exec' r'' hi' => ?_⟩
      rw [hi] at hi'
      cases hi'
      exact ⟨req, rsp, r', hjust⟩
    · exact ⟨0, fun exec r h => absurd ⟨exec, r, h⟩ hi⟩
  choose approval happroval using hchoice
  refine ⟨⟨approval, fun i exec r hi => ?_, fun i j exec exec' r r' hi hj heq => ?_⟩, ?_⟩
  · obtain ⟨req, rsp, r', hlt, hrec, hfields, hage, -⟩ := happroval i exec r hi
    have hstamp := ApprovedRequestTracker.chronological_run hclock hlt hrec hi
    exact ⟨req, rsp, r', hlt, hrec, hfields, hstamp.trans r.start_le_age, hage⟩
  · obtain ⟨req, rsp, s, hlt, hrec, hfields, -, hbetween⟩ := happroval i exec r hi
    obtain ⟨req', rsp', s', hlt', hrec', hfields', -, hbetween'⟩ := happroval j exec' r' hj
    rw [← heq, hrec] at hrec'
    cases hrec'
    have hsame : exec.reqId = exec'.reqId := hfields.reqId.trans hfields'.reqId.symm
    rcases Nat.lt_trichotomy i j with hij | hij | hij
    · exact absurd hsame (hbetween' i exec r _ (heq ▸ hlt) hij hi)
    · exact hij
    · exact absurd hsame.symm (hbetween j exec' r' _ (heq ▸ hlt') hij hj)
  · intro i j exec exec' r r' res hij hi hj hsame
    obtain ⟨req, rsp, s, hlt, hrec, hfields, -, hbetween⟩ := happroval j exec' r' hj
    refine ⟨approval j, req, rsp, s, ?_, hlt, hrec, hfields.reqId.symm.trans hsame⟩
    rcases Nat.lt_trichotomy i (approval j) with h | h | h
    · exact h
    · rw [← h, hi] at hrec
      cases hrec
    · exact absurd hsame.symm (hbetween i exec r res h hij hi)

/-! ## A run -/

def sampleReqId : ReqId := ⟨⟨List.replicate 16 7, by decide⟩⟩

def sampleApproval : ApprovalRequest :=
  ⟨sampleReqId, .authenticatedRequest, "github", "POST", "/v1/deploy",
    .object [("env", .string "prod")], none, 1700000000⟩

def sampleResponse : ApprovalResponse :=
  ⟨sampleReqId, .approved, none, ⟨List.replicate 64 0, by decide⟩⟩

def sampleExecute : ExecuteRequest :=
  ⟨sampleReqId, .authenticatedRequest, "github", "POST", "/v1/deploy",
    .object [("env", .string "prod")], none, 1700000000⟩

/-- An approval, its execution at the very end of the TTL, and a replay. -/
def sampleCalls : List Call :=
  [.record sampleApproval sampleResponse (.still 5),
    .validate sampleExecute (.still (5 + defaultApprovalTtl)),
    .validate sampleExecute (.still (6 + defaultApprovalTtl))]

/-- The execution succeeds, the replay does not, and the success is matched to
the approval. -/
theorem binding_sample_run :
    let history := ApprovedRequestTracker.new.run sampleCalls
    history.map Prod.snd = [.ok (), .ok (), .error (.approvalMismatch .replayedReqId)] ∧
    ∃ req rsp r, history[0]? = some (.record req rsp r, .ok ()) ∧ SameFields req sampleExecute := by
  intro history
  have hclock : Chronological sampleCalls := by
    simp only [Chronological, sampleCalls, Call.readings, Readings.still, List.pairwise_cons,
      List.mem_cons, List.not_mem_nil]
    grind
  obtain ⟨⟨approval, happroval, -⟩, -⟩ :=
    binding_one_shot_and_exact defaultApprovalTtl (by decide) sampleCalls hclock
  have hresults : history.map Prod.snd =
      [.ok (), .ok (), .error (.approvalMismatch .replayedReqId)] := by
    decide +kernel
  have hsecond : history[1]? =
      some (.validate sampleExecute (.still (5 + defaultApprovalTtl)), .ok ()) := by
    have hzip := List.zip_of_prod (ApprovedRequestTracker.run_calls .new sampleCalls) hresults
    rw [show history = _ from hzip]
    rfl
  obtain ⟨req, rsp, r, hlt, hrec, hfields, -⟩ := happroval 1 _ _ hsecond
  rw [Nat.lt_one_iff.mp hlt] at hrec
  exact ⟨hresults, req, rsp, r, hrec, hfields⟩

end Conveyance.Protocol
