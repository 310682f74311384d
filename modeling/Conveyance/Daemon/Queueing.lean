import Conveyance.Daemon.Refinement

/-!
# First come, first served

Requests that wait are started in the order they were taken, and something is in
flight while they wait.

`Line` is the invariant: the requests started, the one in hand and the ones that
wait are, in this order, an increasing list of reply channels. Taking a command
appends to that list, and starting one moves the boundary inside it.

`drain_route_queue` starts one request only. If that one is refused before it is
sent, nothing is in flight any more and the rest of the queue is left standing.
The line holds where a request with others behind it can always be opened.
-/

namespace Conveyance.Daemon

open Lib Crypto Conveyance.Core Protocol

/-- The requests `start_route` was entered for, in order. -/
def startedIn (trace : List Obs) : List Nat :=
  trace.filterMap fun
    | .started ch => some ch
    | _ => none

/-- The request gets its req_id, is in the canonical domain and encodes. -/
def Openable (env : Env) (n : Nat) (op : RoutedOp) : Prop :=
  ∃ reqId, env.entropy n = some reqId ∧
    match op with
    | .authenticatedRequest service method endpoint params requestedBy =>
      ∀ tick, ∃ a bytes, ApprovalRequest.new reqId .authenticatedRequest service method endpoint
        params requestedBy (env.unixNow tick) = .ok a ∧
        encode env.intoWriter (.approvalRequest a) = .ok bytes
    | .listServices => ∃ bytes, encode env.intoWriter (.listServicesRequest reqId) = .ok bytes

/-- If the turn starts a request with others behind it, that request opens. -/
def Turn.KeepsLine (env : Env) (t : Turn) : Prop :=
  ∀ behind op, t.Starts behind op → behind ≠ [] → Openable env t.world.draws op

theorem OpenFailure.not_openable {env : Env} {n ch : Nat} {op : RoutedOp} {obs : List Obs}
    {e : OpError} (h : OpenFailure env n ch op obs e) : ¬ Openable env n op := by
  rintro ⟨reqId, hdraw, hopen⟩
  cases h with
  | entropy hnone =>
    rw [hnone] at hdraw
    cases hdraw
  | @domain _ _ _ _ _ _ tick _ hdraw' hnew =>
    obtain ⟨a, bytes, hok, -⟩ := hopen tick
    rw [hdraw'] at hdraw
    obtain rfl := Option.some.inj hdraw
    rw [hnew] at hok
    cases hok
  | @approvalEncoding _ _ _ _ _ _ tick _ _ _ hdraw' hnew _ henc =>
    obtain ⟨a, bytes, hok, hbytes⟩ := hopen tick
    rw [hdraw'] at hdraw
    obtain rfl := Option.some.inj hdraw
    obtain rfl := Except.ok.inj (hnew.symm.trans hok)
    rw [henc] at hbytes
    cases hbytes
  | servicesEncoding hdraw' _ henc =>
    obtain ⟨bytes, hbytes⟩ := hopen
    rw [hdraw'] at hdraw
    obtain rfl := Option.some.inj hdraw
    rw [henc] at hbytes
    cases hbytes

/-! ## The line -/

section Started

variable {t l : List Obs}

@[simp] theorem startedIn_append : startedIn (t ++ l) = startedIn t ++ startedIn l :=
  List.filterMap_append

@[simp] theorem startedIn_nil : startedIn [] = [] := rfl

@[simp] theorem startedIn_started (ch : Nat) :
    startedIn (.started ch :: l) = ch :: startedIn l := rfl

@[simp] theorem startedIn_other {o : Obs} (h : ∀ ch, o ≠ .started ch) :
    startedIn (o :: l) = startedIn l := by
  cases o with
  | started ch => exact absurd rfl (h ch)
  | _ => rfl

theorem Clerical.startedIn {φ : LogEvent → Prop} (h : Clerical φ l) : startedIn l = [] :=
  List.filterMap_eq_nil_iff.mpr (h.all (fun _ _ => rfl) fun _ _ => rfl)

@[simp] theorem startedIn_ended (queue : List Nat) : startedIn (queue.map endedReply) = [] :=
  List.filterMap_eq_nil_iff.mpr (List.forall_mem_map.mpr fun _ _ => rfl)

@[simp] theorem startedIn_endedReplies (σ : Desk) : startedIn σ.endedReplies = [] :=
  List.filterMap_eq_nil_iff.mpr (σ.all_endedReplies fun _ => rfl)

end Started

/-- The requests started, in hand and waiting. -/
def Desk.line (σ : Desk) : List Nat := startedIn σ.trace ++ σ.hand.toList ++ σ.queue

structure Line (σ : Desk) : Prop where
  progress : σ.queue ≠ [] → σ.flight ≠ none ∨ σ.hand ≠ none ∨ σ.draining = true
  room : σ.queue.length ≤ routeQueueCap
  order : σ.line.Pairwise (· < ·)
  taken : ∀ ch ∈ σ.line, ch < σ.taken

section Moves

variable {env : Env} {t : Turn} {σ σ' : Desk}

/-- A desk that starts nothing, lets no one in and lets nobody stall. -/
theorem Line.shrink (h : Line σ) (hline : σ'.line.Sublist σ.line)
    (hqueue : σ'.queue.Sublist σ.queue) (htaken : σ.taken ≤ σ'.taken)
    (hprogress : σ'.queue ≠ [] → σ'.flight ≠ none ∨ σ'.hand ≠ none ∨ σ'.draining = true) :
    Line σ' where
  progress := hprogress
  room := hqueue.length_le.trans h.room
  order := h.order.sublist hline
  taken ch hch := (h.taken ch (hline.subset hch)).trans_le htaken

/-- A command joins the end of the line. -/
theorem Line.join (h : Line σ) (hline : σ'.line = σ.line ++ [σ.taken])
    (htaken : σ'.taken = σ.taken + 1) (hroom : σ'.queue.length ≤ routeQueueCap)
    (hprogress : σ'.queue ≠ [] → σ'.flight ≠ none ∨ σ'.hand ≠ none ∨ σ'.draining = true) :
    Line σ' := by
  refine ⟨hprogress, hroom, ?_, fun ch hch => ?_⟩
  · rw [hline, List.pairwise_append]
    exact ⟨h.order, List.pairwise_singleton _ _, fun a ha b hb =>
      List.mem_singleton.mp hb ▸ h.taken a ha⟩
  · rw [hline, List.mem_append, List.mem_singleton] at hch
    rcases hch with hch | rfl
    · have := h.taken ch hch
      omega
    · omega

theorem Line.move (hkeeps : t.KeepsLine env) (h : Line σ) (hmove : Move env t σ σ') : Line σ' := by
  -- entries that start nothing leave the line as it is
  have hsay : ∀ {obs}, startedIn obs = [] → Line (σ.say obs) := fun hobs =>
    h.shrink (by simp [Desk.line, Desk.say, hobs]) (.refl _) le_rfl h.progress
  cases hmove with
  | skip => exact h.shrink (.refl _) (.refl _) (Nat.le_succ _) h.progress
  | heard _ _ => exact hsay rfl
  | noted hrows => exact hsay hrows.clerical.startedIn
  | ponged | endReplied | inspected | startAnswered | startFailed => exact hsay rfl
  | unreached _ => exact h.shrink (.refl _) (.refl _) le_rfl h.progress
  | aborted _ _ _ _ hrows | begun _ _ _ _ _ hrows =>
    exact h.shrink (by simp [Desk.line, Desk.say, hrows.clerical.startedIn])
      (.refl _) le_rfl h.progress
  | refuse e =>
    exact h.shrink (by simp [Desk.line, Desk.say]) (.refl _) (Nat.le_succ _)
      h.progress
  | enqueue hflight hroom =>
    refine h.join ?_ rfl ?_ fun _ => .inl hflight
    · simp [Desk.line, Desk.say]
    · rw [List.length_append, List.length_singleton]
      exact hroom
  | take hsettled hhand hflight =>
    -- nothing flies, so nobody waits
    have hempty : σ.queue = [] := by
      by_contra hne
      rcases h.progress hne with hfly | hhold | hdrain
      · exact hfly hflight
      · exact hhold hhand
      · rw [hsettled] at hdrain
        cases hdrain
    refine h.join ?_ rfl h.room fun _ => .inr (.inl (Option.some_ne_none _))
    simp [Desk.line, Desk.say, hhand, hempty]
  | settle _ hempty =>
    exact h.shrink (.refl _) (.refl _) le_rfl fun hne => absurd hempty hne
  | pop _ hhand hqueue _ =>
    refine h.shrink ?_ ?_ le_rfl fun _ => .inr (.inl (Option.some_ne_none _))
    · simp [Desk.line, hhand, hqueue]
    · rw [hqueue]
      exact List.sublist_cons_self _ _
  | openFailed hhand hstarts hdraws hfail =>
    have hempty : σ.queue = [] := by
      by_contra hne
      have hopen := hkeeps _ _ hstarts hne
      rw [hdraws] at hopen
      exact hfail.not_openable hopen
    refine h.shrink ?_ (.refl _) le_rfl fun hne => absurd hempty hne
    simp [Desk.line, Desk.say, hhand, hfail.clerical.startedIn]
  | openDead hhand _ hopen hends =>
    refine h.shrink ?_ (List.nil_sublist _) le_rfl fun hne => absurd rfl hne
    simp [Desk.line, Desk.say, hhand, hopen.clerical.startedIn, hends.clerical.startedIn,
      endedReply]
  | opened hhand _ hopen _ =>
    refine h.shrink ?_ (.refl _) le_rfl fun _ => .inl (Option.some_ne_none _)
    simp [Desk.line, Desk.say, hhand, hopen.clerical.startedIn]
  | answer _ hflight _ hanswer =>
    obtain ⟨rows, result, rfl, hrows⟩ := hanswer.shape
    refine h.shrink ?_ (.refl _) le_rfl fun _ => .inr (.inr rfl)
    simp [Desk.line, Desk.say, hrows.startedIn]
  | refused _ hflight _ _ hgranted hrefusal =>
    refine h.shrink ?_ (.refl _) le_rfl fun _ => .inr (.inr rfl)
    have hnone := (hrefusal.clerical hgranted).startedIn
    simp only [Desk.line, Desk.say, startedIn_append, hnone]
    simp
  | promoteDead _ hflight _ _ _ hrows hends =>
    refine h.shrink ?_ (List.nil_sublist _) le_rfl fun hne => absurd rfl hne
    simp [Desk.line, Desk.say, hrows.clerical.startedIn, hends.clerical.startedIn, endedReply]
  | promote _ hflight _ _ _ hrows =>
    refine h.shrink ?_ (.refl _) le_rfl fun _ => .inl (Option.some_ne_none _)
    simp [Desk.line, Desk.say, hrows.clerical.startedIn]
  | teardown _ _ _ _ hends =>
    refine h.shrink ?_ (List.nil_sublist _) le_rfl fun hne => absurd rfl hne
    simp [Desk.line, Desk.say, hends.clerical.startedIn]

end Moves

/-! ## Runs -/

/-- The contract of the queue, at the end of a run. Reply channels are numbered
in the order the commands were taken. -/
structure FirstComeFirstServed (env : Env) (events : List Event) : Prop where
  progress : ∀ p, (Owner.init.run env events).slot = some p → p.routeQueue ≠ [] →
    p.inFlight.isSome
  room : ∀ p, (Owner.init.run env events).slot = some p → p.routeQueue.length ≤ routeQueueCap
  order : (startedIn (Owner.init.run env events).world.trace).Pairwise (· < ·)
  /-- Whoever waits comes after everyone who was started. -/
  waits : ∀ p, (Owner.init.run env events).slot = some p →
    ∀ waiting ∈ p.waiting, ∀ ch ∈ startedIn (Owner.init.run env events).world.trace, ch < waiting

/-- **The queue, while its requests open.** In a run in which every request that
is started with others behind it gets its req_id, is in the canonical domain and
encodes, the queue never stands without a request in flight, never exceeds its
cap, and is served in order. -/
theorem first_come_first_served (env : Env) (events : List Event)
    (h : ∀ t ∈ turns env .init events, t.KeepsLine env) : FirstComeFirstServed env events := by
  have hline : Line (Owner.init.run env events).desk :=
    (run_reaches env .init events h).invariant Line
      ⟨nofun, Nat.zero_le _, List.Pairwise.nil, nofun⟩
      fun _ _ _ hkeeps hσ hmove => hσ.move hkeeps hmove
  refine ⟨fun p hp hne => ?_, fun p hp => ?_, ?_, fun p hp c hc ch hch => ?_⟩
  · rw [Owner.desk_of_slot hp] at hline
    have hfly := hline.progress (by simpa [desk, ActiveParts.waiting] using hne)
    simpa [desk, Option.isSome_iff_ne_none] using hfly
  · rw [Owner.desk_of_slot hp] at hline
    simpa [desk, ActiveParts.waiting] using hline.room
  · exact (List.pairwise_append.mp (List.pairwise_append.mp hline.order).1).1
  · rw [Owner.desk_of_slot hp] at hline
    exact (List.pairwise_append.mp hline.order).2.2 ch (List.mem_append_left _ hch) c hc

/-- Enough to see that a turn keeps the line: what it starts ahead of others is
a list request that opens. -/
def Turn.inLine (env : Env) (t : Turn) : Bool :=
  match t.slot with
  | none => true
  | some p =>
    match p.inFlight, p.routeQueue with
    | some _, ⟨.listServices, _⟩ :: _ =>
      match env.entropy t.world.draws with
      | some reqId => (encode env.intoWriter (.listServicesRequest reqId)).toBool
      | none => false
    | _, [] => true
    | _, _ => false

theorem Turn.openable_of_inLine {env : Env} {t : Turn} {p : ActiveParts} {cmd : RouteCmd}
    {rest : List RouteCmd} (h : t.inLine env = true) (hslot : t.slot = some p)
    (hqueue : p.routeQueue = cmd :: rest) :
    p.inFlight ≠ none ∧ Openable env t.world.draws cmd.op := by
  obtain ⟨op, ch⟩ := cmd
  unfold Turn.inLine at h
  rw [hslot] at h
  dsimp only at h
  rw [hqueue] at h
  cases hflight : p.inFlight with
  | none => simp [hflight] at h
  | some flight =>
    cases op with
    | authenticatedRequest service method endpoint params requestedBy => simp [hflight] at h
    | listServices =>
      rw [hflight] at h
      refine ⟨Option.some_ne_none _, ?_⟩
      cases hdraw : env.entropy t.world.draws with
      | none => simp [hdraw] at h
      | some reqId =>
        rw [hdraw] at h
        cases henc : encode env.intoWriter (.listServicesRequest reqId) with
        | error e => simp [henc, Except.toBool] at h
        | ok bytes => exact ⟨reqId, hdraw, bytes, henc⟩

theorem Turn.keepsLine_of_inLine {env : Env} {t : Turn} (h : t.inLine env = true) :
    t.KeepsLine env := by
  intro behind op hstarts hne
  cases t with
  | command w slot cmd =>
    cases slot with
    | none => exact hstarts.elim
    | some p =>
      cases cmd with
      | route op' =>
        obtain ⟨hflight, -, rfl⟩ := hstarts
        have hne' : p.routeQueue ≠ [] := fun hnil => hne (by rw [hnil, List.map_nil])
        obtain ⟨c, rest, hqueue⟩ := List.exists_cons_of_ne_nil hne'
        exact absurd hflight (Turn.openable_of_inLine h rfl hqueue).1
      | _ => exact hstarts.elim
  | breach w p => exact hstarts.elim
  | message w p decoded =>
    obtain ⟨-, c, rest, hqueue, rfl, -⟩ := hstarts
    exact (Turn.openable_of_inLine h rfl hqueue).2
  | deadline w p =>
    obtain ⟨c, rest, hqueue, rfl, -⟩ := hstarts
    exact (Turn.openable_of_inLine h rfl hqueue).2

/-- Two list requests wait behind a third, which the phone answers. -/
def listThrice : List Event :=
  [.command .start, Bench.list, Bench.list, Bench.list, Bench.sends 1 Bench.listed]

theorem list_requests_served_in_order :
    (∀ t ∈ turns Bench.threeRequests .init listThrice, t.KeepsLine Bench.threeRequests) ∧
      FirstComeFirstServed Bench.threeRequests listThrice := by
  have hclear : ∀ t ∈ turns Bench.threeRequests .init listThrice,
      t.inLine Bench.threeRequests = true := by decide +kernel
  have hmeets : ∀ t ∈ turns Bench.threeRequests .init listThrice,
      t.KeepsLine Bench.threeRequests := fun t ht => Turn.keepsLine_of_inLine (hclear t ht)
  exact ⟨hmeets, first_come_first_served _ _ hmeets⟩

/-- A request with a double in its parameters waits behind a list request, and
another list request behind it. -/
def listAroundDouble : List Event :=
  [.command .start, Bench.list,
    .command (.route (.authenticatedRequest "a" "GET" "/"
      (.object [("x", .number (.float 0x3ff8000000000000))]) none)),
    Bench.list, Bench.sends 1 Bench.listed]

/-- The phone answers the first. The second is refused at once, and the third is
left waiting with nothing in flight. -/
theorem refused_request_stalls_queue :
    ¬ FirstComeFirstServed Bench.threeRequests listAroundDouble := by
  intro h
  have hstall : (Owner.init.run Bench.threeRequests listAroundDouble).slot.any
      (fun p => !p.routeQueue.isEmpty && p.inFlight.isNone) = true := by
    decide +kernel
  cases hp : (Owner.init.run Bench.threeRequests listAroundDouble).slot with
  | none =>
    rw [hp] at hstall
    cases hstall
  | some p =>
    rw [hp] at hstall
    obtain ⟨hqueue, hflight⟩ := Bool.and_eq_true_iff.mp hstall
    have hfly := h.progress p hp (by simpa using hqueue)
    rw [Option.isNone_iff_eq_none.mp hflight] at hfly
    cases hfly

end Conveyance.Daemon
