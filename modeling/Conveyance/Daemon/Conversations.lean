import Conveyance.Daemon.Refinement

/-!
# One conversation at a time

Every Route command the owner takes is answered once, waits, or is in flight,
and no conversation with the phone begins before the one before it is answered.

`Books` is the invariant: it balances, for each reply channel, the commands
taken against the replies sent, the queue, the flight and the request in hand.
Each way the books change is a lemma of its own, and a move of the desk is a
sequence of them. The books balance as long as nothing is popped off the queue
while a request is in flight.

`try_complete_route` breaks that: after a verified approval it drains the queue
although `finish_approval` has just put the approved request back in flight.
-/

namespace Conveyance.Daemon

open Lib Crypto Conveyance.Core Protocol

/-! ## Reading the trace -/

namespace Obs

def takes (ch : Nat) : Obs → Bool
  | .took c => c == ch
  | _ => false

def repliesTo (ch : Nat) : Obs → Bool
  | .reply c _ => c == ch
  | _ => false

/-- The routed request an entry is about, if it was taken, answered or spoken
for there. -/
def party : Obs → Option Nat
  | .took ch => some ch
  | .reply ch _ => some ch
  | .wire ch _ _ _ => ch
  | _ => none

end Obs

def takenCount (ch : Nat) (trace : List Obs) : Nat := trace.countP (·.takes ch)

def replyCount (ch : Nat) (trace : List Obs) : Nat := trace.countP (·.repliesTo ch)

/-- Something was sent to the phone for the request. -/
def Spoke (ch : Nat) (trace : List Obs) : Prop :=
  ∃ sid message complete, .wire (some ch) sid message complete ∈ trace

/-- When a conversation begins, every other that began is answered. -/
def OpensAlone (past : List Obs) : Obs → Prop
  | .wire (some ch) _ message _ =>
    opensConversation message = true → ∀ other, other ≠ ch → Spoke other past →
      0 < replyCount other past
  | _ => True

section Reading

variable {ch : Nat} {t l : List Obs}

@[simp] theorem takenCount_append :
    takenCount ch (t ++ l) = takenCount ch t + takenCount ch l := List.countP_append

@[simp] theorem replyCount_append :
    replyCount ch (t ++ l) = replyCount ch t + replyCount ch l := List.countP_append

theorem spoke_append : Spoke ch (t ++ l) ↔ Spoke ch t ∨ Spoke ch l := by
  simp only [Spoke, List.mem_append, exists_or]

/-- Entries that take, answer and speak for no request. -/
def Silent (obs : List Obs) : Prop := ∀ o ∈ obs, o.party = none

theorem Silent.takenCount (h : Silent l) : takenCount ch l = 0 := by
  refine List.countP_eq_zero.mpr fun o ho htakes => ?_
  cases o <;> simp [Obs.takes] at htakes
  exact Option.some_ne_none _ (h _ ho)

theorem Silent.replyCount (h : Silent l) : replyCount ch l = 0 := by
  refine List.countP_eq_zero.mpr fun o ho hreplies => ?_
  cases o <;> simp [Obs.repliesTo] at hreplies
  exact Option.some_ne_none _ (h _ ho)

theorem Silent.not_spoke (h : Silent l) : ¬ Spoke ch l :=
  fun ⟨_, _, _, hmem⟩ => Option.some_ne_none _ (h _ hmem)

theorem Clerical.silent {φ : LogEvent → Prop} (h : Clerical φ l) : Silent l :=
  h.all (fun _ _ => rfl) fun _ _ => rfl

theorem Clerical.silent_started {φ : LogEvent → Prop} (h : Clerical φ l) (ch : Nat) :
    Silent (.started ch :: l) := by
  intro o ho
  rcases List.mem_cons.mp ho with rfl | ho
  · rfl
  · exact h.silent o ho

end Reading

/-! ## The books -/

structure Books (trace : List Obs) (taken : Nat) (queue : List Nat) (flight hand : Option Nat) :
    Prop where
  balance : ∀ ch, takenCount ch trace =
    replyCount ch trace + queue.count ch + flight.toList.count ch + hand.toList.count ch
  once : ∀ ch, takenCount ch trace ≤ 1
  fresh : ∀ ch, taken ≤ ch → takenCount ch trace = 0
  /-- Nothing was sent for a request that waits. -/
  unspoken : ∀ ch ∈ queue, ¬ Spoke ch trace
  spoken : ∀ ch, Spoke ch trace → takenCount ch trace = 1
  flown : ∀ ch ∈ flight, Spoke ch trace
  alone : Always OpensAlone trace

namespace Books

variable {trace obs : List Obs} {taken ch : Nat} {queue rest : List Nat}
  {flight hand : Option Nat} {result : Except OpError IpcResponse}

theorem empty : Books [] 0 [] none none := by
  constructor <;> simp [takenCount, replyCount, Spoke]

section

variable (h : Books trace taken queue flight hand)

include h

/-- Entries that touch no request. -/
theorem silent (hobs : Silent obs) :
    Books (trace ++ obs) taken queue flight hand where
  balance c := by simpa [hobs.takenCount, hobs.replyCount] using h.balance c
  once c := by simpa [hobs.takenCount] using h.once c
  fresh c hc := by simpa [hobs.takenCount] using h.fresh c hc
  unspoken c hc := by simpa [spoke_append, hobs.not_spoke] using h.unspoken c hc
  spoken c hc := by
    rw [spoke_append, or_iff_left hobs.not_spoke] at hc
    simpa [hobs.takenCount] using h.spoken c hc
  flown c hc := spoke_append.mpr (.inl (h.flown c hc))
  alone := by
    refine always_append.mpr ⟨h.alone, always_of_forall fun o ho past => ?_⟩
    cases o with
    | wire c sid m complete =>
      cases c with
      | none => trivial
      | some c => exact absurd (hobs _ ho) (Option.some_ne_none c)
    | _ => trivial

/-- A command is taken and put somewhere. -/
theorem took {queue' : List Nat} {hand' : Option Nat}
    (hput : ∀ c, queue'.count c + hand'.toList.count c =
      queue.count c + hand.toList.count c + [taken].count c)
    (hqueue : ∀ c ∈ queue', c ∈ queue ∨ c = taken) :
    Books (trace ++ [.took taken]) (taken + 1) queue' flight hand' := by
  have hnew : ∀ c, takenCount c [.took taken] = [taken].count c := fun c => by
    simp [takenCount, Obs.takes, List.count_singleton]
  have hunspoken : ∀ c, ¬ Spoke c [.took taken] := by simp [Spoke]
  have hnone : takenCount taken trace = 0 := h.fresh taken le_rfl
  refine ⟨fun c => ?_, fun c => ?_, fun c hc => ?_, fun c hc => ?_, fun c hc => ?_, fun c hc => ?_,
    ?_⟩
  · have hreply : replyCount c [.took taken] = 0 := by simp [replyCount, Obs.repliesTo]
    have := h.balance c
    have := hput c
    rw [takenCount_append, replyCount_append, hnew, hreply]
    omega
  · rw [takenCount_append, hnew]
    by_cases hc : c = taken
    · subst hc
      simp [hnone]
    · have := h.once c
      rw [List.count_singleton, if_neg (by simpa using Ne.symm hc)]
      omega
  · rw [takenCount_append, hnew, h.fresh c (by omega), List.count_singleton,
      if_neg (by simp; omega)]
  · rw [spoke_append, or_iff_left (hunspoken c)]
    rcases hqueue c hc with hc | rfl
    · exact h.unspoken c hc
    · intro hspoke
      have := h.spoken _ hspoke
      omega
  · rw [spoke_append, or_iff_left (hunspoken c)] at hc
    have hone := h.spoken c hc
    have hne : c ≠ taken := by
      rintro rfl
      omega
    rw [takenCount_append, hnew, hone, List.count_singleton, if_neg (by simpa using hne.symm)]
  · exact spoke_append.mpr (.inl (h.flown c hc))
  · exact always_append.mpr ⟨h.alone, by simp [OpensAlone]⟩

/-- A request that waits, flies or is in hand is answered and let go. -/
theorem reply {queue' : List Nat} {flight' hand' : Option Nat}
    (hlet : ∀ c, queue.count c + flight.toList.count c + hand.toList.count c =
      queue'.count c + flight'.toList.count c + hand'.toList.count c + [ch].count c)
    (hqueue : ∀ c ∈ queue', c ∈ queue) (hflight : ∀ c ∈ flight', c ∈ flight) :
    Books (trace ++ [.reply ch result]) taken queue' flight' hand' := by
  have htaken : ∀ c, takenCount c [.reply ch result] = 0 := by simp [takenCount, Obs.takes]
  have hunspoken : ∀ c, ¬ Spoke c [.reply ch result] := by simp [Spoke]
  refine ⟨fun c => ?_, fun c => ?_, fun c hc => ?_, fun c hc => ?_, fun c hc => ?_, fun c hc => ?_,
    ?_⟩
  · have hreply : replyCount c [.reply ch result] = [ch].count c := by
      simp [replyCount, Obs.repliesTo, List.count_singleton]
    have := h.balance c
    have := hlet c
    rw [takenCount_append, replyCount_append, htaken, hreply]
    omega
  · simpa [htaken] using h.once c
  · simpa [htaken] using h.fresh c hc
  · rw [spoke_append, or_iff_left (hunspoken c)]
    exact h.unspoken c (hqueue c hc)
  · rw [spoke_append, or_iff_left (hunspoken c)] at hc
    simpa [htaken] using h.spoken c hc
  · exact spoke_append.mpr (.inl (h.flown c (hflight c hc)))
  · exact always_append.mpr ⟨h.alone, by simp [OpensAlone]⟩

/-- Something is sent for the request in flight or in hand; a conversation
begins only with the request in hand, and nothing in flight. -/
theorem speak (sid : Nat) (message : WireMessage)
    (complete : Bool) (hheld : flight = some ch ∨ hand = some ch)
    (hopens : opensConversation message = true → flight = none ∧ hand = some ch) :
    Books (trace ++ [.wire (some ch) sid message complete]) taken queue flight hand := by
  have htaken : ∀ c, takenCount c [.wire (some ch) sid message complete] = 0 := by
    simp [takenCount, Obs.takes]
  have hspoke : ∀ c, Spoke c [.wire (some ch) sid message complete] ↔ c = ch := by
    simp [Spoke, eq_comm]
  -- the speaker was taken once, and does not wait
  have hself : takenCount ch trace = 1 ∧ queue.count ch = 0 := by
    have hbalance := h.balance ch
    have honce := h.once ch
    rcases hheld with rfl | rfl <;>
      simp only [Option.toList_some, List.count_singleton_self] at hbalance <;> omega
  refine ⟨fun c => ?_, fun c => ?_, fun c hc => ?_, fun c hc => ?_, fun c hc => ?_, fun c hc => ?_,
    always_append.mpr ⟨h.alone, ?_⟩⟩
  · have hreply : replyCount c [.wire (some ch) sid message complete] = 0 := by
      simp [replyCount, Obs.repliesTo]
    rw [takenCount_append, replyCount_append, htaken, hreply]
    exact h.balance c
  · simpa [htaken] using h.once c
  · simpa [htaken] using h.fresh c hc
  · rw [spoke_append, hspoke, not_or]
    refine ⟨h.unspoken c hc, ?_⟩
    rintro rfl
    exact List.count_eq_zero.mp hself.2 hc
  · rw [spoke_append, hspoke] at hc
    rcases hc with hc | rfl
    · simpa [htaken] using h.spoken c hc
    · simpa [htaken] using hself.1
  · exact spoke_append.mpr (.inl (h.flown c hc))
  · refine always_cons.mpr ⟨fun hm other hne hother => ?_, always_nil⟩
    obtain ⟨rfl, rfl⟩ := hopens hm
    rw [List.append_nil] at hother ⊢
    have hbalance := h.balance other
    have hwait := List.count_eq_zero.mpr fun hmem => h.unspoken other hmem hother
    rw [h.spoken other hother, hwait, Option.toList_none, List.count_nil, Option.toList_some,
      List.count_singleton, if_neg (by simpa using hne.symm)] at hbalance
    omega

/-- Everyone who waits is answered. -/
theorem endQueue : Books (trace ++ queue.map endedReply) taken [] flight hand := by
  induction queue generalizing trace with
  | nil => simpa using h
  | cons c rest ih =>
    have hone : Books (trace ++ [endedReply c]) taken rest flight hand := by
      refine h.reply (fun d => ?_) (fun d hd => List.mem_cons_of_mem c hd) (fun d hd => hd)
      simp only [List.count_cons, List.count_nil]
      omega
    simpa using ih hone

theorem endFlight : Books (trace ++ flight.toList.map endedReply) taken queue none hand := by
  cases flight with
  | none => simpa using h
  | some c => exact h.reply (fun d => by simp; omega) (fun d hd => hd) nofun

theorem endAll :
    Books (trace ++ (flight.toList.map endedReply ++ queue.map endedReply)) taken [] none hand := by
  simpa using h.endFlight.endQueue

/-- A command is taken and answered at once. -/
theorem refuse :
    Books (trace ++ [.took taken, .reply taken result]) (taken + 1) queue flight hand := by
  have htook : Books (trace ++ [.took taken]) (taken + 1) (queue ++ [taken]) flight hand :=
    h.took (fun c => by simp; omega) (fun c hc => by simpa using hc)
  have hreply : Books (trace ++ [.took taken] ++ [.reply taken result]) (taken + 1) queue flight
      hand :=
    htook.reply (fun c => by simp; omega) (fun c hc => List.mem_append_left _ hc) (fun c hc => hc)
  simpa using hreply

end

theorem land (h : Books trace taken queue none (some ch)) (hspoke : Spoke ch trace) :
    Books trace taken queue (some ch) none :=
  { h with
    balance := fun c => by simpa using h.balance c
    flown := fun c hc => by
      rw [Option.mem_some_iff] at hc
      exact hc ▸ hspoke }

theorem pop (h : Books trace taken (ch :: rest) flight none) :
    Books trace taken rest flight (some ch) :=
  { h with
    balance := fun c => by
      have := h.balance c
      simp only [List.count_cons, Option.toList_none, List.count_nil, Option.toList_some] at this ⊢
      omega
    unspoken := fun c hc => h.unspoken c (List.mem_cons_of_mem ch hc) }

theorem replyFlight (h : Books trace taken queue (some ch) hand)
    (result : Except OpError IpcResponse) :
    Books (trace ++ [.reply ch result]) taken queue none hand :=
  h.reply (fun d => by simp; omega) (fun d hd => hd) nofun

theorem replyHand (h : Books trace taken queue flight (some ch))
    (result : Except OpError IpcResponse) :
    Books (trace ++ [.reply ch result]) taken queue flight none :=
  h.reply (fun d => by simp) (fun d hd => hd) (fun d hd => hd)

end Books

/-! ## Moves -/

/-- The books of a desk balance, and a request is only in hand while nothing
flies. -/
structure Orderly (σ : Desk) : Prop where
  books : Books σ.trace σ.taken σ.queue (σ.flight.map (·.ch)) σ.hand
  alone : σ.hand ≠ none → σ.flight = none

theorem Desk.endedReplies_eq (σ : Desk) :
    σ.endedReplies = (σ.flight.map (·.ch)).toList.map endedReply ++ σ.queue.map endedReply := by
  unfold Desk.endedReplies
  cases σ.flight <;> rfl

section Moves

variable {env : Env} {t : Turn} {σ σ' : Desk}

theorem Orderly.move (hone : ¬ t.Overlaps env) (h : Orderly σ) (hmove : Move env t σ σ') :
    Orderly σ' := by
  obtain ⟨hbooks, halone⟩ := h
  -- entries that touch no request
  have hsilent : ∀ {obs}, Silent obs → Orderly (σ.say obs) :=
    fun hobs => ⟨hbooks.silent hobs, halone⟩
  cases hmove with
  | skip =>
    exact ⟨{ hbooks with fresh := fun c hc => hbooks.fresh c (Nat.le_of_succ_le hc) }, halone⟩
  | heard _ _ => exact hsilent (by simp [Silent, Obs.party])
  | noted hrows => exact hsilent hrows.clerical.silent
  | ponged | endReplied | inspected | startAnswered | startFailed =>
    exact hsilent (by simp [Silent, Obs.party])
  | unreached | settle => exact ⟨hbooks, halone⟩
  | aborted _ _ _ _ hrows => exact ⟨hbooks.silent hrows.clerical.silent, halone⟩
  | begun key _ _ _ _ hrows =>
    refine ⟨hbooks.silent fun o ho => ?_, halone⟩
    rcases List.mem_append.mp ho with ho | ho
    · exact hrows.clerical.silent o ho
    · rw [List.mem_singleton.mp ho]
      rfl
  | refuse e => exact ⟨hbooks.refuse, halone⟩
  | enqueue _ _ =>
    exact ⟨hbooks.took (fun c => by simp [Desk.say]; omega) (fun c hc => by simpa using hc),
      halone⟩
  | take _ hhand hflight =>
    rw [hhand] at hbooks
    exact ⟨hbooks.took (fun c => by simp [Desk.say]) (fun c hc => .inl hc), fun _ => hflight⟩
  | pop _ hhand hqueue hwhy =>
    rw [hhand, hqueue] at hbooks
    exact ⟨hbooks.pop, fun _ => hwhy.resolve_right hone⟩
  | @openFailed ch _ _ e hhand _ _ hfail =>
    rw [hhand] at hbooks
    have hdone := (hbooks.silent (hfail.clerical.silent_started ch)).replyHand (.error e)
    exact ⟨by simpa [Desk.say] using hdone, fun hhand => absurd rfl hhand⟩
  | @openDead ch s o rows ends hhand _ hopen hends =>
    have hnone := halone (by rw [hhand]; exact Option.some_ne_none ch)
    rw [hhand, hnone] at hbooks
    have hspoke := (hbooks.silent
      ((hopen.clerical.assigned ch o.reqId).silent_started ch)).speak s.sid o.message false
      (.inr rfl) (fun _ => ⟨rfl, rfl⟩)
    have hdone := (hspoke.endAll.silent hends.clerical.silent).replyHand
      (.error (.fromCore .sessionEnded))
    refine ⟨?_, fun hhand => absurd rfl hhand⟩
    simpa [Desk.say, Desk.endedReplies_eq, hnone, endedReply] using hdone
  | @opened ch s o rows hhand _ hopen =>
    have hnone := halone (by rw [hhand]; exact Option.some_ne_none ch)
    rw [hhand, hnone] at hbooks
    have hspoke := (hbooks.silent
      ((hopen.clerical.assigned ch o.reqId).silent_started ch)).speak s.sid o.message true
      (.inr rfl) (fun _ => ⟨rfl, rfl⟩)
    have hdone := hspoke.land (spoke_append.mpr (.inr ⟨s.sid, o.message, true, by simp⟩))
    exact ⟨by simpa [Desk.say] using hdone, fun hhand => absurd rfl hhand⟩
  | answer _ hflight _ hanswer =>
    obtain ⟨rows, result, rfl, hrows⟩ := hanswer.shape
    rw [hflight] at hbooks
    have hdone := (hbooks.silent hrows.silent).replyFlight result
    exact ⟨by simpa [Desk.say] using hdone, fun _ => rfl⟩
  | @refused _ _ _ _ _ _ _ e _ hflight _ _ hgranted hrefusal =>
    rw [hflight] at hbooks
    have hdone := (hbooks.silent (hrefusal.clerical hgranted).silent).replyFlight (.error e)
    exact ⟨by simpa [Desk.say] using hdone, fun _ => rfl⟩
  | @promoteDead s _ _ _ _ execute _ _ _ hflight _ _ _ hrows hends =>
    rw [hflight] at hbooks
    have hspoke := (hbooks.silent hrows.clerical.silent).speak s.sid (.executeRequest execute)
      false (.inl rfl) (by simp [opensConversation])
    have hdone := (hspoke.endQueue.silent hends.clerical.silent).replyFlight
      (.error (.fromCore .sessionEnded))
    refine ⟨?_, fun _ => rfl⟩
    simpa [Desk.say, endedReply] using hdone
  | @promote s _ _ _ _ execute _ _ hflight _ _ _ hrows =>
    rw [hflight] at hbooks
    have hdone := (hbooks.silent hrows.clerical.silent).speak s.sid (.executeRequest execute)
      true (.inl rfl) (by simp [opensConversation])
    refine ⟨by simpa [Desk.say] using hdone, fun hhand => ?_⟩
    rw [halone hhand] at hflight
    cases hflight
  | teardown _ _ _ _ hends =>
    have hdone := hbooks.endAll.silent hends.clerical.silent
    exact ⟨by simpa [Desk.say, Desk.endedReplies_eq] using hdone, fun _ => rfl⟩

end Moves

/-! ## Runs -/

namespace Owner

/-- The requests that wait. -/
def waiting (o : Owner) : List Nat :=
  match o.slot with
  | none => []
  | some p => p.waiting

/-- The request in flight. -/
def inFlight (o : Owner) : List Nat :=
  match o.slot with
  | none => []
  | some p => (p.inFlight.map (·.reply)).toList

theorem desk_queue (o : Owner) : o.desk.queue = o.waiting := by
  obtain ⟨w, slot⟩ := o
  cases slot <;> rfl

theorem desk_flight (o : Owner) : (o.desk.flight.map (·.ch)).toList = o.inFlight := by
  obtain ⟨w, slot⟩ := o
  cases slot with
  | none => rfl
  | some p => cases hflight : p.inFlight <;>
      simp [Owner.desk, Daemon.desk, Owner.inFlight, hflight, InFlight.flight]

end Owner

theorem takenCount_pos {ch : Nat} {trace : List Obs} :
    0 < takenCount ch trace ↔ .took ch ∈ trace := by
  refine List.countP_pos_iff.trans ⟨?_, fun h => ⟨_, h, by simp [Obs.takes]⟩⟩
  rintro ⟨o, ho, htakes⟩
  cases o <;> simp [Obs.takes] at htakes
  exact htakes ▸ ho

theorem orderly_run {env : Env} {events : List Event}
    (h : ∀ t ∈ turns env .init events, ¬ t.Overlaps env) :
    Orderly (Owner.init.run env events).desk :=
  (run_reaches env .init events h).invariant Orderly ⟨.empty, nofun⟩
    fun _ _ _ hone hσ hmove => hσ.move hone hmove

/-- The contract of routing, at the end of a run. -/
structure ConversationsKept (env : Env) (events : List Event) : Prop where
  /-- Every Route command taken is answered once, waits, or is in flight. -/
  accounted : ∀ ch, .took ch ∈ (Owner.init.run env events).world.trace →
    replyCount ch (Owner.init.run env events).world.trace +
      (Owner.init.run env events).waiting.count ch +
      (Owner.init.run env events).inFlight.count ch = 1
  /-- None is left unanswered once the owner is idle. -/
  idle : (Owner.init.run env events).slot = none →
    ∀ ch, .took ch ∈ (Owner.init.run env events).world.trace →
      replyCount ch (Owner.init.run env events).world.trace = 1
  /-- What was in flight at some point is in flight still, or answered. -/
  held : ∀ before after, events = before ++ after →
    ∀ ch ∈ (Owner.init.run env before).inFlight,
      ch ∈ (Owner.init.run env events).inFlight ∨
        replyCount ch (Owner.init.run env events).world.trace = 1
  /-- No conversation begins while another that began is unanswered. -/
  alone : Always OpensAlone (Owner.init.run env events).world.trace

/-- **Routing, while no approval overlaps.** In a run in which no verified
approval of the request in flight is handled while other requests wait, every
routed request is answered exactly once and conversations never overlap. -/
theorem conversations_kept_without_overlap (env : Env) (events : List Event)
    (h : ∀ t ∈ turns env .init events, ¬ t.Overlaps env) : ConversationsKept env events := by
  have hbooks := (orderly_run h).books
  have hbalance : ∀ ch, takenCount ch (Owner.init.run env events).world.trace =
      replyCount ch (Owner.init.run env events).world.trace +
        (Owner.init.run env events).waiting.count ch +
        (Owner.init.run env events).inFlight.count ch := fun ch => by
    have := hbooks.balance ch
    rwa [Owner.desk_queue, Owner.desk_flight] at this
  have haccounted : ∀ ch, .took ch ∈ (Owner.init.run env events).world.trace →
      replyCount ch (Owner.init.run env events).world.trace +
        (Owner.init.run env events).waiting.count ch +
        (Owner.init.run env events).inFlight.count ch = 1 := fun ch hch => by
    have hpos := takenCount_pos.mpr hch
    have honce : takenCount ch (Owner.init.run env events).world.trace ≤ 1 := hbooks.once ch
    have := hbalance ch
    omega
  refine ⟨haccounted, fun hidle ch hch => ?_, ?_, hbooks.alone⟩
  · have := haccounted ch hch
    simpa [Owner.waiting, Owner.inFlight, hidle] using this
  · rintro before after rfl ch hch
    -- it was spoken for when it flew, so it cannot wait now
    have hbefore := (orderly_run fun t ht => h t (by
      rw [turns_append]
      exact List.mem_append_left _ ht)).books
    rw [← Owner.desk_flight, Option.mem_toList] at hch
    have hspoke : Spoke ch (Owner.init.run env (before ++ after)).world.trace := by
      obtain ⟨sid, m, complete, hmem⟩ := hbefore.flown ch hch
      refine ⟨sid, m, complete, ?_⟩
      rw [run_append]
      exact (run_trace_grows env _ after).subset hmem
    have hone : takenCount ch (Owner.init.run env (before ++ after)).world.trace = 1 :=
      hbooks.spoken ch hspoke
    have hnowait : (Owner.init.run env (before ++ after)).waiting.count ch = 0 :=
      List.count_eq_zero.mpr fun hmem => hbooks.unspoken ch (by rwa [Owner.desk_queue]) hspoke
    have hsum := hbalance ch
    by_cases hnow : ch ∈ (Owner.init.run env (before ++ after)).inFlight
    · exact Or.inl hnow
    · rw [hone, hnowait, List.count_eq_zero.mpr hnow] at hsum
      exact Or.inr hsum.symm

/-- No approval comes in while requests wait; enough to see that none overlaps. -/
def Turn.clear : Turn → Bool
  | .message _ p (some (.approvalResponse _)) => p.routeQueue.isEmpty
  | _ => true

theorem Turn.not_overlaps_of_clear {env : Env} {t : Turn} (h : t.clear = true) :
    ¬ t.Overlaps env := by
  rintro ⟨w, p, decoded, rfl, ⟨flight, rsp, -, rfl, -⟩, hqueue⟩
  exact hqueue (List.isEmpty_iff.mp h)

/-- The second request arrives after the first was approved, waits for its
result, and is answered when the session ends. -/
def inTurn : List Event :=
  [.command .start, Bench.get "a", Bench.sends 1 Bench.approved, Bench.get "b",
    Bench.sends 2 Bench.executed, .command (.endSession .userEnded)]

theorem conversations_kept_in_turn :
    (∀ t ∈ turns Bench.twoRequests .init inTurn, ¬ t.Overlaps Bench.twoRequests) ∧
      ConversationsKept Bench.twoRequests inTurn := by
  have hclear : ∀ t ∈ turns Bench.twoRequests .init inTurn, t.clear = true := by decide +kernel
  have hmeets : ∀ t ∈ turns Bench.twoRequests .init inTurn, ¬ t.Overlaps Bench.twoRequests :=
    fun t ht => Turn.not_overlaps_of_clear (hclear t ht)
  exact ⟨hmeets, conversations_kept_without_overlap _ _ hmeets⟩

/-- The second request waits while the first is approved. -/
def overlapping : List Event :=
  [.command .start, Bench.get "a", Bench.get "b", Bench.sends 1 Bench.approved]

/-- Draining the queue after the approval puts the second request in flight over
the first, which is neither answered nor anywhere else. -/
theorem approved_request_overwritten : ¬ ConversationsKept Bench.twoRequests overlapping := by
  intro h
  have hfacts : 0 < takenCount 1 (Owner.init.run Bench.twoRequests overlapping).world.trace ∧
      replyCount 1 (Owner.init.run Bench.twoRequests overlapping).world.trace +
        (Owner.init.run Bench.twoRequests overlapping).waiting.count 1 +
        (Owner.init.run Bench.twoRequests overlapping).inFlight.count 1 = 0 := by
    decide +kernel
  have hone := h.accounted 1 (takenCount_pos.mp hfacts.1)
  omega

end Conveyance.Daemon
