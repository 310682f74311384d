import Conveyance.Core.Session
import Mathlib.Data.List.GetD
import Mathlib.Order.Bounds.Basic
import Mathlib.Order.MinMax
import Mathlib.Order.Nat

/-!
# The session watchdog (conveyance-core, session/timers.rs)

One task with three deadlines: an idle warning, the idle expiry and the hard cap.
Its loop selects over the hard cap, the next idle milestone and the activity
channel; activity opens a fresh idle window and re-arms the warning.

Instants and durations are nanoseconds. The runtime is ideal: a branch runs at the
instant it becomes ready, a report finds room, the activity channel stays open.
Which branch runs when several are ready at once is not the program's to say:
`pick` does.

`Exact` says what the watchdog is for, in terms of the last activity before an
instant; the loop does just that (`loop_exact`).
-/

namespace Conveyance.Core

/-! ## Parameters -/

/-- Seconds, as a `Duration`. -/
def seconds (n : Nat) : Nat := n * 1000000000

namespace SessionParams

def idleMin : Nat := seconds 300
def idleMax : Nat := seconds 14400
def capMin : Nat := seconds 1800
def capMax : Nat := seconds 86400
def warnDefault : Nat := seconds 120

end SessionParams

/-- The fields are private to the crate: values come out of `validated`. -/
structure SessionParams where
  idleTimeout : Nat
  warnBefore : Nat
  hardCap : Nat
  idle_bounds : SessionParams.idleMin ≤ idleTimeout ∧ idleTimeout ≤ SessionParams.idleMax
  cap_bounds : SessionParams.capMin ≤ hardCap ∧ hardCap ≤ SessionParams.capMax
  warn_lt : warnBefore < idleTimeout

inductive InvalidBounds where
  | mk
deriving DecidableEq

namespace SessionParams

def specDefaults : SessionParams where
  idleTimeout := seconds 1800
  warnBefore := warnDefault
  hardCap := seconds 14400
  idle_bounds := by decide
  cap_bounds := by decide
  warn_lt := by decide

def validated (idleTimeout warnBefore hardCap : Nat) : Except InvalidBounds SessionParams :=
  if hidle : idleMin ≤ idleTimeout ∧ idleTimeout ≤ idleMax then
    if hcap : capMin ≤ hardCap ∧ hardCap ≤ capMax then
      if hwarn : idleTimeout ≤ warnBefore then .error .mk
      else .ok ⟨idleTimeout, warnBefore, hardCap, hidle, hcap, Nat.lt_of_not_le hwarn⟩
    else .error .mk
  else .error .mk

/-- From the start of an idle window to its warning. -/
def warnAfter (params : SessionParams) : Nat := params.idleTimeout - params.warnBefore

theorem warnAfter_add (params : SessionParams) :
    params.warnAfter + params.warnBefore = params.idleTimeout :=
  Nat.sub_add_cancel params.warn_lt.le

/-- `validated` rejects, and clamps nothing. -/
theorem validated_eq_ok {idleTimeout warnBefore hardCap : Nat} {params : SessionParams} :
    validated idleTimeout warnBefore hardCap = .ok params ↔
      params.idleTimeout = idleTimeout ∧ params.warnBefore = warnBefore ∧
        params.hardCap = hardCap := by
  unfold validated
  constructor
  · intro h
    split_ifs at h
    cases h
    exact ⟨rfl, rfl, rfl⟩
  · rintro ⟨rfl, rfl, rfl⟩
    rw [dif_pos params.idle_bounds, dif_pos params.cap_bounds,
      dif_neg (Nat.not_le_of_lt params.warn_lt)]

end SessionParams

/-! ## The loop -/

/-- What the loop keeps between two selections. -/
structure WatchdogState where
  hardDeadline : Nat
  nextIdleDeadline : Nat
  warned : Bool

/-- The branches of the `select!`. -/
inductive Arm where
  | hardCap
  | idle
  | activity
deriving DecidableEq

namespace WatchdogState

variable (s : WatchdogState)

/-- When a branch becomes ready; the activities are those still to come. -/
def readyAt (activities : List Nat) : Arm → Option Nat
  | .hardCap => some s.hardDeadline
  | .idle => some s.nextIdleDeadline
  | .activity => activities.head?

/-- The instant the selection ends. -/
def wakes (activities : List Nat) : Nat :=
  min (min s.hardDeadline s.nextIdleDeadline) (activities.headD s.hardDeadline)

def readyArms (activities : List Nat) : List Arm :=
  [.hardCap, .idle, .activity].filter fun arm =>
    s.readyAt activities arm = some (s.wakes activities)

/-- The branch that runs, as number `i` of those that are ready. -/
def select (activities : List Nat) (i : Nat) : Arm :=
  (s.readyArms activities).getD (i % (s.readyArms activities).length) .hardCap

end WatchdogState

section Loop

variable (params : SessionParams) (pick : Nat → Nat)

/-- The reports with their instants; `none` if the iterations run out. -/
def loop : Nat → WatchdogState → List Nat → Option (List (Nat × TimerEvent))
  | 0, _, _ => none
  | fuel + 1, s, activities =>
    let now := s.wakes activities
    match s.select activities (pick fuel) with
    | .hardCap => some [(now, .hardCapReached)]
    | .idle =>
      if s.warned then some [(now, .idleExpired)]
      else
        (loop fuel
          { s with warned := true, nextIdleDeadline := s.nextIdleDeadline + params.warnBefore }
          activities).map ((now, .warningDue) :: ·)
    | .activity =>
      loop fuel
        { s with
          warned := false
          nextIdleDeadline := now + params.idleTimeout - params.warnBefore }
        activities.tail

/-- The watchdog of a session that starts at `start` and sees activity at the given
instants. Between two activities the loop runs at most twice. -/
def watchdog (start : Nat) (activities : List Nat) : Option (List (Nat × TimerEvent)) :=
  loop params pick (2 * activities.length + 2)
    ⟨start + params.hardCap, start + params.idleTimeout - params.warnBefore, false⟩ activities

end Loop

/-! ## What it is for -/

/-- The last activity up to `t`, if the activities are in order; before any, the
start of the session. -/
def lastActivity (t : Nat) : Nat → List Nat → Nat
  | last, [] => last
  | last, a :: rest => if a ≤ t then lastActivity t a rest else last

/-- The session is over at `t`: the cap is reached, or the idle timeout has elapsed
since the last activity. -/
def Over (params : SessionParams) (cap start : Nat) (activities : List Nat) (t : Nat) : Prop :=
  cap ≤ t ∨ lastActivity t start activities + params.idleTimeout ≤ t

/-- **Exact deadlines.** Warnings at the instants `warnings`, then the one terminal
event `event` at `ended`. -/
structure Exact (params : SessionParams) (cap start : Nat) (activities warnings : List Nat)
    (ended : Nat) (event : TimerEvent) : Prop where
  /-- The session ends at the first instant at which it is over. -/
  first : IsLeast {t | Over params cap start activities t} ended
  cause : (event = .hardCapReached ∧ ended = cap) ∨
    (event = .idleExpired ∧ ended = lastActivity ended start activities + params.idleTimeout)
  /-- A warning comes at its milestone in the window it is in. -/
  timely : ∀ t ∈ warnings,
    t ≤ ended ∧ t = lastActivity t start activities + params.warnAfter
  /-- None is left out, except that the cap may come first where they coincide. -/
  complete : ∀ t ≤ ended, t ≠ cap → t = lastActivity t start activities + params.warnAfter →
    t ∈ warnings
  /-- At most one in a window, as its instant is fixed by the window. -/
  increasing : warnings.Pairwise (· < ·)

/-- No activity falls on a deadline that is pending. Once the session is over none
is. -/
def Apart (params : SessionParams) (cap : Nat) : Nat → List Nat → Prop
  | _, [] => True
  | last, a :: rest => a ≤ min cap (last + params.idleTimeout) →
    a ≠ cap ∧ a ≠ last + params.warnAfter ∧ a ≠ last + params.idleTimeout ∧ Apart params cap a rest

/-! ## Windows -/

/-- The warnings of the window that began at `last`, so far. -/
def issued (params : SessionParams) (last : Nat) : Bool → List Nat
  | false => []
  | true => [last + params.warnAfter]

section Windows

variable {params : SessionParams} {cap last a t ended : Nat} {activities rest warnings : List Nat}
  {event : TimerEvent}

theorem mem_issued {warned : Bool} :
    t ∈ issued params last warned ↔ warned = true ∧ t = last + params.warnAfter := by
  cases warned <;> simp [issued]

theorem lastActivity_quiet (h : ∀ a ∈ activities.head?, t < a) :
    lastActivity t last activities = last := by
  cases activities with
  | nil => rfl
  | cons a rest => rw [lastActivity, if_neg (Nat.not_le_of_lt (h a rfl))]

theorem lastActivity_reset (h : a ≤ t) :
    lastActivity t last (a :: rest) = lastActivity t a rest := by
  rw [lastActivity, if_pos h]

theorem le_lastActivity (h : (last :: activities).Pairwise (· ≤ ·)) :
    last ≤ lastActivity t last activities := by
  induction activities generalizing last with
  | nil => exact Nat.le_refl _
  | cons a rest ih =>
    obtain ⟨hle, hrest⟩ := List.pairwise_cons.mp h
    rw [lastActivity]
    split_ifs
    · exact (hle a List.mem_cons_self).trans (ih hrest)
    · exact Nat.le_refl _

/-- The last window: nothing happens before the cap or the expiry. -/
theorem Exact.final (hquiet : ∀ a ∈ activities.head?, ended < a)
    (hended : ended = min cap (last + params.idleTimeout))
    (hcause : (event = .hardCapReached ∧ ended = cap) ∨
      (event = .idleExpired ∧ ended = last + params.idleTimeout))
    (hwarnings : (warnings = [] ∧ ended = cap ∧ cap ≤ last + params.warnAfter) ∨
      (warnings = [last + params.warnAfter] ∧ last + params.warnAfter ≤ ended)) :
    Exact params cap last activities warnings ended event := by
  have hlast : ∀ t ≤ ended, lastActivity t last activities = last :=
    fun t ht => lastActivity_quiet fun a ha => ht.trans_lt (hquiet a ha)
  refine ⟨⟨?_, fun t ht => ?_⟩, ?_, ?_, ?_, ?_⟩
  · show Over params cap last activities ended
    rw [Over, hlast _ (Nat.le_refl _)]
    omega
  · by_contra hlt
    replace ht : Over params cap last activities t := ht
    rw [Over, hlast t (by omega)] at ht
    omega
  · rw [hlast _ (Nat.le_refl _)]
    exact hcause
  · intro t ht
    rcases hwarnings with ⟨rfl, -⟩ | ⟨rfl, hle⟩
    · cases ht
    · obtain rfl := List.mem_singleton.mp ht
      exact ⟨hle, by rw [hlast _ hle]⟩
  · intro t ht hcap hmilestone
    rw [hlast t ht] at hmilestone
    rcases hwarnings with ⟨-, rfl, hle⟩ | ⟨rfl, -⟩
    · omega
    · exact List.mem_singleton.mpr hmilestone
  · rcases hwarnings with ⟨rfl, -⟩ | ⟨rfl, -⟩
    · exact List.Pairwise.nil
    · exact List.pairwise_singleton _ _

/-- An activity that comes in time opens the next window; whether the one it closes
had its warning is a matter of when it comes. -/
theorem Exact.reset (h : Exact params cap a rest warnings ended event)
    (hsorted : (last :: a :: rest).Pairwise (· ≤ ·)) (hcap : a < cap)
    (hidle : a < last + params.idleTimeout) :
    Exact params cap last (a :: rest)
      (issued params last (last + params.warnAfter < a) ++ warnings) ended event := by
  obtain ⟨hle, hrest⟩ := List.pairwise_cons.mp hsorted
  have hreset : ∀ {t}, a ≤ t → lastActivity t last (a :: rest) = lastActivity t a rest :=
    fun ht => lastActivity_reset ht
  have hquiet : ∀ {t}, t < a → lastActivity t last (a :: rest) = last := fun ht =>
    lastActivity_quiet (by
      rintro _ ⟨⟩
      exact ht)
  have hbelow : ∀ t, a ≤ lastActivity t a rest := fun t => le_lastActivity hrest
  have hended : a ≤ ended := by
    rcases h.first.1 with hover | hover
    · omega
    · have := hbelow ended
      omega
  refine ⟨⟨?_, fun t ht => ?_⟩, ?_, ?_, ?_, ?_⟩
  · show Over params cap last (a :: rest) ended
    rw [Over, hreset hended]
    exact h.first.1
  · by_contra hlt
    replace ht : Over params cap last (a :: rest) t := ht
    rw [Over] at ht
    by_cases hat : a ≤ t
    · rw [hreset hat] at ht
      exact hlt (h.first.2 ht)
    · rw [hquiet (Nat.lt_of_not_le hat)] at ht
      omega
  · rw [hreset hended]
    exact h.cause
  · intro t ht
    rcases List.mem_append.mp ht with hissued | hmem
    · obtain ⟨hwarned, rfl⟩ := mem_issued.mp hissued
      replace hwarned := of_decide_eq_true hwarned
      exact ⟨hwarned.le.trans hended, by rw [hquiet hwarned]⟩
    · have hmilestone := h.timely t hmem
      have := hbelow t
      rw [hreset (by omega)]
      exact hmilestone
  · intro t ht hne hmilestone
    by_cases hat : a ≤ t
    · rw [hreset hat] at hmilestone
      exact List.mem_append_right _ (h.complete t ht hne hmilestone)
    · have hta := Nat.lt_of_not_le hat
      rw [hquiet hta] at hmilestone
      exact List.mem_append_left _ (mem_issued.mpr ⟨decide_eq_true (hmilestone ▸ hta), hmilestone⟩)
  · refine List.pairwise_append.mpr ⟨?_, h.increasing, fun t ht t' ht' => ?_⟩
    · cases decide (last + params.warnAfter < a) with
      | false => exact List.Pairwise.nil
      | true => exact List.pairwise_singleton _ _
    · obtain ⟨hwarned, rfl⟩ := mem_issued.mp ht
      replace hwarned := of_decide_eq_true hwarned
      have heq := (h.timely t' ht').2
      have := hbelow t'
      omega

end Windows

/-! ## The loop is exact -/

section Selecting

variable {s : WatchdogState} {activities : List Nat}

theorem wakes_cases (s : WatchdogState) (activities : List Nat) :
    ∃ arm, s.readyAt activities arm = some (s.wakes activities) := by
  unfold WatchdogState.wakes
  rcases min_choice (min s.hardDeadline s.nextIdleDeadline) (activities.headD s.hardDeadline)
    with h | h
  · rcases min_choice s.hardDeadline s.nextIdleDeadline with h' | h'
    · exact ⟨.hardCap, by rw [h, h']; rfl⟩
    · exact ⟨.idle, by rw [h, h']; rfl⟩
  · cases activities with
    | nil => exact ⟨.hardCap, by rw [h]; rfl⟩
    | cons a rest => exact ⟨.activity, by rw [h]; rfl⟩

theorem readyAt_select (s : WatchdogState) (activities : List Nat) (i : Nat) :
    s.readyAt activities (s.select activities i) = some (s.wakes activities) := by
  have hmem : s.select activities i ∈ s.readyArms activities := by
    obtain ⟨arm, harm⟩ := wakes_cases s activities
    have hne : arm ∈ s.readyArms activities := by
      refine List.mem_filter.mpr ⟨?_, by simpa using harm⟩
      cases arm <;> simp
    have hlt := Nat.mod_lt i (List.length_pos_of_mem hne)
    rw [WatchdogState.select, List.getD_eq_getElem _ _ hlt]
    exact List.getElem_mem hlt
  simpa using (List.mem_filter.mp hmem).2

/-- What one iteration does: the branch that runs is one that is ready first. -/
theorem loop_cases (params : SessionParams) (pick : Nat → Nat) (fuel : Nat) (s : WatchdogState)
    (activities : List Nat) :
    (s.hardDeadline ≤ s.nextIdleDeadline ∧ (∀ a ∈ activities.head?, s.hardDeadline ≤ a) ∧
      loop params pick (fuel + 1) s activities = some [(s.hardDeadline, .hardCapReached)]) ∨
    (s.nextIdleDeadline ≤ s.hardDeadline ∧ (∀ a ∈ activities.head?, s.nextIdleDeadline ≤ a) ∧
      loop params pick (fuel + 1) s activities =
        if s.warned then some [(s.nextIdleDeadline, .idleExpired)]
        else
          (loop params pick fuel
            { s with warned := true, nextIdleDeadline := s.nextIdleDeadline + params.warnBefore }
            activities).map ((s.nextIdleDeadline, .warningDue) :: ·)) ∨
    ∃ a rest, activities = a :: rest ∧ a ≤ s.hardDeadline ∧ a ≤ s.nextIdleDeadline ∧
      loop params pick (fuel + 1) s activities =
        loop params pick fuel ⟨s.hardDeadline, a + params.warnAfter, false⟩ rest := by
  have hready := readyAt_select s activities (pick fuel)
  have hcap : s.wakes activities ≤ s.hardDeadline :=
    (Nat.min_le_left _ _).trans (Nat.min_le_left _ _)
  have hidle : s.wakes activities ≤ s.nextIdleDeadline :=
    (Nat.min_le_left _ _).trans (Nat.min_le_right _ _)
  have hactivity : ∀ a ∈ activities.head?, s.wakes activities ≤ a := by
    intro a ha
    refine (Nat.min_le_right _ _).trans ?_
    rw [List.headD_eq_head?_getD, show activities.head? = some a from ha]
    exact Nat.le_refl _
  rw [loop]
  cases hselect : s.select activities (pick fuel) with
  | hardCap =>
    rw [hselect, WatchdogState.readyAt] at hready
    rw [← Option.some.inj hready] at hidle hactivity ⊢
    exact .inl ⟨hidle, hactivity, rfl⟩
  | idle =>
    rw [hselect, WatchdogState.readyAt] at hready
    rw [← Option.some.inj hready] at hcap hactivity ⊢
    exact .inr (.inl ⟨hcap, hactivity, rfl⟩)
  | activity =>
    rw [hselect, WatchdogState.readyAt] at hready
    cases activities with
    | nil => cases hready
    | cons a rest =>
      rw [← Option.some.inj hready] at hcap hidle ⊢
      refine .inr (.inr ⟨a, rest, rfl, hcap, hidle, ?_⟩)
      rw [Nat.add_sub_assoc params.warn_lt.le]
      rfl

end Selecting

section Running

variable {params : SessionParams} {pick : Nat → Nat} {cap last : Nat} {activities : List Nat}

/-- The next idle deadline of the window that began at `last`. -/
def milestone (params : SessionParams) (last : Nat) : Bool → Nat
  | false => last + params.warnAfter
  | true => last + params.idleTimeout

theorem milestone_le (params : SessionParams) (last : Nat) (warned : Bool) :
    milestone params last warned ≤ last + params.idleTimeout := by
  have := params.warnAfter_add
  cases warned <;> simp only [milestone] <;> omega

/-- The loop ends, from anywhere in the window that began at `last`, and what the window's
warnings so far and the rest of the reports say is exact. -/
def Runs (params : SessionParams) (pick : Nat → Nat) (cap last : Nat) (warned : Bool)
    (activities : List Nat) : Prop :=
  ∀ fuel, 2 * activities.length + 2 ≤ fuel + warned.toNat → ∃ warnings ended event,
    loop params pick fuel ⟨cap, milestone params last warned, warned⟩ activities =
      some (warnings.map (·, .warningDue) ++ [(ended, event)]) ∧
    Exact params cap last activities (issued params last warned ++ warnings) ended event

variable (hsorted : (last :: activities).Pairwise (· ≤ ·))

include hsorted

variable (hapart : Apart params cap last activities)

include hapart

/-- One iteration, in a window that has had its warning or not. -/
theorem Runs.step {warned : Bool}
    (hwarned : warned = true → last + params.warnAfter ≤ cap ∧
      ∀ a ∈ activities.head?, last + params.warnAfter < a)
    (hwarn : warned = false → last + params.warnAfter ≤ cap →
      (∀ a ∈ activities.head?, last + params.warnAfter < a) →
      Runs params pick cap last true activities)
    (hreset : ∀ a rest, activities = a :: rest → Apart params cap a rest →
      Runs params pick cap a false rest) : Runs params pick cap last warned activities := by
  intro fuel hfuel
  have hwarnAfter := params.warnAfter_add
  obtain ⟨fuel, rfl⟩ : ∃ n, fuel = n + 1 :=
    ⟨fuel - 1, by have := warned.toNat_le; omega⟩
  -- an activity that is not too late is on no deadline
  have hstrict : ∀ a ∈ activities.head?, a ≤ min cap (last + params.idleTimeout) →
      a ≠ cap ∧ a ≠ last + params.warnAfter ∧ a ≠ last + params.idleTimeout := by
    intro a ha hle
    cases activities with
    | nil => cases ha
    | cons b rest =>
      cases ha
      obtain ⟨h₁, h₂, h₃, -⟩ := hapart hle
      exact ⟨h₁, h₂, h₃⟩
  have hmilestone := milestone_le params last warned
  rcases loop_cases params pick fuel ⟨cap, milestone params last warned, warned⟩ activities with
    ⟨hfirst, hquiet, hloop⟩ | ⟨hfirst, hquiet, hloop⟩ | ⟨a, rest, rfl, hcap, hidle, hloop⟩
  · refine ⟨[], cap, .hardCapReached, hloop, ?_⟩
    dsimp only at hfirst hquiet
    rw [List.append_nil]
    refine .final (fun a ha => ?_) ?_ (.inl ⟨rfl, rfl⟩) ?_
    · have hle := hquiet a ha
      by_contra hlt
      have := hstrict a ha (by omega)
      omega
    · omega
    · cases warned with
      | false => exact .inl ⟨rfl, rfl, hfirst⟩
      | true => exact .inr ⟨rfl, (hwarned rfl).1⟩
  · dsimp only at hfirst hquiet hloop
    cases warned with
    | true =>
      refine ⟨[], last + params.idleTimeout, .idleExpired, hloop, ?_⟩
      rw [List.append_nil]
      refine .final (fun a ha => ?_) ?_ (.inr ⟨rfl, rfl⟩) (.inr ⟨rfl, ?_⟩)
      · have hle : last + params.idleTimeout ≤ a := hquiet a ha
        by_contra hlt
        have := hstrict a ha (by simp only [milestone] at hfirst; omega)
        omega
      · simp only [milestone] at hfirst
        omega
      · omega
    | false =>
      have hlater : ∀ a ∈ activities.head?, last + params.warnAfter < a := by
        intro a ha
        have hle : last + params.warnAfter ≤ a := hquiet a ha
        simp only [milestone] at hfirst
        by_contra hlt
        have := hstrict a ha (by omega)
        omega
      obtain ⟨warnings, ended, event, hrest, hexact⟩ := hwarn rfl hfirst hlater fuel
        (by simpa using hfuel)
      refine ⟨(last + params.warnAfter) :: warnings, ended, event, ?_, hexact⟩
      rw [hloop, if_neg (by simp)]
      simp only [milestone] at hrest ⊢
      rw [Nat.add_assoc, hwarnAfter, hrest]
      rfl
  · dsimp only at hcap hidle
    obtain ⟨hnecap, hnewarn, hneidle, hrest⟩ := hapart (by omega)
    obtain ⟨warnings, ended, event, hrun, hexact⟩ := hreset a rest rfl hrest fuel (by
      simp only [List.length_cons] at hfuel
      have := warned.toNat_le
      simp only [Bool.toNat_false]
      omega)
    refine ⟨warnings, ended, event, hloop.trans hrun, ?_⟩
    have hbefore : decide (last + params.warnAfter < a) = warned := by
      cases warned with
      | false =>
        simp only [milestone] at hidle
        simpa using hidle
      | true => simpa using (hwarned rfl).2 a rfl
    rw [← hbefore]
    exact hexact.reset hsorted (by omega) (by omega)

/-- A window without and with its warning. -/
theorem Runs.window
    (hreset : ∀ a rest, activities = a :: rest → Apart params cap a rest →
      Runs params pick cap a false rest) : Runs params pick cap last false activities := by
  refine .step hsorted hapart (by simp) (fun _ hcap hlater => ?_) hreset
  exact .step hsorted hapart (fun _ => ⟨hcap, hlater⟩) (by simp) hreset

/-- **From every window on, the loop is exact.** -/
theorem loop_exact : Runs params pick cap last false activities := by
  induction activities generalizing last with
  | nil => exact .window hsorted hapart (by simp)
  | cons b rest ih =>
    refine .window hsorted hapart fun a rest' h hrest => ?_
    cases h
    exact ih (List.pairwise_cons.mp hsorted).2 hrest

end Running

/-- **The deadlines are exact.** Whatever the parameters, the activities and the choice among
branches that are ready together: as long as no activity falls on a pending deadline, the watchdog
ends, and its warnings and its one terminal event come at the instants `Exact` says. -/
theorem watchdog_deadlines_are_exact (params : SessionParams) (pick : Nat → Nat) (start : Nat)
    (activities : List Nat) (hsorted : (start :: activities).Pairwise (· ≤ ·))
    (hapart : Apart params (start + params.hardCap) start activities) :
    ∃ warnings ended event,
      watchdog params pick start activities =
        some (warnings.map (·, .warningDue) ++ [(ended, event)]) ∧
      Exact params (start + params.hardCap) start activities warnings ended event := by
  have hrun : Runs params pick (start + params.hardCap) start false activities :=
    loop_exact hsorted hapart
  rw [watchdog, Nat.add_sub_assoc params.warn_lt.le]
  exact hrun _ (Nat.le_refl _)

/-- Activity 20 s after the warning: another warning, and the expiry 30 minutes after it. -/
theorem rescued_session_expires_on_time :
    watchdog .specDefaults (fun _ => 0) 0 [seconds 1700] =
        some [(seconds 1680, .warningDue), (seconds 3380, .warningDue),
          (seconds 3500, .idleExpired)] ∧
      ∃ warnings ended event,
        watchdog .specDefaults (fun _ => 0) 0 [seconds 1700] =
          some (warnings.map (·, .warningDue) ++ [(ended, event)]) ∧
        Exact .specDefaults (0 + seconds 14400) 0 [seconds 1700] warnings ended event := by
  have hapart : Apart .specDefaults (0 + seconds 14400) 0 [seconds 1700] :=
    fun _ => ⟨by decide, by decide, by decide, trivial⟩
  exact ⟨by decide +kernel,
    watchdog_deadlines_are_exact .specDefaults (fun _ => 0) 0 _ (by decide) hapart⟩

end Conveyance.Core
