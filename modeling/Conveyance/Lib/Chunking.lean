import Mathlib.Data.List.Basic

/-!
# Cutting units out of a stream that arrives in chunks

A receiver keeps the bytes it has not used yet, cuts complete units off their
front and hands each unit to a machine. What comes out must not depend on where
the transport happened to cut the stream.

A pass over a buffer goes through without an error (`Feeds`) or ends at a unit the machine
refuses (`Fails`). Each can be split at any boundary, so that feeding chunk by chunk is
feeding the whole stream; a failing pass only for a `Prompt` slicer, which cuts a unit as
soon as it is all there.
-/

namespace Lib.Chunking

variable {α σ ε μ : Type}

/-- A rule for cutting one complete unit off the front of a buffer. Bytes that arrive later
never change a cut already possible. -/
structure Slicer (α : Type) where
  cut : List α → Option (List α × List α)
  shrinks : ∀ {b f r : List α}, cut b = some (f, r) → r.length < b.length
  stable : ∀ {b f r : List α} (x : List α), cut b = some (f, r) →
    cut (b ++ x) = some (f, r ++ x)

theorem Slicer.cut_nil (sl : Slicer α) : sl.cut [] = none := by
  cases h : sl.cut [] with
  | none => rfl
  | some fr => exact absurd (sl.shrinks h) (Nat.not_lt_zero _)

/-- What is cut off two pieces is cut off the first one, unless that holds no unit. -/
theorem Slicer.cut_append {sl : Slicer α} {b c f r : List α} (h : sl.cut (b ++ c) = some (f, r)) :
    sl.cut b = none ∨ ∃ q, sl.cut b = some (f, q) ∧ r = q ++ c := by
  cases hb : sl.cut b with
  | none => exact .inl rfl
  | some fq =>
    obtain ⟨f', q⟩ := fq
    obtain ⟨rfl, rfl⟩ := Prod.mk.inj (Option.some.inj ((sl.stable c hb).symm.trans h))
    exact .inr ⟨q, rfl, rfl⟩

/-- An error-free pass of `step` over the units of a buffer: the messages it gives back, and
the state and the bytes it leaves. -/
inductive Feeds (sl : Slicer α) (step : σ → List α → σ × Except ε (Option μ)) :
    σ → List α → List μ → σ → List α → Prop where
  | stop {s : σ} {b : List α} : sl.cut b = none → Feeds sl step s b [] s b
  | skip {s s' s'' : σ} {b f r r' : List α} {ms : List μ} :
      sl.cut b = some (f, r) → step s f = (s', .ok none) →
      Feeds sl step s' r ms s'' r' → Feeds sl step s b ms s'' r'
  | emit {s s' s'' : σ} {b f r r' : List α} {m : μ} {ms : List μ} :
      sl.cut b = some (f, r) → step s f = (s', .ok (some m)) →
      Feeds sl step s' r ms s'' r' → Feeds sl step s b (m :: ms) s'' r'

namespace Feeds

variable {sl : Slicer α} {step : σ → List α → σ × Except ε (Option μ)}

variable {s s'' s' : σ} {b c r' r : List α} {ms ms' : List μ}

/-- A pass over `b ++ c` stops over at the end of `b`. -/
theorem split (h : Feeds sl step s (b ++ c) ms s'' r') :
    ∃ ms₁ s' r ms₂, Feeds sl step s b ms₁ s' r ∧
      Feeds sl step s' (r ++ c) ms₂ s'' r' ∧ ms = ms₁ ++ ms₂ := by
  generalize hw : b ++ c = w at h
  induction h generalizing b with
  | stop hnone =>
    subst hw
    refine ⟨[], _, b, [], .stop ?_, .stop hnone, rfl⟩
    cases hb : sl.cut b with
    | none => rfl
    | some p => rw [sl.stable c hb] at hnone; cases hnone
  | @skip s s' s'' w f r r' ms hcut hstep hrest ih =>
    subst hw
    rcases sl.cut_append hcut with hb | ⟨q, hb, rfl⟩
    · exact ⟨[], s, b, ms, .stop hb, .skip hcut hstep hrest, rfl⟩
    · -- the unit was already complete inside `b`
      obtain ⟨ms₁, t, u, ms₂, h₁, h₂, rfl⟩ := ih rfl
      exact ⟨ms₁, t, u, ms₂, .skip hb hstep h₁, h₂, rfl⟩
  | @emit s s' s'' w f r r' m ms hcut hstep hrest ih =>
    subst hw
    rcases sl.cut_append hcut with hb | ⟨q, hb, rfl⟩
    · exact ⟨[], s, b, m :: ms, .stop hb, .emit hcut hstep hrest, rfl⟩
    · obtain ⟨ms₁, t, u, ms₂, h₁, h₂, rfl⟩ := ih rfl
      exact ⟨m :: ms₁, t, u, ms₂, .emit hb hstep h₁, h₂, rfl⟩

theorem cut_rest (h : Feeds sl step s b ms s' r) : sl.cut r = none := by
  induction h with
  | stop hnone => exact hnone
  | skip _ _ _ ih => exact ih
  | emit _ _ _ ih => exact ih

/-- A pass over `b` and a pass over what it left in front of `c` make one over `b ++ c`. -/
theorem append (h : Feeds sl step s b ms s' r) (h' : Feeds sl step s' (r ++ c) ms' s'' r') :
    Feeds sl step s (b ++ c) (ms ++ ms') s'' r' := by
  induction h with
  | stop _ => exact h'
  | skip hcut hstep _ ih => exact .skip (sl.stable c hcut) hstep (ih h')
  | emit hcut hstep _ ih => exact .emit (sl.stable c hcut) hstep (ih h')

theorem unique {t t' : σ} (h : Feeds sl step s b ms t r) (h' : Feeds sl step s b ms' t' r') :
    ms = ms' ∧ t = t' ∧ r = r' := by
  induction h generalizing ms' with
  | stop hnone => cases h' <;> simp_all
  | skip hcut hstep _ ih =>
    cases h' with
    | stop hnone => simp_all
    | skip hcut' hstep' hrest' =>
      cases hcut.symm.trans hcut'
      cases hstep.symm.trans hstep'
      exact ih hrest'
    | emit hcut' hstep' hrest' => simp_all
  | emit hcut hstep _ ih =>
    cases h' with
    | stop | skip => simp_all
    | emit hcut' hstep' hrest' =>
      cases hcut.symm.trans hcut'
      cases hstep.symm.trans hstep'
      obtain ⟨rfl, hrest⟩ := ih hrest'
      exact ⟨rfl, hrest⟩

end Feeds

/-! ## The first message -/

/-- Part of a unit is no unit yet. -/
theorem Slicer.cut_part {sl : Slicer α} {b c : List α} (h : sl.cut (b ++ c) = some (b ++ c, []))
    (hc : c ≠ []) : sl.cut b = none := by
  cases hb : sl.cut b with
  | none => rfl
  | some fr =>
    have hstable := sl.stable c hb
    rw [h] at hstable
    have hrest : fr.2 ++ c = [] := (Prod.mk.inj (Option.some.inj hstable)).2.symm
    exact absurd (List.append_eq_nil_iff.mp hrest).2 hc

/-- The first message of a pass is complete with the last element of `head`. -/
def Completes (sl : Slicer α) (step : σ → List α → σ × Except ε (Option μ)) (s : σ)
    (head : List α) (m : μ) : Prop :=
  ∃ before unit s₁ s₂, Feeds sl step s before [] s₁ [] ∧ sl.cut unit = some (unit, []) ∧
    step s₁ unit = (s₂, .ok (some m)) ∧ head = before ++ unit

namespace Completes

variable {sl : Slicer α} {step : σ → List α → σ × Except ε (Option μ)}

/-- The pass up to there gives the message and leaves nothing. -/
theorem feeds {s : σ} {head : List α} {m : μ} (h : Completes sl step s head m) :
    ∃ s', Feeds sl step s head [m] s' [] := by
  obtain ⟨before, unit, s₁, s₂, hbefore, hcut, hstep, rfl⟩ := h
  exact ⟨s₂, hbefore.append (.emit hcut hstep (.stop sl.cut_nil))⟩

/-- It comes first in every pass that goes on from there. -/
theorem leads {s s' : σ} {head x r : List α} {m : μ} {ms : List μ}
    (h : Completes sl step s head m) (hfeeds : Feeds sl step s (head ++ x) ms s' r) :
    ∃ ms', ms = m :: ms' := by
  obtain ⟨t, hhead⟩ := h.feeds
  obtain ⟨ms₁, s₁, q, ms₂, hfirst, -, rfl⟩ := hfeeds.split
  obtain ⟨rfl, -, -⟩ := hhead.unique hfirst
  exact ⟨ms₂, rfl⟩

/-- Before it, a pass gives nothing, and what it leaves still has the message ahead. -/
theorem advance {s : σ} {b c : List α} {m : μ} (h : Completes sl step s (b ++ c) m) (hc : c ≠ []) :
    ∃ s' r, Feeds sl step s b [] s' r ∧ Completes sl step s' (r ++ c) m := by
  obtain ⟨before, unit, s₁, s₂, hbefore, hcut, hstep, heq⟩ := h
  rcases List.append_eq_append_iff.mp heq with ⟨d, rfl, rfl⟩ | ⟨d, rfl, rfl⟩
  · -- all of it lies before the last unit
    obtain ⟨ms₁, t, q, ms₂, hfirst, hsecond, hms⟩ := hbefore.split
    obtain ⟨rfl, rfl⟩ := List.append_eq_nil_iff.mp hms.symm
    exact ⟨t, q, hfirst, q ++ d, unit, s₁, s₂, hsecond, hcut, hstep, (List.append_assoc ..).symm⟩
  · -- it ends inside the last unit
    have hpart : sl.cut d = none := Slicer.cut_part hcut hc
    refine ⟨s₁, d, ?_, [], d ++ c, s₁, s₂, .stop sl.cut_nil, hcut, hstep, rfl⟩
    exact hbefore.append (.stop hpart)

end Completes

/-! ## Passes that fail -/

/-- Cutting loses nothing, and what cannot be cut yet is shorter than its unit. -/
structure Slicer.Prompt (sl : Slicer α) : Prop where
  joins : ∀ {b f r : List α}, sl.cut b = some (f, r) → f ++ r = b
  longer : ∀ {b x f r : List α}, sl.cut b = none → sl.cut (b ++ x) = some (f, r) →
    b.length < f.length

/-- A pass over a buffer that begins at position `i` of the stream. Each message comes with the
position behind its last unit; `stop` is the position behind the unit that is refused. -/
inductive Fails (sl : Slicer α) (step : σ → List α → σ × Except ε (Option μ)) :
    Nat → σ → List α → List (Nat × μ) → Nat → ε → Prop where
  | fail {i : Nat} {s s' : σ} {b f r : List α} {e : ε} :
      sl.cut b = some (f, r) → step s f = (s', .error e) →
      Fails sl step i s b [] (i + f.length) e
  | skip {i stop : Nat} {s s' : σ} {b f r : List α} {ends : List (Nat × μ)} {e : ε} :
      sl.cut b = some (f, r) → step s f = (s', .ok none) →
      Fails sl step (i + f.length) s' r ends stop e → Fails sl step i s b ends stop e
  | emit {i stop : Nat} {s s' : σ} {b f r : List α} {m : μ} {ends : List (Nat × μ)} {e : ε} :
      sl.cut b = some (f, r) → step s f = (s', .ok (some m)) →
      Fails sl step (i + f.length) s' r ends stop e →
      Fails sl step i s b ((i + f.length, m) :: ends) stop e

variable {sl : Slicer α} {step : σ → List α → σ × Except ε (Option μ)}

/-- Every pass ends, one way or the other. -/
theorem feeds_or_fails (sl : Slicer α) (step : σ → List α → σ × Except ε (Option μ)) (i : Nat)
    (s : σ) (b : List α) :
    (∃ ms s' r, Feeds sl step s b ms s' r) ∨ ∃ ends stop e, Fails sl step i s b ends stop e := by
  induction hlen : b.length using Nat.strongRecOn generalizing i s b with
  | _ n ih =>
    cases hcut : sl.cut b with
    | none => exact .inl ⟨[], s, b, .stop hcut⟩
    | some fr =>
      obtain ⟨f, r⟩ := fr
      have hlt : r.length < n := hlen ▸ sl.shrinks hcut
      rcases hstep : step s f with ⟨s', e | _ | m⟩
      · exact .inr ⟨[], _, e, .fail hcut hstep⟩
      · rcases ih _ hlt (i + f.length) s' r rfl with ⟨ms, s'', r', h⟩ | ⟨ends, stop, e, h⟩
        · exact .inl ⟨ms, s'', r', .skip hcut hstep h⟩
        · exact .inr ⟨ends, stop, e, .skip hcut hstep h⟩
      · rcases ih _ hlt (i + f.length) s' r rfl with ⟨ms, s'', r', h⟩ | ⟨ends, stop, e, h⟩
        · exact .inl ⟨m :: ms, s'', r', .emit hcut hstep h⟩
        · exact .inr ⟨_, stop, e, .emit hcut hstep h⟩

theorem Feeds.not_fails {i stop : Nat} {s s' : σ} {b r : List α} {ms : List μ}
    {ends : List (Nat × μ)} {e : ε} (h : Feeds sl step s b ms s' r) :
    ¬ Fails sl step i s b ends stop e := by
  intro hfails
  induction hfails generalizing ms with
  | fail | skip | emit => cases h <;> simp_all

namespace Fails

variable {i stop : Nat} {s : σ} {b c : List α} {ends : List (Nat × μ)} {e : ε}

theorem unique {stop' : Nat} {ends' : List (Nat × μ)} {e' : ε} (h : Fails sl step i s b ends stop e)
    (h' : Fails sl step i s b ends' stop' e') : ends = ends' ∧ stop = stop' ∧ e = e' := by
  induction h generalizing ends' with
  | fail hcut hstep => cases h' <;> simp_all
  | skip hcut hstep _ ih =>
    cases h' with
    | fail hcut' hstep' => simp_all
    | skip hcut' hstep' hrest' =>
      cases hcut.symm.trans hcut'
      cases hstep.symm.trans hstep'
      exact ih hrest'
    | emit hcut' hstep' hrest' => simp_all
  | emit hcut hstep _ ih =>
    cases h' with
    | fail | skip => simp_all
    | emit hcut' hstep' hrest' =>
      cases hcut.symm.trans hcut'
      cases hstep.symm.trans hstep'
      obtain ⟨rfl, hrest⟩ := ih hrest'
      exact ⟨rfl, hrest⟩

/-- Positions only move forward. -/
theorem after (h : Fails sl step i s b ends stop e) : i ≤ stop ∧ ∀ x ∈ ends, i ≤ x.1 := by
  induction h with
  | fail _ _ => exact ⟨Nat.le_add_right _ _, List.forall_mem_nil _⟩
  | skip _ _ _ ih =>
    exact ⟨Nat.le_of_add_right_le ih.1, fun x hx => Nat.le_of_add_right_le (ih.2 x hx)⟩
  | emit _ _ _ ih =>
    exact ⟨Nat.le_of_add_right_le ih.1, List.forall_mem_cons.mpr
      ⟨Nat.le_add_right _ _, fun x hx => Nat.le_of_add_right_le (ih.2 x hx)⟩⟩

variable (hsl : sl.Prompt)

include hsl

/-- The unit that is refused lies in the buffer. -/
theorem within (h : Fails sl step i s b ends stop e) : stop ≤ i + b.length := by
  induction h with
  | fail hcut | skip hcut | emit hcut =>
    rw [← hsl.joins hcut, List.length_append]
    omega

/-- Nothing is complete before bytes that hold no unit have been gone by. -/
theorem beyond (hnone : sl.cut b = none) (h : Fails sl step i s (b ++ c) ends stop e) :
    i + b.length < stop ∧ ∀ x ∈ ends, i + b.length < x.1 := by
  cases h with
  | fail hcut _ =>
    exact ⟨Nat.add_lt_add_left (hsl.longer hnone hcut) i, List.forall_mem_nil _⟩
  | skip hcut _ hrest =>
    have hlong := hsl.longer hnone hcut
    obtain ⟨hstop, hends⟩ := hrest.after
    exact ⟨by omega, fun x hx => by have := hends x hx; omega⟩
  | emit hcut _ hrest =>
    have hlong := hsl.longer hnone hcut
    obtain ⟨hstop, hends⟩ := hrest.after
    refine ⟨by omega, List.forall_mem_cons.mpr ⟨by show i + b.length < i + _; omega, ?_⟩⟩
    exact fun x hx => by have := hends x hx; omega

/-- **A failing pass over `b ++ c` and the boundary between them.** It fails inside `b`; or `b` goes
through, and what it leaves fails in front of `c`. The messages of `b` are complete by its end. -/
theorem split (h : Fails sl step i s (b ++ c) ends stop e) :
    Fails sl step i s b ends stop e ∨
      ∃ ends₁ s' r j ends₂, Feeds sl step s b (ends₁.map Prod.snd) s' r ∧
        (∀ x ∈ ends₁, x.1 ≤ i + b.length) ∧ j + r.length = i + b.length ∧
        Fails sl step j s' (r ++ c) ends₂ stop e ∧ ends = ends₁ ++ ends₂ := by
  generalize hw : b ++ c = w at h
  induction h generalizing b with
  | @fail i s s' w f r e hcut hstep =>
    subst hw
    rcases sl.cut_append hcut with hb | ⟨q, hb, rfl⟩
    · exact .inr ⟨[], s, b, i, [], .stop hb, List.forall_mem_nil _, rfl, .fail hcut hstep, rfl⟩
    · exact .inl (.fail hb hstep)
  | @skip i stop s s' w f r ends e hcut hstep hrest ih =>
    subst hw
    rcases sl.cut_append hcut with hb | ⟨q, hb, rfl⟩
    · exact .inr ⟨[], s, b, i, ends, .stop hb, List.forall_mem_nil _, rfl, .skip hcut hstep hrest,
        rfl⟩
    · have hlen : b.length = f.length + q.length := by rw [← hsl.joins hb, List.length_append]
      rcases ih rfl with h | ⟨ends₁, t, u, j, ends₂, h₁, hends, hj, h₂, rfl⟩
      · exact .inl (.skip hb hstep h)
      · refine .inr ⟨ends₁, t, u, j, ends₂, .skip hb hstep h₁, fun x hx => ?_, by omega, h₂, rfl⟩
        have := hends x hx
        omega
  | @emit i stop s s' w f r m ends e hcut hstep hrest ih =>
    subst hw
    rcases sl.cut_append hcut with hb | ⟨q, hb, rfl⟩
    · exact .inr ⟨[], s, b, i, _, .stop hb, List.forall_mem_nil _, rfl, .emit hcut hstep hrest, rfl⟩
    · have hlen : b.length = f.length + q.length := by rw [← hsl.joins hb, List.length_append]
      rcases ih rfl with h | ⟨ends₁, t, u, j, ends₂, h₁, hends, hj, h₂, rfl⟩
      · exact .inl (.emit hb hstep h)
      · refine .inr ⟨(i + f.length, m) :: ends₁, t, u, j, ends₂, .emit hb hstep h₁,
          List.forall_mem_cons.mpr ⟨?_, fun x hx => ?_⟩, by omega, h₂, rfl⟩
        · show i + f.length ≤ _
          omega
        · have := hends x hx
          omega

end Fails

end Lib.Chunking
