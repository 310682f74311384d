import Mathlib.Logic.Relation
import Mathlib.Data.List.Basic

/-!
# Labelled steps and traces

Steps of a labelled relation (`Reaches`), also along given labels (`Path`); runs of a machine
whose steps are a function of actions (`Along`, `answers`); and traces (`Always`). Each has
its induction rule.
-/

namespace Lib

section Steps

variable {S L : Type*} {step : L → S → S → Prop} {allowed : L → Prop} {s s' s'' : S} {l : L}

/-- Finitely many steps under allowed labels. -/
def Reaches (step : L → S → S → Prop) (allowed : L → Prop) : S → S → Prop :=
  Relation.ReflTransGen fun s s' => ∃ l, allowed l ∧ step l s s'

theorem Reaches.refl (s : S) : Reaches step allowed s s := Relation.ReflTransGen.refl

theorem Reaches.trans (h : Reaches step allowed s s') (h' : Reaches step allowed s' s'') :
    Reaches step allowed s s'' :=
  Relation.ReflTransGen.trans h h'

theorem Reaches.head (h : step l s s') (h' : Reaches step (· = l) s' s'') :
    Reaches step (· = l) s s'' :=
  Relation.ReflTransGen.head ⟨l, rfl, h⟩ h'

theorem Reaches.single (h : step l s s') : Reaches step (· = l) s s' :=
  .head h (.refl s')

/-- Steps under one label are steps under any condition the label meets. -/
theorem Reaches.allow (h : Reaches step (· = l) s s') (hl : allowed l) :
    Reaches step allowed s s' :=
  Relation.ReflTransGen.mono (fun _ _ ⟨_, heq, hstep⟩ => ⟨l, hl, heq ▸ hstep⟩) _ _ h

/-- What holds at first and is kept by every allowed step holds at the end. -/
theorem Reaches.invariant (h : Reaches step allowed s s') (inv : S → Prop) (hs : inv s)
    (hstep : ∀ l s s', allowed l → inv s → step l s s' → inv s') : inv s' := by
  induction h with
  | refl => exact hs
  | tail _ hlast ih =>
    obtain ⟨l, hl, hlast⟩ := hlast
    exact hstep l _ _ hl ih hlast

/-- A way through the labels in turn: each finds the state it starts from as `found` says,
and leaves it by steps of its own. -/
inductive Path (step : L → S → S → Prop) (found : L → S → Prop) : S → List L → S → Prop
  | nil (s : S) : Path step found s [] s
  | cons {l : L} {s s' s'' : S} {labels : List L} : found l s → Reaches step (· = l) s s' →
      Path step found s' labels s'' → Path step found s (l :: labels) s''

variable {found : L → S → Prop} {labels later : List L}

theorem Path.single (hfound : found l s) (h : Reaches step (· = l) s s') :
    Path step found s [l] s' :=
  .cons hfound h (.nil s')

/-- Paths compose. -/
theorem Path.append (h : Path step found s labels s') (h' : Path step found s' later s'') :
    Path step found s (labels ++ later) s'' := by
  induction h with
  | nil => exact h'
  | cons hfound hsteps _ ih => exact .cons hfound hsteps (ih h')

/-- The steps of a path, under whatever all its labels meet. -/
theorem Path.reaches (h : Path step found s labels s') (hall : ∀ l ∈ labels, allowed l) :
    Reaches step allowed s s' := by
  induction h with
  | nil => exact .refl _
  | cons _ hsteps _ ih =>
    obtain ⟨hfirst, hrest⟩ := List.forall_mem_cons.mp hall
    exact (hsteps.allow hfirst).trans (ih hrest)

/-- The steps before a label lead to a state that it finds. -/
theorem Path.reaches_found (h : Path step found s labels s') (hl : l ∈ labels) :
    ∃ t, Reaches step (fun _ => True) s t ∧ found l t := by
  induction h with
  | nil => cases hl
  | cons hfound hsteps _ ih =>
    rcases List.mem_cons.mp hl with rfl | hlater
    · exact ⟨_, .refl _, hfound⟩
    · obtain ⟨t, hreach, hfound⟩ := ih hlater
      exact ⟨t, (hsteps.allow trivial).trans hreach, hfound⟩

end Steps

section Runs

variable {S A : Type*} {step : S → A → S} {φ ψ : S → A → Prop}

/-- Every action stands in relation `φ` to the state it is taken in. -/
def Along (step : S → A → S) (φ : S → A → Prop) : S → List A → Prop
  | _, [] => True
  | s, a :: actions => φ s a ∧ Along step φ (step s a) actions

instance decidableAlong [∀ s a, Decidable (φ s a)] :
    ∀ s actions, Decidable (Along step φ s actions)
  | _, [] => .isTrue trivial
  | s, a :: actions =>
    have := decidableAlong (step s a) actions
    inferInstanceAs (Decidable (φ s a ∧ Along step φ (step s a) actions))

variable {s : S} {actions : List A}

/-- Under an invariant that the actions related by `φ` keep, `φ` may give `ψ`. -/
theorem Along.transfer (h : Along step φ s actions) (inv : S → Prop) (hs : inv s)
    (hkept : ∀ s a, inv s → φ s a → inv (step s a)) (hgives : ∀ s a, inv s → φ s a → ψ s a) :
    Along step ψ s actions := by
  induction actions generalizing s with
  | nil => trivial
  | cons a actions ih =>
    obtain ⟨hfirst, hrest⟩ := h
    exact ⟨hgives s a hs hfirst, ih hrest (hkept s a hs hfirst)⟩

theorem along_append {more : List A} :
    Along step φ s (actions ++ more) ↔
      Along step φ s actions ∧ Along step φ (actions.foldl step s) more := by
  induction actions generalizing s with
  | nil => exact (and_iff_right trivial).symm
  | cons a actions ih => exact (and_congr_right fun _ => ih).trans and_assoc.symm

theorem Along.and (h : Along step φ s actions) (h' : Along step ψ s actions) :
    Along step (fun s a => φ s a ∧ ψ s a) s actions := by
  induction actions generalizing s with
  | nil => trivial
  | cons a actions ih => exact ⟨⟨h.1, h'.1⟩, ih h.2 h'.2⟩

/-- What holds at first and is kept by the actions related by `φ` holds at the end. -/
theorem Along.invariant (h : Along step φ s actions) (inv : S → Prop) (hs : inv s)
    (hkept : ∀ s a, inv s → φ s a → inv (step s a)) : inv (actions.foldl step s) := by
  induction actions generalizing s with
  | nil => exact hs
  | cons a actions ih => exact ih h.2 (hkept s a hs h.1)

end Runs

section Answers

variable {S T A B R Q : Type*} {step : S → A → S × R} {step' : T → B → T × Q}

/-- The answers to calls made one after the other, each in the state the one
before left behind. -/
def answers (step : S → A → S × R) : S → List A → List R
  | _, [] => []
  | s, a :: calls => (step s a).2 :: answers step (step s a).1 calls

/-- A machine that follows another step by step answers every call as it does. -/
theorem answers_map {state : S → T} {call : A → B} {answer : R → Q}
    (h : ∀ s a, step' (state s) (call a) = (state (step s a).1, answer (step s a).2))
    (s : S) (calls : List A) :
    answers step' (state s) (calls.map call) = (answers step s calls).map answer := by
  induction calls generalizing s with
  | nil => rfl
  | cons a calls ih =>
    show (step' (state s) (call a)).2 ::
      answers step' (step' (state s) (call a)).1 (calls.map call) = _
    rw [h, ih]
    rfl

end Answers

section Traces

variable {α : Type*} {φ : List α → α → Prop}

/-- Every entry stands in relation `φ` to the entries before it. -/
def Always (φ : List α → α → Prop) (t : List α) : Prop :=
  ∀ past a rest, t = past ++ a :: rest → φ past a

@[simp] theorem always_nil : Always φ [] := by
  intro past a rest h
  simp at h

theorem always_of_forall {l : List α} (h : ∀ a ∈ l, ∀ past, φ past a) : Always φ l := by
  rintro past a rest rfl
  exact h a (by simp) past

/-- A trace taken apart where it grew. -/
theorem always_append {t l : List α} :
    Always φ (t ++ l) ↔ Always φ t ∧ Always (fun past => φ (t ++ past)) l := by
  constructor
  · intro h
    refine ⟨fun past a rest ht => h past a (rest ++ l) ?_, fun past a rest hl => h _ a rest ?_⟩
    · rw [ht, List.append_assoc, List.cons_append]
    · rw [hl, List.append_assoc]
  · rintro ⟨ht, hl⟩ past a rest heq
    -- the entry is in the old part or in the new one
    rcases List.append_eq_append_iff.mp heq with ⟨m, rfl, hm⟩ | ⟨m, rfl, hm⟩
    · exact hl m a rest hm
    · cases m with
      | nil =>
        rw [List.append_nil] at *
        simpa using hl [] a rest hm.symm
      | cons b m =>
        obtain ⟨rfl, rfl⟩ := List.cons.inj hm
        exact ht past a m rfl

@[simp] theorem always_cons {a : α} {l : List α} :
    Always φ (a :: l) ↔ φ [] a ∧ Always (fun past => φ (a :: past)) l := by
  have hone : Always φ [a] ↔ φ [] a := by
    constructor
    · exact fun h => h [] a [] rfl
    · intro h past b rest heq
      cases past with
      | nil => exact (List.cons.inj heq).1 ▸ h
      | cons c past => simp at heq
  rw [← hone, ← List.singleton_append, always_append]
  rfl

theorem always_snoc {t : List α} {a : α} : Always φ (t ++ [a]) ↔ Always φ t ∧ φ t a := by
  rw [always_append, always_cons, List.append_nil]
  exact and_congr_right fun _ => and_iff_left always_nil

end Traces

end Lib
