import Mathlib.Data.List.Basic

/-!
# Programs that can be interrupted

A program over persisted state is a sequence of atomic operations. It may be cut
off between any two of them, and then what it has done so far is what the next
program finds.

The `wp_*` rules go through a program operation by operation. Since an operation's
rule asks for the cut's condition before it, what they prove holds at every point of a run.
-/

namespace Lib

/-- How a program ends. -/
inductive Outcome (ε α : Type) where
  | returned (a : α)
  | failed (e : ε)
  | cut
deriving DecidableEq

/-- The operations a program may still perform before it is cut; `none` if it is not. -/
abbrev Budget := Option Nat

/-- A program over states `σ` that returns an `α`, fails with an `ε` or is cut. -/
def Interruptible (σ ε α : Type) : Type := Budget → σ → Outcome ε α × σ × Budget

namespace Interruptible

variable {σ ε α β : Type}

/-- What follows a program that has ended: `f` if it returned, nothing otherwise. -/
def andThen (f : α → Interruptible σ ε β) :
    Outcome ε α × σ × Budget → Outcome ε β × σ × Budget
  | (.returned a, s, rest) => f a rest s
  | (.failed e, s, rest) => (.failed e, s, rest)
  | (.cut, s, rest) => (.cut, s, rest)

instance : Monad (Interruptible σ ε) where
  pure a := fun budget s => (.returned a, s, budget)
  bind m f := fun budget s => andThen f (m budget s)

def fail (e : ε) : Interruptible σ ε α := fun budget s => (.failed e, s, budget)

/-- An atomic operation: it takes place, or the program is cut before it. If it
fails the state stays as it was. -/
def operation (f : σ → Except ε (α × σ)) : Interruptible σ ε α := fun budget s =>
  if budget = some 0 then (.cut, s, budget)
  else
    match f s with
    | .ok (a, s') => (.returned a, s', budget.map (· - 1))
    | .error e => (.failed e, s, budget.map (· - 1))

/-- An operation that only reads. -/
def query (f : σ → α) : Interruptible σ ε α := operation fun s => .ok (f s, s)

/-- An operation that cannot fail. -/
def update (f : σ → α × σ) : Interruptible σ ε α := operation fun s => .ok (f s)

/-- A computation that does not touch the state. -/
def ofExcept : Except ε α → Interruptible σ ε α
  | .ok a => pure a
  | .error e => fail e

/-- `if (condition) throw e`. -/
def throwIf (condition : Prop) [Decidable condition] (e : ε) : Interruptible σ ε Unit :=
  if condition then fail e else pure ()

/-- What a program has to have done when it ends. -/
def Settles (Q : α → σ → Prop) (E : ε → σ → Prop) (C : σ → Prop) (budget : Budget) :
    Outcome ε α × σ × Budget → Prop
  | (.returned a, s, rest) => Q a s ∧ (budget = none → rest = none)
  | (.failed e, s, _) => E e s
  | (.cut, s, _) => C s ∧ budget ≠ none

/-- The weakest precondition of `m` for a result in `Q`, a failure in `E` and a cut in `C`,
wherever it is cut. -/
def Wp (m : Interruptible σ ε α) (Q : α → σ → Prop) (E : ε → σ → Prop) (C : σ → Prop) (s : σ) :
    Prop :=
  ∀ budget, Settles Q E C budget (m budget s)

section Rules

variable {m : Interruptible σ ε α} {Q R : α → σ → Prop} {E : ε → σ → Prop} {C : σ → Prop} {s s' : σ}
  {a : α} {e : ε}

theorem wp_pure (h : Q a s) : Wp (pure a) Q E C s :=
  fun _ => ⟨h, id⟩

theorem wp_fail (h : E e s) : Wp (fail e : Interruptible σ ε α) Q E C s :=
  fun _ => h

/-- Sequencing: the result of the first part starts the second. -/
theorem wp_bind {f : α → Interruptible σ ε β} {Q : β → σ → Prop}
    (h : Wp m (fun a => Wp (f a) Q E C) E C s) : Wp (m >>= f) Q E C s := by
  intro budget
  have hm := h budget
  show Settles Q E C budget (andThen f (m budget s))
  generalize m budget s = first at hm ⊢
  obtain ⟨outcome, s', rest⟩ := first
  cases outcome with
  | failed | cut => exact hm
  | returned a =>
    obtain ⟨hnext, hrest⟩ := hm
    have hends := hnext rest
    show Settles Q E C budget (f a rest s')
    generalize f a rest s' = last at hends ⊢
    obtain ⟨outcome, s'', left⟩ := last
    cases outcome with
    | failed e => exact hends
    | returned | cut => exact ⟨hends.1, fun hb => hends.2 (hrest hb)⟩

/-- What the weakest precondition says of a run. -/
theorem Wp.ends (h : Wp m Q E C s) (budget : Budget) :
    (∃ a, (m budget s).1 = .returned a ∧ Q a (m budget s).2.1) ∨
    (∃ e, (m budget s).1 = .failed e ∧ E e (m budget s).2.1) ∨
    ((m budget s).1 = .cut ∧ C (m budget s).2.1 ∧ budget ≠ none) := by
  have hm := h budget
  generalize m budget s = last at hm ⊢
  obtain ⟨outcome, s', rest⟩ := last
  cases outcome with
  | returned a => exact .inl ⟨a, rfl, hm.1⟩
  | failed e => exact .inr (.inl ⟨e, rfl, hm⟩)
  | cut => exact .inr (.inr ⟨rfl, hm⟩)

/-- The rule of consequence. -/
theorem wp_mono (h : Wp m Q E C s) (hQ : ∀ a s, Q a s → R a s) : Wp m R E C s := by
  intro budget
  have hm := h budget
  generalize m budget s = last at hm ⊢
  obtain ⟨outcome, s', rest⟩ := last
  cases outcome with
  | failed | cut => exact hm
  | returned a => exact ⟨hQ a s' hm.1, hm.2⟩

/-- The state may be left behind before the operation, so it has to meet `C`. -/
theorem wp_operation {f : σ → Except ε (α × σ)} (hC : C s) (hf : f s = .ok (a, s'))
    (h : Q a s') : Wp (operation f) Q E C s := by
  intro budget
  rw [operation]
  split_ifs with hcut
  · exact ⟨hC, by rw [hcut]; exact Option.some_ne_none 0⟩
  · rw [hf]
    exact ⟨h, fun hb => by rw [hb]; rfl⟩

theorem wp_query {f : σ → α} (hC : C s) (hf : f s = a) (h : Q a s) : Wp (query f) Q E C s :=
  wp_operation hC (by rw [hf]) h

theorem wp_update {f : σ → α × σ} (hC : C s) (h : Q (f s).1 (f s).2) : Wp (update f) Q E C s :=
  wp_operation hC rfl h

theorem wp_ofExcept {x : Except ε α} {f : α → Interruptible σ ε β} {Q : β → σ → Prop}
    (hx : x = .ok a) (h : Wp (f a) Q E C s) : Wp (ofExcept x >>= f) Q E C s := by
  rw [hx]
  exact h

theorem wp_throw {condition : Prop} [Decidable condition] {Q : Unit → σ → Prop}
    (hc : condition) (h : E e s) : Wp (throwIf condition e) Q E C s := by
  rw [throwIf, if_pos hc]
  exact wp_fail h

/-- A check that passes. -/
theorem wp_throwIf {condition : Prop} [Decidable condition] {Q : Unit → σ → Prop}
    (hc : ¬condition) (h : Q () s) : Wp (throwIf condition e) Q E C s := by
  rw [throwIf, if_neg hc]
  exact wp_pure h

section Loops

variable {γ : Type} {body : γ → β → Interruptible σ ε γ} (I : List β → γ → σ → Prop)
  {items : List β} {c : γ}

theorem wp_foldlM_from {done : List β} (h : I done c s)
    (hbody : ∀ x ∈ items, ∀ done c s, I done c s → Wp (body c x) (I (done ++ [x])) E C s) :
    Wp (items.foldlM body c) (I (done ++ items)) E C s := by
  induction items generalizing done c s with
  | nil =>
    rw [List.append_nil]
    exact wp_pure h
  | cons x items ih =>
    rw [List.foldlM_cons]
    apply wp_bind
    refine wp_mono (hbody x List.mem_cons_self done c s h) ?_
    intro c' s' hc'
    rw [show done ++ x :: items = done ++ [x] ++ items by rw [List.append_assoc]; rfl]
    exact ih hc' fun y hy => hbody y (List.mem_cons_of_mem x hy)

/-- A loop over a list keeps an invariant that may speak of the items done. -/
theorem wp_foldlM (h : I [] c s)
    (hbody : ∀ x ∈ items, ∀ done c s, I done c s → Wp (body c x) (I (done ++ [x])) E C s) :
    Wp (items.foldlM body c) (I items) E C s :=
  wp_foldlM_from I h hbody

end Loops

end Rules

end Interruptible

end Lib
