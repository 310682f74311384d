import Mathlib.Order.Lattice

/-!
# Calls that take time

The end of a call that is awaited, and its result; a call may also never end. The clock is
handed on: what follows a call starts when it is over.
-/

namespace Lib

variable {ε α β γ : Type*}

/-- When a call is over, and what came of it; `none` if it never is. -/
def Awaited (ε α : Type*) := Option (Nat × Except ε α)

namespace Awaited

/-- A result that is there. -/
def done (now : Nat) (a : α) : Awaited ε α := some (now, .ok a)

def failed (now : Nat) (e : ε) : Awaited ε α := some (now, .error e)

def never : Awaited ε α := none

/-- A call, and what is done with its value. -/
def andThen (x : Awaited ε α) (f : α → Nat → Awaited ε β) : Awaited ε β :=
  match x with
  | none => never
  | some (now, .error e) => failed now e
  | some (now, .ok a) => f a now

@[simp] theorem done_andThen (now : Nat) (a : α) (f : α → Nat → Awaited ε β) :
    (done now a).andThen f = f a now := rfl

/-- Never, failed or done. -/
theorem cases (x : Awaited ε α) :
    x = never ∨ (∃ now e, x = failed now e) ∨ ∃ now a, x = done now a := by
  rcases x with _ | ⟨now, e | a⟩
  · exact .inl rfl
  · exact .inr (.inl ⟨now, e, rfl⟩)
  · exact .inr (.inr ⟨now, a, rfl⟩)

theorem andThen_assoc (x : Awaited ε α) (f : α → Nat → Awaited ε β) (g : β → Nat → Awaited ε γ) :
    (x.andThen f).andThen g = x.andThen fun a now => (f a now).andThen g := by
  rcases x.cases with rfl | ⟨now, e, rfl⟩ | ⟨now, a, rfl⟩ <;> rfl

/-! ## Limits -/

/-- The call ends by the limit. -/
def EndsBy (limit : Nat) (x : Awaited ε α) : Prop :=
  ∃ now result, x = some (now, result) ∧ now ≤ limit

variable {limit now : Nat} {x : Awaited ε α} {f : α → Nat → Awaited ε β}

theorem endsBy_some {result : Except ε α} :
    EndsBy limit (some (now, result) : Awaited ε α) ↔ now ≤ limit := by
  constructor
  · rintro ⟨_, _, heq, hle⟩
    obtain ⟨rfl, -⟩ := Prod.mk.inj (Option.some.inj heq)
    exact hle
  · exact fun hle => ⟨now, _, rfl, hle⟩

@[simp] theorem endsBy_failed {e : ε} : EndsBy limit (failed now e : Awaited ε α) ↔ now ≤ limit :=
  endsBy_some

@[simp] theorem not_endsBy_never : ¬EndsBy limit (never : Awaited ε α) := by
  rintro ⟨_, _, heq, -⟩
  cases heq

/-- What takes no time of its own changes nothing about the limit. -/
theorem endsBy_andThen_iff (h : ∀ a now, ∃ result, f a now = some (now, result)) :
    EndsBy limit (x.andThen f) ↔ EndsBy limit x := by
  rcases x.cases with rfl | ⟨now, e, rfl⟩ | ⟨now, a, rfl⟩
  · exact iff_of_false not_endsBy_never not_endsBy_never
  · exact endsBy_failed.trans endsBy_failed.symm
  · obtain ⟨result, hresult⟩ := h a now
    rw [done_andThen, hresult]
    exact endsBy_some.trans endsBy_some.symm

end Awaited

end Lib
