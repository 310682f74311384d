import Conveyance.Lib.Bytes

/-!
# Readers that call back

A deserializer hands parts of its input to visitors and goes on with what they make of
them. `Reading` is what such a reader does with one input: it is done, or it puts a
question and continues with the answer. The reader itself does not panic; its visitors
may, and an error of theirs is the reader's.

- `Reading.run`: the reading, with its visitors.
- `Reading.Asks visit P`: every question that comes up meets `P`.
- `Reading.run_panic`: a reading panics exactly if one of its questions does.
-/

namespace Lib

/-- What a reader does with one input. -/
inductive Reading (Q : Type) (A : Q → Type) (ε α : Type) where
  | done (result : Except ε α)
  | ask (q : Q) (next : A q → Reading Q A ε α)

namespace Reading

variable {Q : Type} {A : Q → Type} {ε α : Type} (visit : (q : Q) → Except (Fault ε) (A q))

def run : Reading Q A ε α → Except (Fault ε) α
  | done result => result.mapError .err
  | ask q next =>
    match visit q with
    | .error e => .error e
    | .ok a => (next a).run

/-- Every question that comes up meets the condition. -/
def Asks (P : Q → Prop) : Reading Q A ε α → Prop
  | done _ => True
  | ask q next => P q ∧ ∀ a, visit q = .ok a → (next a).Asks P

variable {visit}

theorem Asks.mono {P P' : Q → Prop} (hP : ∀ q, P q → P' q) {r : Reading Q A ε α}
    (h : r.Asks visit P) : r.Asks visit P' := by
  induction r with
  | done result => trivial
  | ask q next ih => exact ⟨hP q h.1, fun a ha => ih a (h.2 a ha)⟩

/-- **A reading panics exactly if one of its visitors does.** -/
theorem run_panic {r : Reading Q A ε α} :
    r.run visit ≠ .error .panic ↔ r.Asks visit fun q => visit q ≠ .error .panic := by
  induction r with
  | done result =>
    cases result with
    | error | ok => exact ⟨fun _ => trivial, fun _ h => by cases h⟩
  | ask q next ih =>
    cases hvisit : visit q with
    | error e =>
      have hsame : (ask q next : Reading Q A ε α).run visit = .error e := by rw [run, hvisit]
      rw [hsame, Asks, hvisit]
      constructor
      · intro h
        refine ⟨fun hpanic => h (congrArg Except.error (Except.error.inj hpanic)), ?_⟩
        intro a ha
        cases ha
      · exact fun h hpanic => h.1 (congrArg Except.error (Except.error.inj hpanic))
    | ok a =>
      have hnext : (ask q next : Reading Q A ε α).run visit = (next a).run visit := by
        rw [run, hvisit]
      rw [hnext, ih a, Asks, hvisit]
      constructor
      · intro h
        refine ⟨fun hpanic => ?_, fun b hb => ?_⟩
        · cases hpanic
        · cases hb
          exact h
      · exact fun h => h.2 a rfl

end Reading

end Lib
