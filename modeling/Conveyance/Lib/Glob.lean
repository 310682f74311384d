import Mathlib.Data.List.Basic

/-!
# Patterns with a wildcard

Lists over any type, with one element `w` that stands for any sequence.

What a pattern means is `Expands`, and `Literally` is what a simple matcher makes of it.
The other lemmas are the steps of a left-to-right matcher; `Literally.overtake` is why it
only has to come back to the last wildcard.
-/

namespace Lib.Glob

variable {α : Type*} {w c d : α} {ps vs lit tail : List α}

/-- The meaning of a pattern: each wildcard is replaced by some sequence, everything else stands
for itself. -/
inductive Expands (w : α) : List α → List α → Prop where
  | nil : Expands w [] []
  | wildcard {ps vs : List α} (text : List α) : Expands w ps vs → Expands w (w :: ps) (text ++ vs)
  | literal {c : α} {ps vs : List α} : c ≠ w → Expands w ps vs → Expands w (c :: ps) (c :: vs)

/-- The same, but a wildcard that meets `w` itself in the text stands for just that `w`. This is
what a matcher accepts that compares before it looks for wildcards. -/
inductive Literally (w : α) : List α → List α → Prop where
  | nil : Literally w [] []
  | same {c : α} {ps vs : List α} : Literally w ps vs → Literally w (c :: ps) (c :: vs)
  /-- The wildcard is not at a `w`. -/
  | wildcard {ps vs : List α} (text : List α) : (text ++ vs).head? ≠ some w → Literally w ps vs →
      Literally w (w :: ps) (text ++ vs)

/-- `Literally` is the smaller relation. -/
theorem Literally.expands (h : Literally w ps vs) : Expands w ps vs := by
  induction h with
  | nil => exact .nil
  | @same c ps vs _ ih =>
    by_cases hc : c = w
    · subst hc
      exact .wildcard [c] ih
    · exact .literal hc ih
  | wildcard text _ _ ih => exact .wildcard text ih

/-- The two readings agree on texts without the wildcard. -/
theorem Expands.literally (h : Expands w ps vs) (hvs : w ∉ vs) : Literally w ps vs := by
  induction h with
  | nil => exact .nil
  | @wildcard ps vs text _ ih =>
    refine .wildcard text ?_ (ih fun hmem => hvs (List.mem_append_right _ hmem))
    intro hhead
    exact hvs (List.mem_of_mem_head? hhead)
  | @literal c ps vs _ _ ih => exact .same (ih fun hmem => hvs (List.mem_cons_of_mem c hmem))

/-! ## One step of a matcher -/

/-- At the end of the text only wildcards may be left. -/
theorem literally_nil : Literally w ps [] ↔ ∀ c ∈ ps, c = w := by
  constructor
  · intro h
    generalize hvs : ([] : List α) = vs at h
    induction h with
    | nil => exact List.forall_mem_nil _
    | same => cases hvs
    | wildcard text _ _ ih =>
      obtain ⟨-, hnil⟩ := List.append_eq_nil_iff.mp hvs.symm
      exact List.forall_mem_cons.mpr ⟨rfl, ih hnil.symm⟩
  · intro h
    induction ps with
    | nil => exact .nil
    | cons c ps ih =>
      obtain ⟨rfl, hps⟩ := List.forall_mem_cons.mp h
      exact .wildcard [] (by simp) (ih hps)

theorem literally_same : Literally w (c :: ps) (c :: vs) ↔ Literally w ps vs := by
  constructor
  · intro h
    generalize hqs : c :: vs = qs at h
    cases h with
    | same h =>
      obtain ⟨-, rfl⟩ := List.cons.inj hqs
      exact h
    | wildcard text hhead _ =>
      rw [← hqs] at hhead
      exact absurd rfl hhead
  · exact .same

/-- What was compared equal can be taken off both sides. -/
theorem literally_append : Literally w (lit ++ ps) (lit ++ vs) ↔ Literally w ps vs := by
  induction lit with
  | nil => rfl
  | cons c lit ih => exact literally_same.trans ih

theorem literally_wildcard (hd : d ≠ w) :
    Literally w (w :: ps) (d :: vs) ↔ ∃ rest, rest <:+ d :: vs ∧ Literally w ps rest := by
  constructor
  · intro h
    generalize hqs : d :: vs = qs at h
    cases h with
    | same h =>
      obtain ⟨rfl, -⟩ := List.cons.inj hqs
      exact absurd rfl hd
    | wildcard text _ h => exact ⟨_, List.suffix_append _ _, h⟩
  · rintro ⟨rest, ⟨text, htext⟩, h⟩
    rw [← htext]
    refine .wildcard text ?_ h
    rw [htext]
    exact fun hhead => hd (Option.some.inj hhead)

/-- What follows a wildcard matches some later part of the text. -/
theorem Literally.after_wildcard (h : Literally w (w :: ps) vs) :
    ∃ rest, rest <:+ vs ∧ Literally w ps rest := by
  cases h with
  | same h => exact ⟨_, List.suffix_cons _ _, h⟩
  | wildcard text _ h => exact ⟨_, List.suffix_append _ _, h⟩

/-- Neither equal to the next character nor a wildcard. -/
theorem not_literally_cons (hhead : ∀ c ∈ ps.head?, c ≠ d ∧ c ≠ w) :
    ¬ Literally w ps (d :: vs) := by
  intro h
  generalize hqs : d :: vs = qs at h
  cases h with
  | nil => cases hqs
  | @same c ps vs' _ =>
    obtain ⟨rfl, -⟩ := List.cons.inj hqs
    exact (hhead d rfl).1 rfl
  | wildcard text _ _ => exact (hhead w rfl).2 rfl

/-! ## Why the last wildcard is enough -/

/-- The text goes on as `lit ++ tail`, and the pattern as `lit ++ ps`. However the
pattern is laid over a later part of the text, `ps` comes to lie in `tail`: no
layout is ahead of the one that compares `lit` with itself. -/
theorem Literally.overtake {u : List α} (hu : u <:+ lit ++ tail) (h : Literally w (lit ++ ps) u) :
    ∃ rest, rest <:+ tail ∧ Literally w ps rest := by
  induction lit generalizing u with
  | nil => exact ⟨u, hu, h⟩
  | cons c lit ih =>
    generalize hqs : c :: lit ++ ps = qs at h
    cases h with
    | nil => cases hqs
    | @same c' _ vs h =>
      obtain ⟨rfl, rfl⟩ := List.cons.inj hqs
      refine ih ?_ h
      -- the text is compared where `lit` is, or later
      rcases List.suffix_cons_iff.mp hu with heq | hlater
      · rw [(List.cons.inj heq).2]
        exact List.suffix_rfl
      · exact (List.suffix_cons c vs).trans hlater
    | @wildcard _ vs text hhead h =>
      obtain ⟨rfl, rfl⟩ := List.cons.inj hqs
      refine ih ?_ h
      -- where `lit` is the text has a `w`, so the wildcard meets it later
      rcases List.suffix_cons_iff.mp hu with heq | hlater
      · rw [heq] at hhead
        exact absurd rfl hhead
      · exact (List.suffix_append text vs).trans hlater

end Lib.Glob
