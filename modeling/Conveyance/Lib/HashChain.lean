import Mathlib.Data.List.Induction

/-!
# Chains of linked digests

A chain starts at a genesis digest `g` and folds a link function over its
events: each event moves the head to `link head event`. `links g es` lists the
pairs the chain applies `link` to, in order. When `link` is injective on the
pairs two chains use and never returns to the genesis, the final head
determines the whole chain (`final_inj`): the last pairs agree, so the last
events and the heads before them do, and so on back to the start.
-/

namespace Lib.HashChain

variable {H E : Type} (link : H → E → H)

/-- The head after a list of events. -/
def final (g : H) (es : List E) : H := es.foldl link g

/-- The pairs `link` is applied to. -/
def links (g : H) : List E → List (H × E)
  | [] => []
  | e :: es => (g, e) :: links (link g e) es

variable {link}

theorem final_snoc (g : H) (es : List E) (e : E) :
    final link g (es ++ [e]) = link (final link g es) e := by
  simp [final]

theorem links_append (g : H) (es fs : List E) :
    links link g (es ++ fs) = links link g es ++ links link (final link g es) fs := by
  induction es generalizing g with
  | nil => rfl
  | cons x es ih =>
    rw [List.cons_append, links, ih, links]
    rfl

theorem links_snoc (g : H) (es : List E) (e : E) :
    links link g (es ++ [e]) = links link g es ++ [(final link g es, e)] :=
  links_append g es [e]

/-- `link` has no collision among `ps` and never leads to `g` from them. -/
structure Injective (link : H → E → H) (g : H) (ps : List (H × E)) : Prop where
  inj : ∀ p ∈ ps, ∀ q ∈ ps, link p.1 p.2 = link q.1 q.2 → p = q
  genesis : ∀ p ∈ ps, link p.1 p.2 ≠ g

theorem Injective.mono {g : H} {ps qs : List (H × E)} (h : Injective link g qs)
    (hsub : ∀ p ∈ ps, p ∈ qs) : Injective link g ps :=
  ⟨fun p hp q hq => h.inj p (hsub p hp) q (hsub q hq), fun p hp => h.genesis p (hsub p hp)⟩

/-- **The final head determines the chain.** -/
theorem final_inj {g : H} {es fs : List E}
    (h : Injective link g (links link g es ++ links link g fs))
    (hfinal : final link g es = final link g fs) : es = fs := by
  -- peel both chains from their newest event
  induction es using List.reverseRecOn generalizing fs with
  | nil =>
    induction fs using List.reverseRecOn with
    | nil => rfl
    | append_singleton fs f _ =>
      rw [final_snoc] at hfinal
      exact absurd hfinal.symm (h.genesis (final link g fs, f) (by simp [links_snoc]))
  | append_singleton es e ih =>
    induction fs using List.reverseRecOn with
    | nil =>
      rw [final_snoc] at hfinal
      exact absurd hfinal (h.genesis (final link g es, e) (by simp [links_snoc]))
    | append_singleton fs f _ =>
      rw [final_snoc, final_snoc] at hfinal
      have hpair := h.inj (final link g es, e) (by simp [links_snoc])
        (final link g fs, f) (by simp [links_snoc]) hfinal
      obtain ⟨hhead, rfl⟩ := Prod.mk.inj hpair
      have hsub : ∀ p ∈ links link g es ++ links link g fs,
          p ∈ links link g (es ++ [e]) ++ links link g (fs ++ [e]) := by
        intro p hp
        rw [links_snoc, links_snoc]
        rcases List.mem_append.mp hp with hp | hp
        · exact List.mem_append_left _ (List.mem_append_left _ hp)
        · exact List.mem_append_right _ (List.mem_append_left _ hp)
      rw [ih (h.mono hsub) hhead]

/-- So the chain never comes back to a head it had. -/
theorem final_ne_of_longer {g : H} {es fs : List E} (hne : fs ≠ [])
    (h : Injective link g (links link g (es ++ fs))) :
    final link g es ≠ final link g (es ++ fs) := by
  intro heq
  have hsub : ∀ p ∈ links link g es ++ links link g (es ++ fs),
      p ∈ links link g (es ++ fs) := by
    intro p hp
    rcases List.mem_append.mp hp with hp | hp
    · rw [links_append]
      exact List.mem_append_left _ hp
    · exact hp
  exact hne (List.self_eq_append_right.mp (final_inj (h.mono hsub) heq))

end Lib.HashChain
