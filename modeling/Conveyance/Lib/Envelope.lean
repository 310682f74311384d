import Mathlib.Data.List.Nodup

/-!
# Secrets under keys of their own

A secret is sealed under a key of its own, and that key under a master key, for a label. The
label is bound to the outer layer only.
-/

namespace Lib

variable {T N C A L : Type*}

/-- One use of a cipher, with the text that came of it. -/
structure Sealing (T N C A : Type*) where
  key : T
  nonce : N
  plaintext : T
  aad : A
  ciphertext : C
deriving DecidableEq

/-- Under the given keys, a submitted text opens to nothing but what was sealed to it. -/
def OpensOnly (decipher : T → N → C → A → Option T) (sealings : List (Sealing T N C A))
    (keys : T → Prop) (submitted : N → C → Prop) : Prop :=
  ∀ key nonce ciphertext aad plaintext, keys key → submitted nonce ciphertext →
    decipher key nonce ciphertext aad = some plaintext →
      ⟨key, nonce, plaintext, aad, ciphertext⟩ ∈ sealings

/-- A secret, its key, and the label that the key is sealed for. -/
structure Envelope (T N L : Type*) where
  label : L
  key : T
  secret : T
  keyNonce : N
  secretNonce : N

namespace Envelope

variable (cipher : T → N → T → A → C) (master : T) (bind : L → A) (inner : A)

/-- The two layers. -/
def sealings (e : Envelope T N L) : List (Sealing T N C A) :=
  [⟨master, e.keyNonce, e.key, bind e.label, cipher master e.keyNonce e.key (bind e.label)⟩,
    ⟨e.key, e.secretNonce, e.secret, inner, cipher e.key e.secretNonce e.secret inner⟩]

variable {cipher master bind inner} {envelopes : List (Envelope T N L)} {use : Sealing T N C A}

theorem outer_of_mem (hinner : ∀ label, bind label ≠ inner) {label : L}
    (h : use ∈ envelopes.flatMap (sealings cipher master bind inner))
    (haad : use.aad = bind label) :
    ∃ e ∈ envelopes, bind e.label = bind label ∧ e.key = use.plaintext := by
  obtain ⟨e, he, huse⟩ := List.mem_flatMap.mp h
  rcases List.mem_cons.mp huse with rfl | huse
  · exact ⟨e, he, haad, rfl⟩
  · rw [List.mem_singleton.mp huse] at haad
    exact absurd haad.symm (hinner label)

theorem inner_of_mem (hinner : ∀ label, bind label ≠ inner)
    (h : use ∈ envelopes.flatMap (sealings cipher master bind inner)) (haad : use.aad = inner) :
    ∃ e ∈ envelopes, e.key = use.key ∧ e.secret = use.plaintext := by
  obtain ⟨e, he, huse⟩ := List.mem_flatMap.mp h
  rcases List.mem_cons.mp huse with rfl | huse
  · exact absurd haad (hinner e.label)
  · rw [List.mem_singleton.mp huse]
    exact ⟨e, he, rfl, rfl⟩

/-- **Two layers bind as one.** The keys differ from each other, the labels are told apart by
the associated data, and so are the layers; then a secret that comes out for a label went in
for it. -/
theorem bound {decipher : T → N → C → A → Option T} {submitted : N → C → Prop}
    (hbind : Function.Injective bind) (hinner : ∀ label, bind label ≠ inner)
    (hfresh : (envelopes.map key).Nodup)
    (hopens : OpensOnly decipher (envelopes.flatMap (sealings cipher master bind inner))
      (fun k => k = master ∨ ∃ e ∈ envelopes, e.key = k) submitted)
    {label : L} {keyNonce secretNonce : N} {wrapped ciphertext : C} {k secret : T}
    (hwrapped : submitted keyNonce wrapped) (hciphertext : submitted secretNonce ciphertext)
    (houter : decipher master keyNonce wrapped (bind label) = some k)
    (hsecret : decipher k secretNonce ciphertext inner = some secret) :
    ∃ e ∈ envelopes, e.label = label ∧ e.secret = secret := by
  have hkey := hopens master keyNonce wrapped (bind label) k (.inl rfl) hwrapped houter
  obtain ⟨e, he, hlabel, hek⟩ := outer_of_mem hinner hkey rfl
  have huse := hopens k secretNonce ciphertext inner secret (.inr ⟨e, he, hek⟩) hciphertext hsecret
  obtain ⟨e', he', hek', hsecret'⟩ := inner_of_mem hinner huse rfl
  -- one key, one envelope
  obtain rfl : e' = e := List.inj_on_of_nodup_map hfresh he' he (hek'.trans hek.symm)
  exact ⟨e', he', hbind hlabel, hsecret'⟩

end Envelope

end Lib
