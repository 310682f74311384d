import Conveyance.Lib.Bytes

/-!
# Scanners

A scanner ends with a value, an error or a panic. Ticks are counted where it says so; they
are for stating what a scan costs.

What it reads is bounded by `Meets`; what it does in front of given octets is `Accepts` or
`Refuses`. Each has a rule for sequencing and one for each of the two loops.
-/

namespace Lib

structure Cursor where
  offset : Nat
  ticks : Nat

/-- A scanner reads a byte string at a cursor, which it leaves in every case. -/
def Scanner (ε α : Type) : Type := Bytes → Cursor → Except (Fault ε) α × Cursor

namespace Scanner

variable {ε α β σ : Type}

instance : Monad (Scanner ε) where
  pure a := fun _ c => (.ok a, c)
  bind s f := fun input c =>
    match s input c with
    | (.ok a, c') => f a input c'
    | (.error e, c') => (.error e, c')

def fail (e : ε) : Scanner ε α := fun _ c => (.error (.err e), c)

def panic : Scanner ε α := fun _ c => (.error .panic, c)

def tick : Scanner ε Unit := fun _ c => (.ok (), { c with ticks := c.ticks + 1 })

def position : Scanner ε Nat := fun _ c => (.ok c.offset, c)

/-- The octet at the cursor is this one. -/
def nextIs (b : UInt8) : Scanner ε Bool := fun input c => (.ok (input[c.offset]? = some b), c)

/-- Step over the octet at the cursor if it is this one. -/
def skipIf (b : UInt8) : Scanner ε Bool := fun input c =>
  if input[c.offset]? = some b then (.ok true, { c with offset := c.offset + 1 })
  else (.ok false, c)

def octet (truncated : ε) : Scanner ε UInt8 := fun input c =>
  match input[c.offset]? with
  | some b => (.ok b, { c with offset := c.offset + 1 })
  | none => (.error (.err truncated), c)

def octets (truncated : ε) (n : Nat) : Scanner ε Bytes := fun input c =>
  if c.offset + n ≤ input.length then
    (.ok ((input.drop c.offset).take n), { c with offset := c.offset + n })
  else (.error (.err truncated), c)

/-- A loop with a fixed number of rounds. -/
def repeated (body : σ → Scanner ε σ) : Nat → σ → Scanner ε σ
  | 0, s => pure s
  | n + 1, s => do
    let s' ← body s
    repeated body n s'

/-- At most `n` rounds of a loop that ends at the octet `stop`. -/
def rounds (stop : UInt8) (body : σ → Scanner ε σ) : Nat → σ → Scanner ε σ
  | 0, _ => panic
  | n + 1, s => do
    let stopped ← skipIf stop
    if stopped then pure s
    else do
      let s' ← body s
      rounds stop body n s'

/-- A loop that ends at the octet `stop`. Its rounds run out only if some round reads nothing. -/
def untilOctet (stop : UInt8) (body : σ → Scanner ε σ) (s : σ) : Scanner ε σ := fun input c =>
  rounds stop body (input.length - c.offset + 1) s input c

/-! ## Reading -/

/-- From `i` to `j` the input reads `bs`. -/
def Reads (input : Bytes) (i : Nat) (bs : Bytes) (j : Nat) : Prop :=
  j = i + bs.length ∧ bs <+: input.drop i

theorem Reads.nil (input : Bytes) (i : Nat) : Reads input i [] i :=
  ⟨rfl, List.nil_prefix⟩

variable {input : Bytes} {i j : Nat} {s : Scanner ε α} {f : α → Scanner ε β} {c c' : Cursor}
  {e : Fault ε}

theorem Reads.append {u v : Bytes} {k : Nat} (h : Reads input i u j) (h' : Reads input j v k) :
    Reads input i (u ++ v) k := by
  obtain ⟨rfl, x, hx⟩ := h
  obtain ⟨rfl, y, hy⟩ := h'
  refine ⟨by rw [List.length_append, Nat.add_assoc], y, ?_⟩
  rw [← List.drop_drop, ← hx, List.drop_left] at hy
  rw [← hx, ← hy, List.append_assoc]

theorem Reads.le_length {bs : Bytes} (h : Reads input i bs j) (hi : i ≤ input.length) :
    j ≤ input.length := by
  have hle := h.2.length_le
  rw [List.length_drop] at hle
  have hj := h.1
  omega

/-- A scanner's outcome, as `Meets` wants it. -/
def Outcome (post : Bytes → α → Prop) (input : Bytes) (c : Cursor) :
    Except (Fault ε) α × Cursor → Prop
  | (.ok a, c') => ∃ bs, Reads input c.offset bs c'.offset ∧ c'.ticks ≤ c.ticks + bs.length ∧
    post bs a
  | (.error (.err _), c') =>
    c.offset ≤ c'.offset ∧ c'.offset ≤ input.length ∧
      c'.ticks + c.offset ≤ c.ticks + c'.offset + 1
  | (.error .panic, _) => False

/-- Wherever `s` starts, it does not panic, it stays inside the input, what it reads on success
satisfies `post`, and it ticks at most once for each octet it reads, plus once if it fails. -/
def Meets (s : Scanner ε α) (post : Bytes → α → Prop) : Prop :=
  ∀ input c, c.offset ≤ input.length → Outcome post input c (s input c)

theorem bind_apply (s : Scanner ε α) (f : α → Scanner ε β) (input : Bytes) (c : Cursor) :
    (s >>= f) input c =
      match s input c with
      | (.ok a, c') => f a input c'
      | (.error e, c') => (.error e, c') := rfl

theorem bind_ok {a : α} (h : s input c = (.ok a, c')) : (s >>= f) input c = f a input c' := by
  rw [bind_apply, h]

theorem bind_error (h : s input c = (.error e, c')) : (s >>= f) input c = (.error e, c') := by
  rw [bind_apply, h]

theorem Outcome.error {post : Bytes → α → Prop} {post' : Bytes → β → Prop}
    (h : Outcome post input c (.error e, c')) : Outcome post' input c (.error e, c') := by
  cases e with
  | err | panic => exact h

section MeetsRules

variable {s : Scanner ε α} {post : Bytes → α → Prop}

variable {post' : Bytes → α → Prop} {input : Bytes} {c : Cursor} {f : α → Scanner ε β}
  {whole : Bytes → β → Prop} {body : σ → Scanner ε σ} {round : σ → Bytes → σ → Prop} {stop : UInt8}

theorem Outcome.imp {out : Except (Fault ε) α × Cursor} (h : Outcome post input c out)
    (himp : ∀ bs a, post bs a → post' bs a) : Outcome post' input c out := by
  obtain ⟨_ | a, c'⟩ := out
  · exact h.error
  · obtain ⟨bs, hreads, hticks, hpost⟩ := h
    exact ⟨bs, hreads, hticks, himp bs a hpost⟩

theorem Meets.imp (h : Meets s post) (himp : ∀ bs a, post bs a → post' bs a) : Meets s post' :=
  fun input c hc => (h input c hc).imp himp

theorem Meets.pure {a : α} (h : post [] a) : Meets (Pure.pure a : Scanner ε α) post :=
  fun _ _ _ => ⟨[], .nil _ _, Nat.le_refl _, h⟩

theorem Meets.fail (e : ε) : Meets (.fail e : Scanner ε α) post :=
  fun _ _ hc => ⟨Nat.le_refl _, hc, Nat.le_succ _⟩

/-- Sequencing at one place: the second scanner starts where the first stopped, and has to make
up what is still missing. -/
theorem Outcome.bind (h : Outcome post input c (s input c))
    (h' : ∀ u a c₁, post u a → Reads input c.offset u c₁.offset →
      Outcome (fun v b => whole (u ++ v) b) input c₁ (f a input c₁)) :
    Outcome whole input c ((s >>= f) input c) := by
  rcases hs : s input c with ⟨e | a, c₁⟩
  · rw [bind_error hs]
    rw [hs] at h
    exact h.error
  · rw [bind_ok hs]
    rw [hs] at h
    obtain ⟨u, hreads, hticks, hpost⟩ := h
    have hlen := hreads.1
    have hout := h' u a c₁ hpost hreads
    rcases hf : f a input c₁ with ⟨e | b, c₂⟩
    · rw [hf] at hout
      cases e with
      | panic => exact hout
      | err e =>
        obtain ⟨hle, hlen', hticks'⟩ := hout
        exact ⟨by omega, hlen', by omega⟩
    · rw [hf] at hout
      obtain ⟨v, hreads', hticks', hwhole⟩ := hout
      refine ⟨u ++ v, hreads.append hreads', ?_, hwhole⟩
      rw [List.length_append]
      omega

/-- What is read in sequence is put together. -/
theorem Meets.bind (h : Meets s post)
    (h' : ∀ u a, post u a → Meets (f a) fun v b => whole (u ++ v) b) : Meets (s >>= f) whole :=
  fun input c hc => (h input c hc).bind fun u a c₁ hpost hreads =>
    h' u a hpost input c₁ (hreads.le_length hc)

theorem Meets.ite {p : Prop} [Decidable p] {s' : Scanner ε α} (h : p → Meets s post)
    (h' : ¬ p → Meets s' post) : Meets (if p then s else s') post := by
  split_ifs with hp
  · exact h hp
  · exact h' hp

theorem Meets.position : Meets (.position : Scanner ε Nat) fun bs _ => bs = [] :=
  fun _ _ _ => ⟨[], .nil _ _, Nat.le_refl _, rfl⟩

theorem Meets.nextIs (b : UInt8) : Meets (.nextIs b : Scanner ε Bool) fun bs _ => bs = [] :=
  fun _ _ _ => ⟨[], .nil _ _, Nat.le_refl _, rfl⟩

theorem reads_octet {b : UInt8} (h : input[i]? = some b) : Reads input i [b] (i + 1) := by
  obtain ⟨hi, hb⟩ := List.getElem?_eq_some_iff.mp h
  refine ⟨rfl, input.drop (i + 1), ?_⟩
  rw [List.drop_eq_getElem_cons hi, hb]
  rfl

theorem Meets.skipIf (b : UInt8) :
    Meets (.skipIf b : Scanner ε Bool) fun bs x => bs = if x then [b] else [] := by
  intro input c hc
  unfold Scanner.skipIf
  split_ifs with hb
  · exact ⟨[b], reads_octet hb, Nat.le_add_right _ _, rfl⟩
  · exact ⟨[], .nil _ _, Nat.le_refl _, rfl⟩

/-- An octet is read, or the input has ended. -/
theorem Meets.octet (truncated : ε) : Meets (.octet truncated) fun bs b => bs = [b] := by
  intro input c hc
  unfold Scanner.octet
  split
  · next b hb => exact ⟨[b], reads_octet hb, Nat.le_add_right _ _, rfl⟩
  · exact ⟨Nat.le_refl _, hc, Nat.le_succ _⟩

/-- A tick is paid for by the octet that follows it. -/
theorem Meets.tick_octet (truncated : ε) :
    Meets (do tick; .octet truncated) fun bs b => bs = [b] := by
  intro input c hc
  rw [bind_ok (show tick input c = (.ok (), ⟨c.offset, c.ticks + 1⟩) from rfl), Scanner.octet]
  split
  · next b hb => exact ⟨[b], reads_octet hb, Nat.le_refl _, rfl⟩
  · exact ⟨Nat.le_refl _, hc, Nat.le_of_eq (Nat.add_right_comm ..)⟩

theorem Meets.tick_fail (e : ε) : Meets (do tick; .fail e : Scanner ε α) post :=
  fun _ _ hc => ⟨Nat.le_refl _, hc, Nat.le_of_eq (Nat.add_right_comm ..)⟩

theorem Meets.octets (truncated : ε) (n : Nat) :
    Meets (.octets truncated n) fun bs x => bs = x ∧ x.length = n := by
  intro input c hc
  unfold Scanner.octets
  split_ifs with hn
  · have hlen : ((input.drop c.offset).take n).length = n := by
      rw [List.length_take, List.length_drop]
      omega
    refine ⟨_, ⟨?_, List.take_prefix _ _⟩, Nat.le_add_right _ _, rfl, hlen⟩
    rw [hlen]
  · exact ⟨Nat.le_refl _, hc, Nat.le_succ _⟩

variable (hbody : ∀ s, Meets (body s) (round s))

include hbody

/-- A counted loop: what holds of no rounds, and is extended by one round in front, holds. -/
theorem Meets.repeated {whole : Nat → σ → Bytes → σ → Prop} (hzero : ∀ s, whole 0 s [] s)
    (hsucc : ∀ n s u s' v s'', round s u s' → whole n s' v s'' → whole (n + 1) s (u ++ v) s'')
    (n : Nat) (s : σ) : Meets (.repeated body n s) (whole n s) := by
  induction n generalizing s with
  | zero => exact .pure (hzero s)
  | succ n ih =>
    exact (hbody s).bind fun u s' hround => (ih s').imp fun v s'' hwhole =>
      hsucc n s u s' v s'' hround hwhole

/-- Enough rounds for what is left of the input: they do not run out, as each reads something. -/
theorem outcome_rounds {whole : σ → Bytes → σ → Prop}
    (hreads : ∀ s u s', round s u s' → u ≠ []) (hstop : ∀ s, whole s [stop] s)
    (hround : ∀ s u s' v s'', round s u s' → whole s' v s'' → whole s (u ++ v) s'') (n : Nat)
    (s : σ) (input : Bytes) (c : Cursor) (hc : c.offset ≤ input.length)
    (hn : input.length - c.offset < n) :
    Outcome (whole s) input c (rounds stop body n s input c) := by
  induction n generalizing s c with
  | zero => omega
  | succ n ih =>
    refine (Meets.skipIf stop input c hc).bind fun u stopped c₁ hu hread => ?_
    have hc₁ := hread.le_length hc
    have hlen := hread.1
    cases stopped with
    | true =>
      obtain rfl : u = [stop] := hu
      exact ⟨[], .nil _ _, Nat.le_refl _, hstop s⟩
    | false =>
      obtain rfl : u = [] := hu
      refine (hbody s input c₁ hc₁).bind fun v s' c₂ hv hread' => ?_
      -- the round read something, so less is left
      have hpos := List.length_pos_of_ne_nil (hreads s v s' hv)
      have hlen' := hread'.1
      have hc₂ := hread'.le_length hc₁
      refine (ih s' c₂ hc₂ (by omega)).imp fun w s'' hw => ?_
      exact hround s v s' w s'' hv hw

theorem Meets.untilOctet {whole : σ → Bytes → σ → Prop}
    (hreads : ∀ s u s', round s u s' → u ≠ []) (hstop : ∀ s, whole s [stop] s)
    (hround : ∀ s u s' v s'', round s u s' → whole s' v s'' → whole s (u ++ v) s'') (s : σ) :
    Meets (.untilOctet stop body s) (whole s) :=
  fun input c hc => outcome_rounds hbody hreads hstop hround _ s input c hc (Nat.lt_succ_self _)

end MeetsRules

/-! ## Accepting and refusing -/

/-- In front of `bs`, in an input below the limit, the scanner reads `bs` and returns `a`. -/
def Accepts (limit : Nat) (s : Scanner ε α) (bs : Bytes) (a : α) : Prop :=
  ∀ input c, input.length < limit → c.offset ≤ input.length → bs <+: input.drop c.offset →
    ∃ t, s input c = (.ok a, ⟨c.offset + bs.length, t⟩)

/-- In front of `bs`, in an input below the limit, the scanner ends with the error `e`. -/
def Refuses (limit : Nat) (s : Scanner ε α) (bs : Bytes) (e : ε) : Prop :=
  ∀ input c, input.length < limit → c.offset ≤ input.length → bs <+: input.drop c.offset →
    ∃ c', s input c = (.error (.err e), c')

section AcceptsRules

variable {limit : Nat} {s : Scanner ε α} {f : α → Scanner ε β} {a : α} {b : β} {u v : Bytes}
  {input : Bytes} {i : Nat} {e : ε}

theorem offset_le_of_prefix_drop (hi : i ≤ input.length) (h : u <+: input.drop i) :
    i + u.length ≤ input.length :=
  Reads.le_length ⟨rfl, h⟩ hi

/-- What comes next at an offset, and what comes behind it. -/
theorem drop_of_append (h : u ++ v <+: input.drop i) :
    u <+: input.drop i ∧ v <+: input.drop (i + u.length) := by
  refine ⟨(List.prefix_append u v).trans h, ?_⟩
  obtain ⟨rest, hrest⟩ := h
  rw [← List.drop_drop, ← hrest, List.append_assoc, List.drop_left]
  exact List.prefix_append v rest

theorem Accepts.pure (a : α) : Accepts limit (Pure.pure a : Scanner ε α) [] a :=
  fun _ c _ _ _ => ⟨c.ticks, rfl⟩

/-- Octets accepted one behind the other. -/
theorem Accepts.bind (h : Accepts limit s u a) (h' : Accepts limit (f a) v b) :
    Accepts limit (s >>= f) (u ++ v) b := by
  intro input c hlimit hc hpre
  obtain ⟨hu, hv⟩ := drop_of_append hpre
  obtain ⟨t, ht⟩ := h input c hlimit hc hu
  obtain ⟨t', ht'⟩ := h' input ⟨c.offset + u.length, t⟩ hlimit (offset_le_of_prefix_drop hc hu) hv
  refine ⟨t', ?_⟩
  rw [bind_ok ht, ht', List.length_append, Nat.add_assoc]

/-- The second step reads nothing. -/
theorem Accepts.bind_nil (h : Accepts limit s u a) (h' : Accepts limit (f a) [] b) :
    Accepts limit (s >>= f) u b := by
  have hbind := h.bind h'
  rwa [List.append_nil] at hbind

theorem Refuses.bind_left (h : Refuses limit s u e) : Refuses limit (s >>= f) u e := by
  intro input c hlimit hc hpre
  obtain ⟨c', hc'⟩ := h input c hlimit hc hpre
  exact ⟨c', bind_error hc'⟩

/-- The error comes behind octets that are accepted. -/
theorem Refuses.bind_right (h : Accepts limit s u a) (h' : Refuses limit (f a) v e) :
    Refuses limit (s >>= f) (u ++ v) e := by
  intro input c hlimit hc hpre
  obtain ⟨hu, hv⟩ := drop_of_append hpre
  obtain ⟨t, ht⟩ := h input c hlimit hc hu
  obtain ⟨c', hc'⟩ := h' input ⟨c.offset + u.length, t⟩ hlimit (offset_le_of_prefix_drop hc hu) hv
  exact ⟨c', by rw [bind_ok ht, hc']⟩

/-- What is refused in front of some octets is refused in front of more. -/
theorem Refuses.append (h : Refuses limit s u e) : Refuses limit s (u ++ v) e :=
  fun input c hlimit hc hpre => h input c hlimit hc ((List.prefix_append u v).trans hpre)

theorem getElem?_of_prefix_drop {x : UInt8} (h : x :: u <+: input.drop i) : input[i]? = some x := by
  obtain ⟨rest, hrest⟩ := h
  have hget := congrArg (fun l => l[0]?) hrest
  simpa using hget.symm

theorem Accepts.octet (truncated : ε) (x : UInt8) : Accepts limit (.octet truncated) [x] x := by
  intro input c _ _ hpre
  refine ⟨c.ticks, ?_⟩
  rw [Scanner.octet, getElem?_of_prefix_drop hpre]
  rfl

theorem Accepts.tick : Accepts limit (.tick : Scanner ε Unit) [] () :=
  fun _ c _ _ _ => ⟨c.ticks + 1, rfl⟩

theorem Accepts.octets (truncated : ε) (bs : Bytes) :
    Accepts limit (.octets truncated bs.length) bs bs := by
  intro input c _ hc hpre
  refine ⟨c.ticks, ?_⟩
  rw [Scanner.octets, if_pos (offset_le_of_prefix_drop hc hpre)]
  obtain ⟨rest, hrest⟩ := hpre
  rw [← hrest, List.take_left]

variable {body : σ → Scanner ε σ} {n : Nat} {s' : σ} {stop : UInt8} {bs : Bytes}

theorem Accepts.repeated_succ {s s'' : σ} (h : Accepts limit (body s) u s')
    (h' : Accepts limit (repeated body n s') v s'') :
    Accepts limit (repeated body (n + 1) s) (u ++ v) s'' :=
  h.bind h'

theorem Refuses.repeated_succ {s : σ} (h : Accepts limit (body s) u s')
    (h' : Refuses limit (repeated body n s') v e) :
    Refuses limit (repeated body (n + 1) s) (u ++ v) e :=
  .bind_right h h'

/-- Octets that begin, and not with this one. -/
def StartsWithout (stop : UInt8) (u : Bytes) : Prop := ∃ x w, u = x :: w ∧ x ≠ stop

theorem StartsWithout.append (h : StartsWithout stop u) : StartsWithout stop (u ++ v) := by
  obtain ⟨x, w, rfl, hx⟩ := h
  exact ⟨x, w ++ v, rfl, hx⟩

theorem StartsWithout.next (h : StartsWithout stop u) (hpre : u <+: input.drop i) :
    input[i]? ≠ some stop := by
  obtain ⟨x, w, rfl, hx⟩ := h
  rw [getElem?_of_prefix_drop hpre]
  exact fun heq => hx (Option.some.inj heq)

/-- Looking for an octet that does not come. -/
theorem Accepts.unless_next (h : Accepts limit s u a) (hu : StartsWithout stop u) :
    Accepts limit (do
      let found ← nextIs stop
      if found then .fail e else s) u a := by
  intro input c hlimit hc hpre
  obtain ⟨t, ht⟩ := h input c hlimit hc hpre
  have hnext : (nextIs stop : Scanner ε Bool) input c = (.ok false, c) := by
    rw [nextIs, decide_eq_false (hu.next hpre)]
  exact ⟨t, by rw [bind_ok hnext]; exact ht⟩

/-- The rounds of a loop, up to the octet that ends it. -/
inductive Rounds (limit : Nat) (stop : UInt8) (body : σ → Scanner ε σ) : σ → Bytes → σ → Prop
  | stop (s : σ) : Rounds limit stop body s [stop] s
  | round {s s' s'' : σ} {u v : Bytes} : Accepts limit (body s) u s' → StartsWithout stop u →
      Rounds limit stop body s' v s'' → Rounds limit stop body s (u ++ v) s''

theorem Rounds.accepts_rounds {s : σ} (h : Rounds limit stop body s bs s') (hn : bs.length ≤ n) :
    Accepts limit (rounds stop body n s) bs s' := by
  induction h generalizing n with
  | stop s =>
    obtain ⟨n, rfl⟩ := Nat.exists_eq_add_of_lt hn
    intro input c hlimit hc hpre
    have hskip : (skipIf stop : Scanner ε Bool) input c =
      (.ok true, { c with offset := c.offset + 1 }) := by
      rw [skipIf, if_pos (getElem?_of_prefix_drop hpre)]
    exact ⟨c.ticks, by rw [rounds, bind_ok hskip]; rfl⟩
  | @round s s' s'' u v hbody hu _ ih =>
    have hpos : 0 < u.length := by
      obtain ⟨x, w, rfl, -⟩ := hu
      exact Nat.succ_pos _
    rw [List.length_append] at hn
    obtain ⟨n, rfl⟩ : ∃ k, n = k + 1 := Nat.exists_eq_succ_of_ne_zero (by omega)
    have hv : v.length ≤ n := by omega
    intro input c hlimit hc hpre
    have hskip : (skipIf stop : Scanner ε Bool) input c = (.ok false, c) := by
      rw [skipIf, if_neg (hu.next (drop_of_append hpre).1)]
    obtain ⟨t, ht⟩ := (hbody.bind (ih hv)) input c hlimit hc hpre
    exact ⟨t, by rw [rounds, bind_ok hskip]; exact ht⟩

/-- The loop goes through its rounds and stops behind the octet. -/
theorem Rounds.accepts {s : σ} (h : Rounds limit stop body s bs s') :
    Accepts limit (untilOctet stop body s) bs s' := by
  intro input c hlimit hc hpre
  have hlen := offset_le_of_prefix_drop hc hpre
  exact h.accepts_rounds (by omega) input c hlimit hc hpre

end AcceptsRules

end Scanner

end Lib
