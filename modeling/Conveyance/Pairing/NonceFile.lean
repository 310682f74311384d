import Conveyance.Lib.CborGrammar
import Conveyance.Pairing.Ceremony

/-!
# The replay gate across restarts (conveyance-core, pairing/nonce.rs)

The gate keeps its nonces in one bloom filter and writes the filter to a file after every
nonce. The filter has an age of its own: once it is past its retention all of it is
replaced, by the next nonce or by the next process that opens the file. The file has the
filter's creation in whole seconds, so a filter that was reopened is up to a second older.

The bloom filter is a parameter. A nonce that was put in is found, in the filter and in
what is read back of it (`SavedBloom.Lawful`); that it is not found for the sake of another
is said where it is needed (`SavedBloom.Exact`).
-/

namespace Conveyance.Pairing

open Lib NonceGuard

/-- A bloom filter that can be saved. -/
structure SavedBloom extends Bloom where
  asSlice : Filter → Bytes
  fromSlice : Bytes → Option Filter

/-- What the filter's crate promises. -/
structure SavedBloom.Lawful (bloom : SavedBloom) : Prop where
  found : ∀ filter nonce, bloom.check (bloom.set filter nonce) nonce = true
  kept : ∀ filter nonce other, bloom.check filter nonce = true →
    bloom.check (bloom.set filter other) nonce = true
  read : ∀ filter, bloom.fromSlice (bloom.asSlice filter) = some filter
  bits : ∀ filter, bloom.asSlice filter ≠ []

/-- The filter has no false positive at this nonce. -/
structure SavedBloom.Exact (bloom : SavedBloom) (nonce : Octets 32) : Prop where
  fresh : bloom.check bloom.fresh nonce = false
  other : ∀ filter other, other ≠ nonce →
    bloom.check (bloom.set filter other) nonce = bloom.check filter nonce

def nonceMagic : Bytes := [0x43, 0x56, 0x59, 0x4e, 0x4f, 0x4e, 0x43, 0x31]

def nonceSeed : Bytes := List.replicate 32 0x5A

/-- A second, in nanoseconds. -/
def second : Nat := 1000000000

/-- The first instant that is no `SystemTime`. -/
def endOfTime : Nat := 2 ^ 63 * second

/-- An instant as the file has it. -/
def wholeSeconds (instant : Nat) : Nat := instant / second * second

namespace NonceGuard

variable {bloom : SavedBloom}

/-- What `flush` writes. -/
def blob (self : NonceGuard bloom.toBloom) : Bytes :=
  nonceMagic ++ Cbor.bigEndian 8 (self.createdAt / second) ++ nonceSeed ++
    bloom.asSlice self.filter

/-- `i64::from_be_bytes`, and what is before the epoch taken for the epoch. -/
def createdSeconds (octets : Bytes) : Nat :=
  (UInt64.ofNat (Cbor.ofBigEndian octets)).toInt64.toInt.toNat

def tryLoad (bloom : SavedBloom) (file : Option Bytes) (now : Nat) :
    Option (NonceGuard bloom.toBloom) := do
  let blob ← file
  if blob.length < 8 + 8 + 32 + 1 ∨ blob.take 8 ≠ nonceMagic then none
  else
    let created := createdSeconds ((blob.drop 8).take 8) * second
    if retention < now - created then none
    else if (blob.drop 16).take 32 ≠ nonceSeed then none
    else
      let filter ← bloom.fromSlice (blob.drop 48)
      return ⟨filter, created⟩

/-- `open`: a file that cannot be used is no reason to fail. -/
def openFile (bloom : SavedBloom) (file : Option Bytes) (now : Nat) : NonceGuard bloom.toBloom :=
  (tryLoad bloom file now).getD ⟨bloom.fresh, now⟩

end NonceGuard

/-! ## The gate -/

/-- The process's gate, and the file. -/
structure Gate (bloom : SavedBloom) where
  guard : NonceGuard bloom.toBloom
  file : Option Bytes

inductive GateEvent where
  | record (now : Nat) (nonce : Octets 32)
  | restart (now : Nat)

namespace GateEvent

def time : GateEvent → Nat
  | .record now _ => now
  | .restart now => now

def isRestart : GateEvent → Bool
  | .record _ _ => false
  | .restart _ => true

end GateEvent

namespace Gate

variable {bloom : SavedBloom} {g : Gate bloom} {nonce : Octets 32} {now : Nat}

/-- The first process. -/
def start (bloom : SavedBloom) (file : Option Bytes) (now : Nat) : Gate bloom :=
  ⟨.openFile bloom file now, file⟩

/-- `record_and_check` with its flush, which succeeds; and a new process. -/
def step (g : Gate bloom) : GateEvent → Gate bloom × Option Bool
  | .record now nonce =>
    let r := g.guard.recordAndCheck now nonce
    (⟨r.2, some r.2.blob⟩, some r.1)
  | .restart now => (⟨.openFile bloom g.file now, g.file⟩, none)

def run (g : Gate bloom) (events : List GateEvent) : Gate bloom :=
  events.foldl (fun g event => (g.step event).1) g

end Gate

/-- A clock that does not go back. -/
def Ticks (now : Nat) : List GateEvent → Prop
  | [] => True
  | event :: events => now ≤ event.time ∧ event.time < endOfTime ∧ Ticks event.time events

instance decidableTicks : ∀ now events, Decidable (Ticks now events)
  | _, [] => .isTrue trivial
  | now, event :: events =>
    have := decidableTicks event.time events
    inferInstanceAs (Decidable (now ≤ event.time ∧ event.time < endOfTime ∧
      Ticks event.time events))

theorem ticks_append {now : Nat} {events more : List GateEvent} (h : Ticks now (events ++ more)) :
    Ticks now events ∧ ∃ later, now ≤ later ∧ (∀ event ∈ events, event.time ≤ later) ∧
      Ticks later more := by
  induction events generalizing now with
  | nil => exact ⟨trivial, now, Nat.le_refl _, by simp, h⟩
  | cons event events ih =>
    obtain ⟨hnow, htime, hrest⟩ := h
    obtain ⟨hevents, later, hlater, hall, hmore⟩ := ih hrest
    exact ⟨⟨hnow, htime, hevents⟩, later, Nat.le_trans hnow hlater,
      List.forall_mem_cons.mpr ⟨hlater, hall⟩, hmore⟩

/-! ## Reading back -/

section Reading

variable {bloom : SavedBloom} {filter : bloom.Filter} {created now : Nat}

theorem createdSeconds_bigEndian {n : Nat} (h : n < 2 ^ 63) :
    createdSeconds (Cbor.bigEndian 8 n) = n := by
  have hword : (UInt64.ofNat n).toInt64 = Int64.ofNat n := rfl
  unfold createdSeconds
  rw [Cbor.ofBigEndian_bigEndian, Nat.mod_eq_of_lt (by omega), hword, Int64.toInt_ofNat_of_lt h,
    Int.toNat_natCast]

/-- The four parts of a file, cut out again. -/
theorem blob_parts (self : NonceGuard bloom.toBloom) :
    self.blob.take 8 = nonceMagic ∧
      (self.blob.drop 8).take 8 = Cbor.bigEndian 8 (self.createdAt / second) ∧
      (self.blob.drop 16).take 32 = nonceSeed ∧ self.blob.drop 48 = bloom.asSlice self.filter := by
  have htime := Cbor.bigEndian_length 8 (self.createdAt / second)
  unfold blob
  generalize Cbor.bigEndian 8 (self.createdAt / second) = time at *
  have hmagic : nonceMagic.length = 8 := rfl
  have hseed : nonceSeed.length = 32 := rfl
  have hone : (nonceMagic ++ time).length = 16 := by rw [List.length_append, hmagic, htime]
  have htwo : (nonceMagic ++ time ++ nonceSeed).length = 48 := by
    rw [List.length_append, hone, hseed]
  refine ⟨?_, ?_, ?_, ?_⟩
  · rw [List.append_assoc, List.append_assoc, ← hmagic, List.take_left]
  · rw [List.append_assoc, List.append_assoc]
    nth_rewrite 2 [← hmagic]
    rw [List.drop_left, ← htime, List.take_left]
  · rw [List.append_assoc, ← hone, List.drop_left, ← hseed, List.take_left]
  · rw [← htwo, List.drop_left]

/-- A file is read back unless it is too old, with its creation in whole seconds. -/
theorem tryLoad_blob (hbloom : bloom.Lawful) (hcreated : created < endOfTime) :
    tryLoad bloom (some (blob ⟨filter, created⟩)) now =
      if retention < now - wholeSeconds created then none
      else some ⟨filter, wholeSeconds created⟩ := by
  obtain ⟨hmagic, htime, hseed, hfilter⟩ := blob_parts ⟨filter, created⟩
  have hseconds : created / second < 2 ^ 63 := by
    rw [Nat.div_lt_iff_lt_mul (by decide)]
    exact hcreated
  have hlong : ¬ (blob ⟨filter, created⟩).length < 8 + 8 + 32 + 1 := by
    have hbits := List.length_pos_iff.mpr (hbloom.bits filter)
    rw [← hfilter, List.length_drop] at hbits
    omega
  show (if _ ∨ _ then none else _) = _
  rw [if_neg (not_or.mpr ⟨hlong, not_not_intro hmagic⟩), htime, createdSeconds_bigEndian hseconds,
    if_neg (not_not_intro hseed), hfilter, hbloom.read]
  rfl

theorem wholeSeconds_le (instant : Nat) : wholeSeconds instant ≤ instant :=
  Nat.div_mul_le_self instant second

theorem wholeSeconds_mono {a b : Nat} (h : a ≤ b) : wholeSeconds a ≤ wholeSeconds b :=
  Nat.mul_le_mul_right _ (Nat.div_le_div_right h)

theorem wholeSeconds_wholeSeconds (instant : Nat) :
    wholeSeconds (wholeSeconds instant) = wholeSeconds instant := by
  unfold wholeSeconds
  rw [Nat.mul_div_cancel _ (by decide)]

/-- Only the seconds of the creation are written. -/
theorem blob_wholeSeconds (filter : bloom.Filter) (created : Nat) :
    blob (⟨filter, wholeSeconds created⟩ : NonceGuard bloom.toBloom) =
      blob (⟨filter, created⟩ : NonceGuard bloom.toBloom) := by
  unfold blob wholeSeconds
  rw [Nat.mul_div_cancel _ (by decide)]

end Reading

/-! ## A recorded nonce -/

section Recorded

variable {bloom : SavedBloom} {g : Gate bloom} {nonce : Octets 32} {now : Nat}

/-- The nonce is in the filter, and in the file if a filter of this age is in it. -/
structure Gate.Keeps (g : Gate bloom) (nonce : Octets 32) : Prop where
  held : bloom.check g.guard.filter nonce = true
  saved : ∃ filter, bloom.check filter nonce = true ∧
    g.file = some (⟨filter, g.guard.createdAt⟩ : NonceGuard bloom.toBloom).blob
  created : g.guard.createdAt < endOfTime

theorem recordAndCheck_of_young (h : now ≤ g.guard.createdAt + retention) (nonce : Octets 32) :
    g.guard.recordAndCheck now nonce =
      (bloom.check g.guard.filter nonce, ⟨bloom.set g.guard.filter nonce, g.guard.createdAt⟩) := by
  unfold recordAndCheck maybeRotate
  rw [if_neg (by omega)]

/-- Recording keeps the creation of a filter that is not too old. -/
theorem Gate.Keeps.record (h : g.Keeps nonce) (hbloom : bloom.Lawful)
    (hage : now ≤ g.guard.createdAt + retention) (other : Octets 32) :
    (g.step (.record now other)).1.Keeps nonce ∧
      (g.step (.record now other)).1.guard.createdAt = g.guard.createdAt := by
  have hkept := hbloom.kept g.guard.filter nonce other h.held
  unfold Gate.step
  dsimp only
  rw [recordAndCheck_of_young hage]
  exact ⟨⟨hkept, ⟨_, hkept, rfl⟩, h.created⟩, rfl⟩

theorem Gate.Keeps.restart (h : g.Keeps nonce) (hbloom : bloom.Lawful)
    (hage : now ≤ wholeSeconds g.guard.createdAt + retention) :
    (g.step (.restart now)).1.Keeps nonce ∧
      (g.step (.restart now)).1.guard.createdAt = wholeSeconds g.guard.createdAt := by
  obtain ⟨filter, hchecked, hfile⟩ := h.saved
  have hopen : openFile bloom g.file now =
      ⟨filter, wholeSeconds g.guard.createdAt⟩ := by
    rw [openFile, hfile, tryLoad_blob hbloom h.created, if_neg (by omega)]
    rfl
  unfold Gate.step
  dsimp only
  rw [hopen]
  refine ⟨⟨hchecked, ⟨filter, hchecked, ?_⟩, ?_⟩, rfl⟩
  · rw [hfile, blob_wholeSeconds]
  · exact Nat.lt_of_le_of_lt (wholeSeconds_le _) h.created

/-- The creation that counts: a restart takes it to whole seconds. -/
def agedFrom (created : Nat) (events : List GateEvent) : Nat :=
  if events.any GateEvent.isRestart then wholeSeconds created else created

theorem agedFrom_le (created : Nat) (events : List GateEvent) :
    agedFrom created events ≤ created := by
  unfold agedFrom
  split
  · exact wholeSeconds_le created
  · exact Nat.le_refl _

theorem agedFrom_restart (created now : Nat) (events : List GateEvent) :
    agedFrom created (.restart now :: events) = agedFrom (wholeSeconds created) events := by
  unfold agedFrom
  rw [wholeSeconds_wholeSeconds, ite_self]
  rfl

theorem Gate.Keeps.run {events : List GateEvent} (h : g.Keeps nonce) (hbloom : bloom.Lawful)
    (hage : ∀ event ∈ events, event.time ≤ agedFrom g.guard.createdAt events + retention) :
    (g.run events).Keeps nonce ∧
      (g.run events).guard.createdAt = agedFrom g.guard.createdAt events := by
  induction events generalizing g with
  | nil => exact ⟨h, rfl⟩
  | cons event events ih =>
    obtain ⟨hfirst, hrest⟩ := List.forall_mem_cons.mp hage
    cases event with
    | record now other =>
      -- an event that is no restart leaves the creation as it is
      have hsame : agedFrom g.guard.createdAt (.record now other :: events) =
          agedFrom g.guard.createdAt events := rfl
      have hyoung : now ≤ g.guard.createdAt + retention :=
        Nat.le_trans hfirst (Nat.add_le_add_right (agedFrom_le _ _) _)
      obtain ⟨hkeeps, hcreated⟩ := h.record hbloom hyoung other
      have hrun := ih hkeeps (by rw [hcreated, ← hsame]; exact hrest)
      rw [hcreated] at hrun
      exact hrun
    | restart now =>
      rw [agedFrom_restart] at hfirst hrest ⊢
      obtain ⟨hkeeps, hcreated⟩ := h.restart hbloom
        (Nat.le_trans hfirst (Nat.add_le_add_right (agedFrom_le _ _) _))
      have hrun := ih hkeeps (by rw [hcreated]; exact hrest)
      rw [hcreated] at hrun
      exact hrun

/-! ### Any run -/

theorem openFile_created (bloom : SavedBloom) (file : Option Bytes) (h : now < endOfTime) :
    (openFile bloom file now).createdAt < endOfTime := by
  unfold openFile
  cases hload : tryLoad bloom file now with
  | none => exact h
  | some guard =>
    obtain ⟨blob, hblob, hload⟩ := Option.bind_eq_some_iff.mp hload
    dsimp only at hload
    split_ifs at hload
    obtain ⟨filter, hfilter, hguard⟩ := Option.bind_eq_some_iff.mp hload
    cases hguard
    have hseconds : createdSeconds ((blob.drop 8).take 8) < 2 ^ 63 := by
      have hlt := Int64.toInt_lt (UInt64.ofNat (Cbor.ofBigEndian ((blob.drop 8).take 8))).toInt64
      unfold createdSeconds
      omega
    exact Nat.mul_lt_mul_of_pos_right hseconds (by decide)

theorem recordAndCheck_created (h : g.guard.createdAt < endOfTime) (hnow : now < endOfTime)
    (nonce : Octets 32) : (g.guard.recordAndCheck now nonce).2.createdAt < endOfTime := by
  show (g.guard.maybeRotate now).createdAt < endOfTime
  unfold maybeRotate
  split
  · exact hnow
  · exact h

theorem run_created {events : List GateEvent} (h : g.guard.createdAt < endOfTime)
    (hticks : Ticks now events) : (g.run events).guard.createdAt < endOfTime := by
  induction events generalizing g now with
  | nil => exact h
  | cons event events ih =>
    obtain ⟨-, htime, hrest⟩ := hticks
    refine ih ?_ hrest
    cases event with
    | record now nonce => exact recordAndCheck_created h htime nonce
    | restart now => exact openFile_created bloom g.file htime

/-- A nonce is in filter and file as soon as it is recorded. -/
theorem Gate.keeps_recorded (hbloom : bloom.Lawful) (h : g.guard.createdAt < endOfTime)
    (hnow : now < endOfTime) (nonce : Octets 32) : (g.step (.record now nonce)).1.Keeps nonce := by
  have hfound := hbloom.found (g.guard.maybeRotate now).filter nonce
  exact ⟨hfound, ⟨_, hfound, rfl⟩, recordAndCheck_created h hnow nonce⟩

/-! ### A nonce that is not recorded again -/

/-- A filter with the nonce is not younger than `created`, nor is one that the file gives. -/
structure Gate.Dated (g : Gate bloom) (nonce : Octets 32) (created : Nat) : Prop where
  held : bloom.check g.guard.filter nonce = true → g.guard.createdAt ≤ created
  saved : ∀ now, bloom.check (openFile bloom g.file now).filter nonce = true →
    (openFile bloom g.file now).createdAt ≤ wholeSeconds created

variable {created : Nat}

/-- A guard that was written to the file. -/
theorem Gate.dated_flushed {guard : NonceGuard bloom.toBloom} (hbloom : bloom.Lawful)
    (hexact : bloom.Exact nonce)
    (h : bloom.check guard.filter nonce = true → guard.createdAt ≤ created)
    (hguard : guard.createdAt < endOfTime) :
    Gate.Dated ⟨guard, some guard.blob⟩ nonce created where
  held := h
  saved now hsaved := by
    have hload : tryLoad bloom (some guard.blob) now = _ := tryLoad_blob hbloom hguard
    unfold openFile at hsaved ⊢
    rw [hload] at hsaved ⊢
    split_ifs at hsaved ⊢
    · -- too old, so the filter is a fresh one
      cases hexact.fresh.symm.trans hsaved
    · exact wholeSeconds_mono (h hsaved)

/-- Past the retention of what has it, a nonce is not found, and a fresh filter takes over. -/
theorem maybeRotate_dated (h : g.Dated nonce created) (hexact : bloom.Exact nonce)
    (hcheck : bloom.check (g.guard.maybeRotate now).filter nonce = true) :
    (g.guard.maybeRotate now).createdAt ≤ created ∧ now ≤ created + retention := by
  unfold maybeRotate at hcheck ⊢
  split_ifs at hcheck ⊢ with hold
  · cases hexact.fresh.symm.trans hcheck
  · exact ⟨h.held hcheck, by have := h.held hcheck; omega⟩

theorem Gate.Dated.run {events : List GateEvent} (h : g.Dated nonce created)
    (hbloom : bloom.Lawful) (hexact : bloom.Exact nonce) (hguard : g.guard.createdAt < endOfTime)
    (hticks : Ticks now events) (hother : ∀ time, .record time nonce ∉ events) :
    (g.run events).Dated nonce (agedFrom created events) := by
  induction events generalizing g created now with
  | nil => exact h
  | cons event events ih =>
    obtain ⟨-, htime, hrest⟩ := hticks
    have hmore : ∀ time, .record time nonce ∉ events := fun time hmem =>
      hother time (List.mem_cons_of_mem _ hmem)
    cases event with
    | record time other =>
      have hne : other ≠ nonce := fun heq => hother time (heq ▸ List.mem_cons_self)
      have hnext := recordAndCheck_created hguard htime other
      refine ih (Gate.dated_flushed hbloom hexact (fun hcheck => ?_) hnext) hnext hrest hmore
      have hkept : bloom.check (g.guard.maybeRotate time).filter nonce = true :=
        (hexact.other _ other hne).symm.trans hcheck
      exact (maybeRotate_dated h hexact hkept).1
    | restart time =>
      rw [agedFrom_restart]
      have hnext : (g.step (.restart time)).1.Dated nonce (wholeSeconds created) :=
        ⟨h.saved time, fun now hsaved => by
          rw [wholeSeconds_wholeSeconds]
          exact h.saved now hsaved⟩
      exact ih hnext (openFile_created bloom g.file htime) hrest hmore

end Recorded

/-- What the gate answers to the last check of a run. -/
def lastAnswer (bloom : SavedBloom) (file : Option Bytes) (started : Nat)
    (events : List GateEvent) (now : Nat) (nonce : Octets 32) : Option Bool :=
  (((Gate.start bloom file started).run events).step (.record now nonce)).2

/-- A nonce that was recorded is rejected for the retention period. -/
def Retained (bloom : SavedBloom) (file : Option Bytes) (started : Nat)
    (before between : List GateEvent) (recorded now : Nat) (nonce : Octets 32) : Prop :=
  Ticks started (before ++ .record recorded nonce :: (between ++ [.record now nonce])) →
    recorded ≤ now → now ≤ recorded + retention →
    lastAnswer bloom file started (before ++ .record recorded nonce :: between) now nonce =
      some true

/-- A filter of a single bit, for the nonce of sevens; every other nonce is found. -/
def bitBloom : SavedBloom where
  Filter := Bool
  fresh := false
  check filter nonce := filter || nonce ≠ Octets.replicate 32 7
  set filter nonce := filter || nonce = Octets.replicate 32 7
  asSlice filter := [if filter then 1 else 0]
  fromSlice bytes := some (bytes = [1])

theorem bitBloom_lawful : bitBloom.Lawful where
  found filter nonce := by
    by_cases h : nonce = Octets.replicate 32 7 <;> cases filter <;> simp [bitBloom, h]
  kept filter nonce other h := by
    cases filter with
    | false => simp_all [bitBloom]
    | true => rfl
  read filter := by cases filter <;> rfl
  bits _ := List.cons_ne_nil _ _

theorem bitBloom_exact : bitBloom.Exact (Octets.replicate 32 7) where
  fresh := by decide
  other filter other h := by simp [bitBloom, h]

end Conveyance.Pairing
