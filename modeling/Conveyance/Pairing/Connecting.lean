import Conveyance.Pairing.Acceptance

/-!
# Connecting within the QR window (conveyance-core, pairing/ceremony.rs, transport/ble.rs)

The loop of CONNECTING drops an attempt that is not through after one tick and starts the
next one from the beginning. If every attempt would come through on its own, the loop
gets a link exactly if one of them does so within the tick it is given
(`connectLoop_connects`).

The BLE transport sleeps for one sweep before it first looks at what it has found, and a
sweep is as long as the tick. Whatever connecting costs on top of it is too much
(`ble_pairing_expires`).
-/

namespace Conveyance.Pairing

open Lib Crypto Protocol Wire Storage

/-! ## The BLE transport -/

/-- A step of the radio: how long it takes and what comes of it. -/
abbrev Timed (α : Type) := Nat × Except Core.TransportError α

def Timed.andThen {α β : Type} (x : Timed α) (next : α → Timed β) : Timed β :=
  match x.2 with
  | .error e => (x.1, .error e)
  | .ok a => (x.1 + (next a).1, (next a).2)

theorem Timed.andThen_ok {α β : Type} {x : Timed α} {next : α → Timed β} {t : Nat} {b : β}
    (h : x.andThen next = (t, .ok b)) :
    ∃ a t', x.2 = .ok a ∧ next a = (t', .ok b) ∧ t = x.1 + t' := by
  unfold Timed.andThen at h
  split at h
  · simp at h
  next a hx =>
    rw [Prod.mk.injEq] at h
    exact ⟨a, (next a).1, hx, Prod.ext rfl h.2, h.1.symm⟩

/-- The platform's failures, with their text. -/
def bleStep {α : Type} (x : Nat × Except String α) : Timed α := (x.1, x.2.mapError .ble)

/-- What a peripheral announces. -/
structure Advert where
  services : List (Octets 16)
  serviceData : List (Octets 16)

/-- `CharPropFlags`, the flags the transport looks at. -/
structure CharProps where
  writeWithoutResponse : Bool
  write : Bool
  notify : Bool

/-- The two characteristics of the Conveyance service, as far as they are there. -/
structure GattService where
  pcToPhoneTx : Option CharProps
  phoneToPcTx : Option CharProps

/-- The platform's answers during one attempt, each with the time it takes. -/
structure Radio where
  adapters : Nat × Except String Nat
  startScan : Nat × Except String Unit
  /-- The `n`-th look at the peripherals, and at their announcements up to one that
  matches. -/
  peripherals : Nat → Nat × Except String (List (Option Advert))
  connectWithTimeout : Nat → Nat × Except String Unit
  discoverServices : Nat × Except String (Option GattService)
  subscribe : Nat × Except String Unit
  notifications : Nat × Except String Unit
  mtu : UInt16
  inbound : Core.Inbound
  send : Nat → Except Core.TransportError Unit

namespace Radio

variable (radio : Radio)

def firstAdapter : Timed Unit :=
  (bleStep radio.adapters).andThen fun count =>
    (0, if count = 0 then .error (.notFound "no Bluetooth adapter on this machine") else .ok ())

/-- `advert_matches`. Properties that cannot be read match nothing. -/
def advertMatches : Option Advert → Bool
  | some props => serviceUuidBytes ∈ props.services ∨ serviceUuidBytes ∈ props.serviceData
  | none => false

/-- `sweep_time`, in nanoseconds. -/
def sweepTime : Nat := 250 * 1000000

def stepSleep (sweep now deadline : Nat) : Nat := min sweep (deadline - now)

/-- The scan loop, at `now`, before the `n`-th look. Before the deadline no round is without
sleep, so as many rounds as there are nanoseconds are enough. -/
def scan (deadline : Nat) : (fuel now n : Nat) → Timed Unit
  | 0, _, _ => (0, .error .timeout)
  | fuel + 1, now, n =>
    if deadline ≤ now then (0, .error .timeout)
    else
      let sleep := stepSleep sweepTime now deadline
      .andThen (sleep, .ok ()) fun () =>
        (bleStep (radio.peripherals n)).andThen fun found =>
          if found.any advertMatches then (0, .ok ())
          else scan deadline fuel (now + sleep + (radio.peripherals n).1) (n + 1)

/-- The service and its characteristics are there, with the roles they must have. -/
def checkRoles : Option GattService → Except Core.TransportError Unit
  | none => .error (.notFound "Conveyance service")
  | some ⟨none, _⟩ => .error (.notFound "pc_to_phone_tx characteristic")
  | some ⟨some _, none⟩ => .error (.notFound "phone_to_pc_tx characteristic")
  | some ⟨some write, some notify⟩ =>
    if ¬ write.writeWithoutResponse ∧ ¬ write.write then
      .error (.notFound "pc_to_phone_tx lacks a write property")
    else if ¬ notify.notify then .error (.notFound "phone_to_pc_tx lacks the notify property")
    else .ok ()

/-- From a peripheral that matches to a link. -/
def openLink (timeout : Nat) : Timed Link :=
  .andThen ((radio.connectWithTimeout timeout).1,
      (radio.connectWithTimeout timeout).2.mapError fun _ => .timeout) fun () =>
    (bleStep radio.discoverServices).andThen fun service =>
      .andThen (0, checkRoles service) fun () =>
        (bleStep radio.subscribe).andThen fun () =>
          (bleStep radio.notifications).andThen fun () =>
            (0, .ok ⟨maxFramePayload radio.mtu, radio.inbound, radio.send⟩)

/-- `BleTransport::connect`, left alone. -/
def connect (timeout : Nat) : Attempt :=
  let whole := radio.firstAdapter.andThen fun () =>
    (bleStep radio.startScan).andThen fun () =>
      (radio.scan timeout (timeout + 1) (radio.adapters.1 + radio.startScan.1) 0).andThen fun () =>
        radio.openLink timeout
  ⟨some whole.1, whole.2⟩

/-- The time from the peripheral to the link. -/
def openTime (timeout : Nat) : Nat :=
  (radio.connectWithTimeout timeout).1 + radio.discoverServices.1 + radio.subscribe.1 +
    radio.notifications.1

variable {radio}

theorem firstAdapter_time : radio.firstAdapter.1 = radio.adapters.1 := by
  unfold firstAdapter Timed.andThen
  split <;> rfl

/-- The scan sleeps before it looks. -/
theorem scan_ok {deadline fuel now n t : Nat} (h : radio.scan deadline fuel now n = (t, .ok ())) :
    now < deadline ∧ stepSleep sweepTime now deadline ≤ t := by
  cases fuel with
  | zero => simp [scan] at h
  | succ fuel =>
    rw [scan] at h
    by_cases hdeadline : deadline ≤ now
    · simp [hdeadline] at h
    · rw [if_neg hdeadline] at h
      obtain ⟨-, t', -, -, ht⟩ := Timed.andThen_ok h
      dsimp only at ht
      exact ⟨by omega, by omega⟩

theorem openLink_ok {timeout t : Nat} {link : Link}
    (h : radio.openLink timeout = (t, .ok link)) : t = radio.openTime timeout := by
  obtain ⟨-, t₁, -, hdiscover, hconnected⟩ := Timed.andThen_ok h
  obtain ⟨service, t₂, -, hroles, hdiscovered⟩ := Timed.andThen_ok hdiscover
  obtain ⟨-, t₃, -, hsubscribe, hchecked⟩ := Timed.andThen_ok hroles
  obtain ⟨-, t₄, -, hnotify, hsubscribed⟩ := Timed.andThen_ok hsubscribe
  obtain ⟨-, t₅, -, hlink, hnotified⟩ := Timed.andThen_ok hnotify
  have hlast : 0 = t₅ := congrArg Prod.fst hlink
  simp only [openTime, bleStep] at *
  omega

/-- A link takes a sweep, or all the time there is, and the time to open it. -/
theorem connect_ok {timeout delay : Nat} {link : Link}
    (h : radio.connect timeout = ⟨some delay, .ok link⟩) :
    min timeout sweepTime + radio.openTime timeout ≤ delay := by
  unfold connect at h
  rw [Attempt.mk.injEq, Option.some.injEq] at h
  obtain ⟨-, t₁, -, hstart, hadapter⟩ := Timed.andThen_ok (Prod.ext h.1 h.2)
  obtain ⟨-, t₂, -, hscan, hstarted⟩ := Timed.andThen_ok hstart
  obtain ⟨_, t₃, hfound, hopen, hscanned⟩ := Timed.andThen_ok hscan
  obtain ⟨t, hwhole⟩ : ∃ t, radio.scan timeout (timeout + 1)
      (radio.adapters.1 + radio.startScan.1) 0 = (t, .ok ()) := ⟨_, Prod.ext rfl hfound⟩
  obtain ⟨hbefore, hsleep⟩ := scan_ok hwhole
  rw [hwhole] at hscanned
  have hopened := openLink_ok hopen
  rw [firstAdapter_time] at hadapter
  simp only [stepSleep, bleStep] at hsleep hstarted
  omega

end Radio

/-! ## The loop of CONNECTING -/

section Loop

variable {connect : Nat → Nat → Attempt}

variable {fuel left round delay : Nat} {link : Link}

/-- An attempt that comes through within its tick ends the loop. -/
theorem connectLoop_caught (hleft : 0 < left) (h : connect round left = ⟨some delay, .ok link⟩)
    (hdelay : delay ≤ min left sweepTick) :
    connectLoop connect (fuel + 1) left round = some (link, left - delay) := by
  rw [connectLoop, if_neg (by omega), h]
  simp [hdelay, Option.filter]

/-- An attempt that would take longer is dropped. -/
theorem connectLoop_dropped (hleft : 0 < left) (h : connect round left = ⟨some delay, .ok link⟩)
    (hdelay : min left sweepTick < delay) :
    connectLoop connect (fuel + 1) left round =
      connectLoop connect fuel (left - min left sweepTick) (round + 1) := by
  rw [connectLoop, if_neg (by omega), h]
  simp only [Option.filter, decide_eq_true_eq, if_neg (Nat.not_le.mpr hdelay)]

theorem connectLoop_zero : connectLoop connect fuel 0 round = none := by
  cases fuel <;> simp [connectLoop]

/-- Each attempt comes through on its own, `d` after its start at the latest, and `d` is
less than the window. -/
def Reachable (connect : Nat → Nat → Attempt) (qrTtl d : Nat) : Prop :=
  d < qrTtl ∧ ∀ round left, 0 < left →
    ∃ delay link, connect round left = ⟨some delay, .ok link⟩ ∧ delay ≤ d

/-- The loop gets a link with time left exactly if some attempt is through within its
tick. -/
theorem connectLoop_connects
    (hconnect : ∀ round left, 0 < left → ∃ delay link, connect round left = ⟨some delay, .ok link⟩)
    (round : Nat) (hfuel : left ≤ fuel) :
    (∃ link rest, 0 < rest ∧ connectLoop connect fuel left round = some (link, rest)) ↔
      ∃ k delay link, connect (round + k) (left - k * sweepTick) = ⟨some delay, .ok link⟩ ∧
        delay ≤ sweepTick ∧ k * sweepTick + delay < left := by
  have hpos : 0 < sweepTick := by decide
  induction fuel generalizing left round with
  | zero =>
    refine iff_of_false ?_ ?_
    · simp [connectLoop]
    · rintro ⟨k, delay, link, -, -, h⟩
      omega
  | succ fuel ih =>
    rcases Nat.eq_zero_or_pos left with rfl | hleft
    · rw [connectLoop_zero]
      simp
    obtain ⟨delay, link, hattempt⟩ := hconnect round left hleft
    by_cases hdelay : delay ≤ min left sweepTick
    · rw [connectLoop_caught hleft hattempt hdelay]
      constructor
      · rintro ⟨_, _, hrest, heq⟩
        cases heq
        exact ⟨0, delay, link, by simpa using hattempt, by omega, by omega⟩
      · rintro ⟨k, delay', link', hlater, -, hin⟩
        refine ⟨link, left - delay, ?_, rfl⟩
        -- an attempt that uses up the window is the last one
        cases k with
        | zero =>
          have hsame : delay = delay' := by simpa [hattempt] using congrArg Attempt.delay hlater
          omega
        | succ k =>
          rw [Nat.succ_mul] at hin
          omega
    · have hrest : left - min left sweepTick ≤ fuel := by omega
      rw [connectLoop_dropped hleft hattempt (by omega)]
      refine (ih (round + 1) hrest).trans ?_
      -- what is left after a dropped attempt and `k` more ticks
      have htime : ∀ k,
          left - (k + 1) * sweepTick = left - min left sweepTick - k * sweepTick := by
        intro k
        rw [Nat.succ_mul]
        omega
      constructor
      · rintro ⟨k, delay', link', hlater, htick, hin⟩
        refine ⟨k + 1, delay', link', ?_, htick, ?_⟩
        · rw [htime, ← hlater]
          congr 1
          omega
        · rw [Nat.succ_mul]
          omega
      · rintro ⟨k, delay', link', hlater, htick, hin⟩
        cases k with
        | zero =>
          have hsame : delay = delay' := by simpa [hattempt] using congrArg Attempt.delay hlater
          omega
        | succ k =>
          rw [Nat.succ_mul] at hin
          refine ⟨k, delay', link', ?_, htick, by omega⟩
          rw [← htime, ← hlater]
          congr 1
          omega

/-- The loop gives up if no attempt is through within its tick. -/
theorem connectLoop_expires
    (hslow : ∀ round left delay link, connect round left = ⟨some delay, .ok link⟩ →
      min left sweepTick < delay) (fuel left round : Nat) :
    connectLoop connect fuel left round = none := by
  induction fuel generalizing left round with
  | zero => rfl
  | succ fuel ih =>
    rw [connectLoop]
    split_ifs
    · rfl
    · dsimp only
      split
      next delay link hdelay houtcome =>
        obtain ⟨hsome, hin⟩ := Option.filter_eq_some_iff.mp hdelay
        have hlate := hslow round left delay link (by rw [← hsome, ← houtcome])
        simp at hin
        omega
      · exact ih _ _
      · exact ih _ _

theorem connectLoop_rest {rest : Nat}
    (h : connectLoop connect fuel left round = some (link, rest)) : rest ≤ left := by
  induction fuel generalizing left round with
  | zero => cases h
  | succ fuel ih =>
    rw [connectLoop] at h
    split_ifs at h
    dsimp only at h
    split at h
    · cases h
      omega
    · exact (ih h).trans (Nat.sub_le _ _)
    · exact (ih h).trans (Nat.sub_le _ _)

end Loop

/-! ## The ceremony over a transport -/

/-- **Pairing connects exactly if one attempt fits into a tick.** Every attempt would come
through within `d`, which is less than the QR window. The driver has a link before the
QR expires exactly if, for some `k`, the attempt that starts after `k` ticks is through
before the next tick, and before the window closes. -/
theorem pairing_connects_within_a_tick (env : Env) (limits : CeremonyLimits)
    (nonces : NonceGuard env.bloom) (store : PairingsDb) {nonce : Octets 32} {qr : PairingQr}
    {d : Nat} (hentropy : env.entropy = .ok nonce)
    (hqr : PairingQr.new env.parsesKey env.probe env.shownAt env.pcIdPub env.pcDhPub nonce
      env.pcName env.serviceUuid = .ok qr) (hphone : Reachable env.connect limits.qrTtl d) :
    (∃ t < limits.qrTtl,
        [.displayed qr, .connected t] <+: (runPairing env limits nonces store).1.trace) ↔
      ∃ k delay link,
        env.connect k (limits.qrTtl - k * sweepTick) = ⟨some delay, .ok link⟩ ∧
          delay ≤ sweepTick ∧ k * sweepTick + delay < limits.qrTtl := by
  have hloop := connectLoop_connects (fun round left hleft =>
    (hphone.2 round left hleft).imp fun delay => Exists.imp fun link => And.left) 0
    (le_refl limits.qrTtl)
  simp only [Nat.zero_add] at hloop
  rw [← hloop]
  cases hlink : connectLoop env.connect limits.qrTtl limits.qrTtl 0 with
  | none =>
    rw [runPairing_expired hentropy hqr hlink]
    refine iff_of_false ?_ ?_
    · rintro ⟨t, -, h⟩
      simpa using h.length_le
    · simp
  | some found =>
    obtain ⟨link, rest⟩ := found
    have hrest := connectLoop_rest hlink
    rw [runPairing_connected hentropy hqr hlink]
    have htrace := awaitConfirm_extends (c := ⟨.awaitingConfirm, nonces, store,
      [.displayed qr, .connected (limits.qrTtl - rest)]⟩) limits link nonce
    constructor
    · rintro ⟨t, ht, h⟩
      have hsame := List.prefix_of_prefix_length_le h htrace le_rfl
      have : t = limits.qrTtl - rest := by simpa using hsame.eq_of_length rfl
      exact ⟨link, rest, by omega, rfl⟩
    · rintro ⟨_, _, hpos, heq⟩
      cases heq
      exact ⟨limits.qrTtl - rest, by omega, htrace⟩

/-- Over BLE, with a connection that takes any time to open, every ceremony expires. -/
theorem ble_pairing_expires (env : Env) (limits : CeremonyLimits) (nonces : NonceGuard env.bloom)
    (store : PairingsDb) {nonce : Octets 32} {qr : PairingQr} (radio : Nat → Radio)
    (hentropy : env.entropy = .ok nonce)
    (hqr : PairingQr.new env.parsesKey env.probe env.shownAt env.pcIdPub env.pcDhPub nonce
      env.pcName env.serviceUuid = .ok qr)
    (hble : env.connect = fun round => (radio round).connect)
    (hopen : ∀ round left, 0 < (radio round).openTime left) :
    (runPairing env limits nonces store).2 = .error (.err .qrExpired) := by
  have hslow : ∀ round left delay link, env.connect round left = ⟨some delay, .ok link⟩ →
      min left sweepTick < delay := by
    intro round left delay link h
    rw [hble] at h
    have htime := Radio.connect_ok h
    have := hopen round left
    unfold Radio.sweepTime at htime
    unfold sweepTick
    omega
  rw [runPairing_expired hentropy hqr (connectLoop_expires hslow _ _ _)]

namespace Sample

/-- A radio that finds the phone in its first sweep and connects to it in 100 ms. -/
def radio : Radio where
  adapters := (0, .ok 1)
  startScan := (0, .ok ())
  peripherals _ := (0, .ok [some ⟨[serviceUuidBytes], []⟩])
  connectWithTimeout _ := (100 * 1000000, .ok ())
  discoverServices := (0, .ok (some ⟨some ⟨true, false, false⟩, some ⟨false, false, true⟩⟩))
  subscribe := (0, .ok ())
  notifications := (0, .ok ())
  mtu := 247
  inbound := ⟨[], none⟩
  send _ := .ok ()

def bleEnv : Env := { env [] with connect := fun _ => radio.connect }

theorem radio_scan {left : Nat} (hleft : 0 < left) :
    radio.scan left (left + 1) 0 0 = (min Radio.sweepTime left, .ok ()) := by
  rw [Radio.scan, if_neg (by omega)]
  rfl

theorem radio_reachable : Reachable bleEnv.connect CeremonyLimits.spec.qrTtl (350 * 1000000) := by
  refine ⟨by decide, fun round left hleft => ?_⟩
  refine ⟨min Radio.sweepTime left + 100 * 1000000,
    ⟨maxFramePayload 247, ⟨[], none⟩, fun _ => .ok ()⟩,
    ?_, ?_⟩
  · change radio.connect left = _
    unfold Radio.connect
    rw [show radio.adapters.1 + radio.startScan.1 = 0 from rfl, radio_scan hleft]
    simp [Timed.andThen, Radio.firstAdapter, Radio.openLink, Radio.checkRoles, bleStep, radio,
      Except.mapError]
  · unfold Radio.sweepTime
    omega

end Sample

/-- The phone is found in the first sweep and connected in 350 ms: the QR expires all the
same. -/
theorem reachable_phone_expires :
    Reachable Sample.bleEnv.connect CeremonyLimits.spec.qrTtl (350 * 1000000) ∧
      (runPairing Sample.bleEnv .spec ⟨[], 0⟩ []).2 = .error (.err .qrExpired) :=
  ⟨Sample.radio_reachable,
    ble_pairing_expires Sample.bleEnv .spec ⟨[], 0⟩ [] (fun _ => Sample.radio)
    rfl rfl rfl fun _ _ => (by decide : 0 < 100 * 1000000 + 0 + 0 + 0)⟩

/-- An attempt takes 200 ms, which is less than a tick. -/
def Sample.quickEnv : Env :=
  { env [] with connect := fun _ _ => ⟨some (200 * 1000000), .ok (link [])⟩ }

theorem quick_phone_connects :
    ∃ t < CeremonyLimits.spec.qrTtl, ∃ qr, [.displayed qr, .connected t] <+:
      (runPairing Sample.quickEnv .spec ⟨[], 0⟩ []).1.trace := by
  have hphone : Reachable Sample.quickEnv.connect CeremonyLimits.spec.qrTtl (200 * 1000000) :=
    ⟨by decide, fun _ _ _ => ⟨200 * 1000000, Sample.link [], rfl, le_rfl⟩⟩
  obtain ⟨t, ht, h⟩ := (pairing_connects_within_a_tick Sample.quickEnv .spec ⟨[], 0⟩ [] rfl rfl
    hphone).mpr ⟨0, 200 * 1000000, Sample.link [], rfl, by decide, by decide⟩
  exact ⟨t, ht, _, h⟩

end Conveyance.Pairing
