import Conveyance.Lib.Signed

/-!
# Byte buffers with a position

A platform's array of octets, whose size is a non-negative 32-bit integer, and a position
in it that reads and writes move forward. Reading or writing past the end is a fault of its
own, and so is a negative size.

Programs over a buffer are in `BufferM`. What a read gives is said in terms of `rest`, the
octets from the position on; `fill` allocates a buffer and writes pieces into it, and
`fill_eq_ok` says when they come out.
-/

namespace Lib

/-- An array of octets that the platform can hold. -/
abbrev SizedBytes := { b : Bytes // b.length < 2 ^ 31 }

/-- How a program over a buffer ends early: in the buffer, or with an exception of its own. -/
inductive BufferFault (ε : Type) where
  | underflow
  | overflow
  | negativeArraySize
  | negativeCapacity
  | thrown (e : ε)
deriving DecidableEq

structure ByteBuffer where
  array : SizedBytes
  position : Nat
  position_le : position ≤ array.val.length

abbrev BufferM (ε : Type) := StateT ByteBuffer (Except (BufferFault ε))

namespace ByteBuffer

variable {ε α β : Type} {buf : ByteBuffer}

def wrap (array : SizedBytes) : ByteBuffer := ⟨array, 0, Nat.zero_le _⟩

/-- The octets from the position on. -/
def rest (buf : ByteBuffer) : Bytes := buf.array.val.drop buf.position

@[simp] theorem rest_wrap (array : SizedBytes) : (wrap array).rest = array.val := rfl

theorem rest_length (buf : ByteBuffer) : buf.rest.length = buf.array.val.length - buf.position :=
  List.length_drop

theorem rest_length_lt (buf : ByteBuffer) : buf.rest.length < 2 ^ 31 := by
  have hsize := buf.array.property
  rw [rest_length]
  omega

theorem add_le {n : Nat} (h : n ≤ buf.rest.length) : buf.position + n ≤ buf.array.val.length := by
  have hposition := buf.position_le
  rw [rest_length] at h
  omega

/-- The position moved forward. -/
def skip (buf : ByteBuffer) (n : Nat) (h : n ≤ buf.rest.length) : ByteBuffer :=
  ⟨buf.array, buf.position + n, add_le h⟩

@[simp] theorem rest_skip (n : Nat) (h : n ≤ buf.rest.length) :
    (buf.skip n h).rest = buf.rest.drop n :=
  List.drop_drop.symm

/-! ## Reading -/

def remaining : BufferM ε Int32 := fun buf =>
  .ok (Int32.ofNat (buf.array.val.length - buf.position), buf)

/-- `get()`. -/
def getByte : BufferM ε UInt8 := fun buf =>
  if h : 1 ≤ buf.rest.length then .ok (buf.rest.get ⟨0, h⟩, buf.skip 1 h) else .error .underflow

/-- `getShort()`, most significant octet first. -/
def getShort : BufferM ε Int16 := fun buf =>
  if h : 2 ≤ buf.rest.length then
    .ok ((u16OfBe (buf.rest.get ⟨0, by omega⟩) (buf.rest.get ⟨1, by omega⟩)).toInt16, buf.skip 2 h)
  else .error .underflow

theorem take_lt (n : Nat) (buf : ByteBuffer) : (buf.rest.take n).length < 2 ^ 31 :=
  Nat.lt_of_le_of_lt (List.length_take_le' n _) buf.rest_length_lt

/-- A new array of `n` octets, filled by `get(array)`. -/
def getArray (n : Int32) : BufferM ε SizedBytes := fun buf =>
  if n < 0 then .error .negativeArraySize
  else if h : n.toInt.toNat ≤ buf.rest.length then
    .ok (⟨buf.rest.take n.toInt.toNat, take_lt _ buf⟩, buf.skip _ h)
  else .error .underflow

def raise (e : ε) : BufferM ε α := fun _ => .error (.thrown e)

theorem remaining_run (buf : ByteBuffer) :
    (remaining : BufferM ε Int32).run buf = .ok (Int32.ofNat buf.rest.length, buf) := by
  rw [rest_length]
  rfl

theorem getByte_run {a : UInt8} {r : Bytes} (h : buf.rest = a :: r) :
    ∃ buf', (getByte : BufferM ε UInt8).run buf = .ok (a, buf') ∧ buf'.rest = r := by
  have hlen : 1 ≤ buf.rest.length := by simp [h]
  refine ⟨buf.skip 1 hlen, ?_, by simp [h]⟩
  have hhead : buf.rest.get ⟨0, hlen⟩ = a := by simp [h]
  rw [← hhead]
  exact dif_pos hlen

theorem getShort_run {hi lo : UInt8} {r : Bytes} (h : buf.rest = hi :: lo :: r) :
    ∃ buf', (getShort : BufferM ε Int16).run buf = .ok ((u16OfBe hi lo).toInt16, buf') ∧
      buf'.rest = r := by
  have hlen : 2 ≤ buf.rest.length := by simp [h]
  refine ⟨buf.skip 2 hlen, ?_, by simp [h]⟩
  have hhi : buf.rest.get ⟨0, by omega⟩ = hi := by simp [h]
  have hlo : buf.rest.get ⟨1, by omega⟩ = lo := by simp [h]
  rw [← hhi, ← hlo]
  exact dif_pos hlen

/-- An array of octets that are all there. -/
theorem getArray_run {n : Nat} (h : n ≤ buf.rest.length) :
    ∃ array buf', (getArray (Int32.ofNat n) : BufferM ε SizedBytes).run buf = .ok (array, buf') ∧
      array.val = buf.rest.take n ∧ buf'.rest = buf.rest.drop n := by
  have hn : n < 2 ^ 31 := Nat.lt_of_le_of_lt h buf.rest_length_lt
  have hsize : (Int32.ofNat n).toInt.toNat = n := by
    rw [Int32.toInt_ofNat_of_lt hn, Int.toNat_natCast]
  refine ⟨⟨buf.rest.take (Int32.ofNat n).toInt.toNat, take_lt _ buf⟩,
    buf.skip _ (hsize.symm ▸ h), ?_, ?_, ?_⟩
  · show getArray (Int32.ofNat n) buf = _
    unfold getArray
    rw [if_neg (int32_ofNat_not_neg hn), dif_pos (hsize.symm ▸ h)]
  · show buf.rest.take (Int32.ofNat n).toInt.toNat = _
    rw [hsize]
  · rw [rest_skip, hsize]

variable {m : BufferM ε α} {f : α → BufferM ε β} {a : α} {buf' : ByteBuffer} {bytes : Bytes}
  {pieces : List Bytes}

theorem run_bind_ok (h : m.run buf = .ok (a, buf')) : (m >>= f).run buf = (f a).run buf' := by
  rw [StateT.run_bind, h]
  rfl

/-- Only the result. -/
theorem result_bind_ok (h : m.run buf = .ok (a, buf')) : (m >>= f).run' buf = (f a).run' buf' :=
  congrArg (Prod.fst <$> ·) (run_bind_ok h)

/-! ## Writing -/

theorem overwrite_length (h : bytes.length ≤ buf.rest.length) :
    (buf.array.val.take buf.position ++ bytes ++ buf.rest.drop bytes.length).length =
      buf.array.val.length := by
  have hle := add_le h
  have hlen := buf.rest_length
  rw [List.length_append, List.length_append, List.length_take_of_le buf.position_le,
    List.length_drop]
  omega

/-- The octets at the position replaced, and the position moved behind them. -/
def overwrite (buf : ByteBuffer) (bytes : Bytes) (h : bytes.length ≤ buf.rest.length) :
    ByteBuffer where
  array := ⟨buf.array.val.take buf.position ++ bytes ++ buf.rest.drop bytes.length, by
    rw [overwrite_length h]
    exact buf.array.property⟩
  position := buf.position + bytes.length
  position_le := by
    rw [overwrite_length h]
    exact add_le h

/-- Written at the position, if there is room. -/
def put (bytes : Bytes) : BufferM ε Unit := fun buf =>
  if h : bytes.length ≤ buf.rest.length then .ok ((), buf.overwrite bytes h)
  else .error .overflow

/-- Several pieces, one after the other. -/
def putAll : List Bytes → BufferM ε Unit
  | [] => pure ()
  | piece :: pieces => do
    put piece
    putAll pieces

def allocate (capacity : Int32) : Except (BufferFault ε) ByteBuffer :=
  if capacity < 0 then .error .negativeCapacity
  else
    .ok (wrap ⟨List.replicate capacity.toInt.toNat 0, by
      have hcap := capacity.toInt_lt
      rw [List.length_replicate]
      omega⟩)

/-- `ByteBuffer.allocate(capacity).apply { … }.array()`. -/
def fill (capacity : Int32) (pieces : List Bytes) : Except (BufferFault ε) SizedBytes := do
  let buf ← allocate capacity
  let filled ← (putAll pieces).run buf
  return filled.2.array

theorem put_run (h : bytes.length ≤ buf.rest.length) :
    (put bytes : BufferM ε Unit).run buf = .ok ((), buf.overwrite bytes h) :=
  dif_pos h

theorem put_overflow (h : ¬ bytes.length ≤ buf.rest.length) :
    (put bytes : BufferM ε Unit).run buf = .error .overflow :=
  dif_neg h

/-- What lies before the position has been written. -/
theorem take_overwrite (h : bytes.length ≤ buf.rest.length) :
    (buf.overwrite bytes h).array.val.take (buf.overwrite bytes h).position =
      buf.array.val.take buf.position ++ bytes := by
  have hlen : (buf.array.val.take buf.position ++ bytes).length = buf.position + bytes.length := by
    rw [List.length_append, List.length_take_of_le buf.position_le]
  show List.take (buf.position + bytes.length) (_ ++ bytes ++ _) = _
  rw [← hlen, List.take_left]

@[simp] theorem rest_overwrite (h : bytes.length ≤ buf.rest.length) :
    (buf.overwrite bytes h).rest = buf.rest.drop bytes.length := by
  have hlen : (buf.array.val.take buf.position ++ bytes).length = buf.position + bytes.length := by
    rw [List.length_append, List.length_take_of_le buf.position_le]
  show List.drop (buf.position + bytes.length) (_ ++ bytes ++ _) = _
  rw [← hlen, List.drop_left]

/-- Pieces that fit are written one behind the other. -/
theorem putAll_run (h : pieces.flatten.length ≤ buf.rest.length) :
    ∃ buf', (putAll pieces : BufferM ε Unit).run buf = .ok ((), buf') ∧
      buf'.array.val = buf.array.val.take buf.position ++ pieces.flatten ++
        buf.rest.drop pieces.flatten.length := by
  induction pieces generalizing buf with
  | nil =>
    refine ⟨buf, rfl, ?_⟩
    simp [rest]
  | cons piece pieces ih =>
    rw [List.flatten_cons, List.length_append] at h
    have hpiece : piece.length ≤ buf.rest.length := by omega
    obtain ⟨last, hlast, hwritten⟩ := @ih (buf.overwrite piece hpiece) (by
      rw [rest_overwrite, List.length_drop]
      omega)
    refine ⟨last, (run_bind_ok (put_run hpiece)).trans hlast, ?_⟩
    rw [hwritten, take_overwrite, rest_overwrite, List.drop_drop, List.flatten_cons,
      List.length_append]
    simp only [List.append_assoc]

/-- Too many octets overflow, whichever piece they are in. -/
theorem putAll_overflow (h : buf.rest.length < pieces.flatten.length) :
    (putAll pieces : BufferM ε Unit).run buf = .error .overflow := by
  induction pieces generalizing buf with
  | nil => exact absurd h (Nat.not_lt_zero _)
  | cons piece pieces ih =>
    rw [List.flatten_cons, List.length_append] at h
    by_cases hpiece : piece.length ≤ buf.rest.length
    · refine (run_bind_ok (put_run hpiece)).trans (ih ?_)
      rw [rest_overwrite, List.length_drop]
      omega
    · show (put piece >>= fun _ => putAll pieces).run buf = _
      rw [StateT.run_bind, put_overflow hpiece]
      rfl

/-- A new buffer, of a size the platform has. -/
theorem allocate_ofNat {n : Nat} (h : n < 2 ^ 31) :
    ∃ buf, (allocate (Int32.ofNat n) : Except (BufferFault ε) ByteBuffer) = .ok buf ∧
      buf.position = 0 ∧ buf.rest = List.replicate n 0 := by
  refine ⟨_, if_neg (int32_ofNat_not_neg h), rfl, ?_⟩
  show List.replicate (Int32.ofNat n).toInt.toNat 0 = _
  rw [Int32.toInt_ofNat_of_lt h, Int.toNat_natCast]

/-- A buffer of the size of the pieces takes them, if the platform has that size. -/
theorem fill_eq_ok {bytes : SizedBytes} :
    (fill (Int32.ofNat pieces.flatten.length) pieces : Except (BufferFault ε) SizedBytes) =
      .ok bytes ↔ bytes.val = pieces.flatten := by
  by_cases hsize : pieces.flatten.length < 2 ^ 31
  · obtain ⟨buf, hbuf, hposition, hrest⟩ := @allocate_ofNat ε _ hsize
    obtain ⟨last, hlast, harray⟩ := @putAll_run ε buf pieces (by simp [hrest])
    have hfill : (fill (Int32.ofNat pieces.flatten.length) pieces :
        Except (BufferFault ε) SizedBytes) = .ok last.array := by
      unfold fill
      rw [bind_eq_ok]
      refine ⟨buf, hbuf, ?_⟩
      rw [hlast]
      rfl
    have hlast : last.array.val = pieces.flatten := by
      simp [harray, hposition, hrest]
    rw [hfill, Except.ok.injEq, ← hlast]
    exact ⟨fun h => h ▸ rfl, fun h => (Subtype.ext h).symm⟩
  · constructor
    · intro h
      obtain ⟨buf, hbuf, h⟩ := bind_eq_ok.mp h
      obtain ⟨filled, hfilled, -⟩ := bind_eq_ok.mp h
      -- no buffer is large enough for the pieces
      have hsmall := buf.rest_length_lt
      rw [putAll_overflow (by omega)] at hfilled
      cases hfilled
    · intro h
      exact absurd (h ▸ bytes.property) hsize

end ByteBuffer

end Lib
