import Conveyance.Lib.Text
import Conveyance.Storage.PhoneLog

/-!
# Phone exports (conveyance-core, storage/logdiff.rs)

The strict parser of an exported phone log: a JSON row on each line that is not blank,
and the first row that is not in order fails the whole export.

`hex_decode` asserts that its pairs leave nothing over. In this model the assertion can
fail, and `hexDecodeAsserted_eq` says that it does not.
-/

namespace Conveyance.Storage

open Lib Crypto

/-! ## Hex, with its assertion -/

/-- `as_chunks::<2>`. -/
def asChunks : Bytes → List (UInt8 × UInt8) × Bytes
  | hi :: lo :: rest => ((hi, lo) :: (asChunks rest).1, (asChunks rest).2)
  | rest => ([], rest)

def decodeChunks : List (UInt8 × UInt8) → Option Bytes
  | [] => some []
  | (hi, lo) :: pairs => do
    let h ← fromLowerHexDigit hi
    let l ← fromLowerHexDigit lo
    let out ← decodeChunks pairs
    some ((h <<< 4 ||| l) :: out)

/-- `hex_decode`, with its `debug_assert!`. -/
def hexDecodeAsserted (s : String) : Except (Fault Unit) Bytes :=
  let bytes := s.toUTF8.data.toList
  if bytes.length % 2 ≠ 0 then .error (.err ())
  else if (asChunks bytes).2 ≠ [] then .error .panic
  else (decodeChunks (asChunks bytes).1).elim (.error (.err ())) .ok

theorem asChunks_rest : ∀ bytes : Bytes, bytes.length % 2 = 0 → (asChunks bytes).2 = []
  | [], _ => rfl
  | [b], h => by simp at h
  | hi :: lo :: rest, h => by
    have heven : rest.length % 2 = 0 := by
      rw [List.length_cons, List.length_cons] at h
      omega
    exact asChunks_rest rest heven

theorem decodeChunks_asChunks : ∀ bytes : Bytes, decodeChunks (asChunks bytes).1 = decodePairs bytes
  | [] | [_] => rfl
  | hi :: lo :: rest => by
    rw [asChunks, decodeChunks, decodePairs, decodeChunks_asChunks rest]

theorem hexDecodeAsserted_eq (s : String) :
    hexDecodeAsserted s = (hexDecode s).elim (.error (.err ())) .ok := by
  unfold hexDecodeAsserted hexDecode
  by_cases heven : s.toUTF8.data.toList.length % 2 ≠ 0
  · rw [if_pos heven, if_pos heven]
    rfl
  · have hrest := asChunks_rest _ (not_not.mp heven)
    rw [if_neg heven, if_neg heven, if_neg (not_not_intro hrest), decodeChunks_asChunks]

def hexDecodeArrayAsserted (n : Nat) (s : String) : Except (Fault Unit) (Octets n) :=
  if s.toUTF8.data.toList.length ≠ n * 2 then .error (.err ())
  else
    match hexDecodeAsserted s with
    | .error e => .error e
    | .ok out => if h : out.length = n then .ok ⟨out, h⟩ else .error (.err ())

theorem hexDecodeArrayAsserted_eq (n : Nat) (s : String) :
    hexDecodeArrayAsserted n s = (hexDecodeArray n s).elim (.error (.err ())) .ok := by
  unfold hexDecodeArrayAsserted hexDecodeArray
  by_cases hlen : s.toUTF8.data.toList.length ≠ n * 2
  · rw [if_pos hlen, if_pos hlen]
    rfl
  · rw [if_neg hlen, if_neg hlen, hexDecodeAsserted_eq]
    cases hexDecode s with
    | none => rfl
    | some out =>
      by_cases h : out.length = n
      · simp [h]
      · simp [h]

/-! ## The parser -/

structure RawPhoneRow where
  reqId : String
  eventType : String
  payloadJson : String
  timestamp : Int64
  signature : String

/-- A line, counted from one, and what is wrong with it. -/
structure ExportParseError where
  line : Nat
  reason : String
deriving DecidableEq

section Parser

-- `serde_json::from_str` for a row; an error is its text
variable (readRow : String → Except String RawPhoneRow)

/-- A field of fixed-width lowercase hex. -/
def hexField (n : Nat) (line : Nat) (reason text : String) :
    Except (Fault ExportParseError) (Octets n) :=
  match hexDecodeArrayAsserted n text with
  | .error .panic => .error .panic
  | .error (.err ()) => .error (.err ⟨line, reason⟩)
  | .ok bytes => .ok bytes

def parseRow (lineNo : Nat) (line : String) : Except (Fault ExportParseError) PhoneLogRow := do
  let raw ← (readRow line).mapError fun e => .err ⟨lineNo, "invalid JSON row: " ++ e⟩
  let reqId ← hexField 16 lineNo "req_id must be 32 lowercase hex chars" raw.reqId
  let signature ← hexField 64 lineNo "signature must be 128 hex chars" raw.signature
  if raw.eventType.isEmpty then .error (.err ⟨lineNo, "event_type must not be empty"⟩)
  else .ok ⟨reqId, raw.eventType, raw.payloadJson, raw.timestamp, signature⟩

/-- The loop over the lines, `idx` of them behind it. -/
def parseLines : List String → (idx : Nat) → (rows : List PhoneLogRow) →
    Except (Fault ExportParseError) (List PhoneLogRow)
  | [], _, rows => .ok rows
  | line :: rest, idx, rows =>
    if (trim line).isEmpty then parseLines rest (idx + 1) rows
    else do
      let row ← parseRow readRow (idx + 1) (trim line)
      parseLines rest (idx + 1) (rows ++ [row])

def parsePhoneExport (text : String) : Except (Fault ExportParseError) (List PhoneLogRow) :=
  parseLines readRow (lines text) 0 []

variable {readRow}

theorem hexField_ne_panic {n line : Nat} {reason text : String} :
    hexField n line reason text ≠ .error .panic := by
  unfold hexField
  rw [hexDecodeArrayAsserted_eq]
  cases hexDecodeArray n text <;> simp

theorem parseRow_ne_panic (lineNo : Nat) (line : String) :
    parseRow readRow lineNo line ≠ .error .panic := by
  unfold parseRow
  refine bind_ne_panic (mapError_ne_panic (by simp) _) fun raw => ?_
  refine bind_ne_panic hexField_ne_panic fun reqId => ?_
  refine bind_ne_panic hexField_ne_panic fun signature => ?_
  split_ifs <;> simp

/-- **No export makes the parser panic.** -/
theorem parsePhoneExport_ne_panic (text : String) :
    parsePhoneExport readRow text ≠ .error .panic := by
  unfold parsePhoneExport
  generalize lines text = ls, 0 = idx, ([] : List PhoneLogRow) = rows
  induction ls generalizing idx rows with
  | nil => simp [parseLines]
  | cons line rest ih =>
    rw [parseLines]
    split_ifs
    · exact ih _ _
    · exact bind_ne_panic (parseRow_ne_panic _ _) fun row => ih _ _

end Parser

end Conveyance.Storage
