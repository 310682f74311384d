import Conveyance.Lib.Bytes

/-!
# Links (conveyance-core, transport/mod.rs)

How a link fails, and its inbound side as one receiver sees it: chunks come in one
after another, each at its own time, and after the last one the link may fail.
-/

namespace Conveyance.Core

open Lib

inductive TransportError where
  | disconnected
  | timeout
  | notFound (what : String)
  | invalidState (what : String)
  | ble (text : String)
deriving DecidableEq

def TransportError.text : TransportError → String
  | .disconnected => "peer disconnected"
  | .timeout => "operation timed out"
  | .notFound what => "expected BLE object not found: " ++ what
  | .invalidState what => "link in invalid state: " ++ what
  | .ble text => "BLE platform error: " ++ text

/-- The inbound side of a link. Times are nanoseconds since the receiver began to
listen. -/
structure Inbound where
  arrivals : List (Nat × Bytes)
  /-- When the link fails, if it does. Whatever arrived before is read first. -/
  closesAt : Option Nat

end Conveyance.Core
