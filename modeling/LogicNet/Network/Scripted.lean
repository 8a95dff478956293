import LogicNet.Network.Builder

/-!
# Builders that follow a script

A scripted builder builds nothing. It answers each call with the next reply of the script for calls
of that kind, and accepts whatever comes after the script's end, so every course of answers that a
builder can give in one parse is the course of some script.
-/

namespace LogicNet

/-- The replies to come, one list for each kind of call, and the answer to the final check. -/
structure Scripted where
  devices : List (Option DeviceError)
  connections : List (Option ConnectionError)
  monitors : List (Option MonitorError)
  complete : Bool

namespace Scripted

/-- Take the next reply of a script. -/
def next {ε : Type} : List (Option ε) → Except ε Unit × List (Option ε)
  | [] => (.ok (), [])
  | none :: replies => (.ok (), replies)
  | some e :: replies => (.error e, replies)

end Scripted

instance : NetworkBuilder Scripted where
  makeDevice s _ _ _ :=
    ((Scripted.next s.devices).1, { s with devices := (Scripted.next s.devices).2 })
  makeConnection s _ _ _ _ :=
    ((Scripted.next s.connections).1, { s with connections := (Scripted.next s.connections).2 })
  makeMonitor s _ _ :=
    ((Scripted.next s.monitors).1, { s with monitors := (Scripted.next s.monitors).2 })
  isComplete s := s.complete

end LogicNet
