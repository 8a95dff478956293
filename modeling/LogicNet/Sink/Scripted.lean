import LogicNet.Sink.Basic

/-!
# Sinks that follow a script

A scripted sink answers each write with the next reply of its script: it fails, or takes as many
bytes of the write as the reply says. Behind the end of the script it takes everything. So it may
fail, recover and fail again.
-/

namespace LogicNet

/-- A sink that keeps the bytes it took, and the replies to come. -/
structure ScriptedSink where
  accepted : List UInt8
  replies : List (Except WriteError Nat)

namespace ScriptedSink

/-- An empty sink with a script. -/
def ofReplies (replies : List (Except WriteError Nat)) : ScriptedSink := ⟨[], replies⟩

instance : Sink ScriptedSink where
  write s bytes :=
    match s.replies with
    | [] => (.ok bytes.length, { s with accepted := s.accepted ++ bytes })
    | .ok n :: replies => (.ok (min n bytes.length), ⟨s.accepted ++ bytes.take n, replies⟩)
    | .error e :: replies => (.error e, { s with replies })

end ScriptedSink

end LogicNet
