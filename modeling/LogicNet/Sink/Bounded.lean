import LogicNet.Sink.Basic

/-!
# Sinks with limited room

A bounded sink takes what still fits of each write. Once it is full, every write fails. A sink with
no bound takes everything.
-/

namespace LogicNet

/-- A sink that keeps the bytes it took. -/
structure BoundedSink where
  accepted : Array UInt8
  /-- How many more bytes fit; no number means that there is no bound. -/
  room : Option Nat
  /-- How writes fail once nothing fits. -/
  refusal : WriteError

namespace BoundedSink

/-- An empty sink that never fails. -/
def unbounded : BoundedSink := ⟨#[], none, .sinkFull⟩

/-- An empty sink for so many bytes. -/
def ofSize (size : Nat) : BoundedSink := ⟨#[], some size, .sinkFull⟩

/-- A sink on a device that is full. -/
def deviceFull : BoundedSink := ⟨#[], some 0, .noSpace⟩

instance : Sink BoundedSink where
  write s bytes :=
    match s.room with
    | none => (.ok bytes.length, { s with accepted := s.accepted ++ bytes })
    | some 0 => (.error s.refusal, s)
    | some (room + 1) =>
      let taken := bytes.take (room + 1)
      (.ok taken.length,
        { s with accepted := s.accepted ++ taken, room := some (room + 1 - taken.length) })

/-- The text in the bytes that were taken, without a character that was cut at the end. -/
def text (s : BoundedSink) : String :=
  let bytes : ByteArray := ⟨s.accepted⟩
  ((List.range 4).findSome? fun cut =>
    String.fromUTF8? (bytes.extract 0 (bytes.size - cut))).getD ""

end BoundedSink

end LogicNet
