/-!
# Sinks for text

A sink takes bytes, as many of a write as it likes, or fails. Whatever a sink does, writing a text
to it comes to an end: either every byte was taken, or there is a cause why not.
-/

namespace LogicNet

/-- Why a write failed. -/
inductive WriteError where
  /-- The sink takes no more bytes. -/
  | sinkFull
  /-- The device behind the sink is full. -/
  | noSpace
  /-- The sink took nothing, and gave no cause. -/
  | stalled
  /-- Another cause, in the words of the system. -/
  | other (message : String)
deriving DecidableEq

/-- What a reader is told. -/
def WriteError.message : WriteError → String
  | sinkFull => "sink full"
  | noSpace => "No space left on device (os error 28)"
  | stalled => "failed to write whole buffer"
  | other message => message

/--
A type whose values take bytes. A sink may be interrupted before it has taken any. It is then asked
again until it answers, and all of that is one write, so an interruption is no failure.
-/
class Sink (σ : Type) where
  /-- Offer bytes. The sink tells how many of them it took, from the front. -/
  write : σ → List UInt8 → Except WriteError Nat × σ

namespace Sink

variable {σ : Type} [Sink σ]

/--
Offer bytes until all are taken or a write fails. What a write leaves is offered in the next one. An
interruption does not end it, since a write is over only when the sink has answered.
-/
def writeAll (s : σ) (bytes : List UInt8) : Option WriteError × σ :=
  match bytes with
  | [] => (none, s)
  | b :: bs =>
    match write s (b :: bs) with
    | (.error e, s) => (some e, s)
    | (.ok 0, s) => (some .stalled, s)
    | (.ok (n + 1), s) => writeAll s (bs.drop n)
termination_by bytes.length
decreasing_by
  simp only [List.length_drop, List.length_cons]
  omega

/-- Write lines, each with a line feed behind it, until one cannot be written whole. -/
def writeLines (s : σ) : List String → Option WriteError × σ
  | [] => (none, s)
  | line :: lines =>
    match writeAll s (line ++ "\n").toUTF8.toList with
    | (some e, s) => (some e, s)
    | (none, s) => writeLines s lines

/-- Write each group of lines as far as it goes. The first failure is kept. -/
def writeGroups (s : σ) : List (List String) → Option WriteError × σ
  | [] => (none, s)
  | group :: groups =>
    let first := writeLines s group
    let others := writeGroups first.2 groups
    (first.1.or others.1, others.2)

end Sink

end LogicNet
