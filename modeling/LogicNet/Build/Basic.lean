import LogicNet.Build.Event
import LogicNet.Network.Builder
import LogicNet.Outline.Basic

/-!
# Building from an outline

The declarations of an outline are handed to a builder, one after the other. Three rules keep one
mistake from being told twice:

* after a fault that leaves the rest of the file in doubt, nothing is built any more;
* a connection or monitor that names a rejected device is passed over;
* the network is checked for open inputs only if nothing was wrong before.
-/

namespace LogicNet

variable {β : Type}

/-- Where building stands. -/
structure Progress (β : Type) where
  builder : β
  /-- The devices whose last declaration the builder refused, a second declaration apart. -/
  rejected : List NameId
  /-- Whether nothing is built any more. -/
  blocked : Bool
  /-- How many diagnostics were made. -/
  errors : Nat

namespace Progress

/-- Before the first item. -/
def start (builder : β) : Progress β := ⟨builder, [], false, 0⟩

/-- Make a diagnostic. -/
def note (p : Progress β) (kind : ErrorKind) : Progress β :=
  { p with blocked := p.blocked || kind.blocksBuilding, errors := p.errors + 1 }

variable [NetworkBuilder β]

/-- Hand a device to the builder. -/
def device (ids : String → NameId) (p : Progress β) (d : DeviceDecl) :
    List Event × Progress β :=
  let name := ids d.name.text
  let kind := ids d.kind.text
  let qualifier : Option Int := d.qualifier.map fun n => n.value
  let call := Call.device name kind qualifier
  match NetworkBuilder.makeDevice p.builder name kind qualifier with
  | (.ok (), builder) =>
    ([.called call none], { p with builder, rejected := p.rejected.filter (· != name) })
  | (.error e, builder) =>
    let rejected := if e = .devicePresent then p.rejected else name :: p.rejected
    ([.called call (some (.device e)), .reported ⟨.device e, d.anchor e⟩],
      { p with builder, rejected }.note (.device e))

/-- Hand a connection to the builder. -/
def connection (ids : String → NameId) (p : Progress β) (d : ConnectionDecl) :
    List Event × Progress β :=
  let outDevice := ids d.outDevice.text
  let outPin := d.outPin.map fun w => ids w.text
  let inDevice := ids d.inDevice.text
  let inPin := some (ids d.inPin.text)
  let call := Call.connection outDevice outPin inDevice inPin
  if outDevice ∈ p.rejected ∨ inDevice ∈ p.rejected then ([], p)
  else
    match NetworkBuilder.makeConnection p.builder outDevice outPin inDevice inPin with
    | (.ok (), builder) => ([.called call none], { p with builder })
    | (.error e, builder) =>
      ([.called call (some (.connection e)), .reported ⟨.connection e, d.anchor e⟩],
        { p with builder }.note (.connection e))

/-- Hand a monitor to the builder. -/
def monitor (ids : String → NameId) (p : Progress β) (d : MonitorDecl) :
    List Event × Progress β :=
  let device := ids d.device.text
  let pin := d.pin.map fun w => ids w.text
  let call := Call.monitor device pin
  if device ∈ p.rejected then ([], p)
  else
    match NetworkBuilder.makeMonitor p.builder device pin with
    | (.ok (), builder) => ([.called call none], { p with builder })
    | (.error e, builder) =>
      ([.called call (some (.monitor e)), .reported ⟨.monitor e, d.anchor e⟩],
        { p with builder }.note (.monitor e))

/-- Hand a declaration to the builder. -/
def declare (ids : String → NameId) (p : Progress β) : Declaration → List Event × Progress β
  | .device d => p.device ids d
  | .connection d => p.connection ids d
  | .monitor d => p.monitor ids d

/-- At the end of the connections, ask whether any input is left open. -/
def check (p : Progress β) (last : Token) : List Event × Progress β :=
  if NetworkBuilder.isComplete p.builder then ([.checked true], p)
  else
    ([.checked false, .reported ⟨.syntactic .incompleteNetwork, .token last⟩],
      p.note (.syntactic .incompleteNetwork))

/-- Deal with one item of an outline. -/
def step (ids : String → NameId) (p : Progress β) : Item → List Event × Progress β
  | .opened _ => ([], p)
  | .declared d => if p.blocked then ([], p) else p.declare ids d
  | .closed b last => if b = .connections ∧ p.errors = 0 then p.check last else ([], p)
  | .fault error symbol =>
    ([.reported ⟨.syntactic error, symbol⟩], p.note (.syntactic error))

/-- Deal with the items of an outline. -/
def steps (ids : String → NameId) (p : Progress β) : List Item → List Event × Progress β
  | [] => ([], p)
  | item :: items =>
    let first := p.step ids item
    let others := first.2.steps ids items
    (first.1 ++ others.1, others.2)

@[simp] theorem steps_nil (ids : String → NameId) (p : Progress β) : p.steps ids [] = ([], p) :=
  rfl

theorem steps_append (ids : String → NameId) (p : Progress β) (as bs : List Item) :
    p.steps ids (as ++ bs) =
      ((p.steps ids as).1 ++ ((p.steps ids as).2.steps ids bs).1,
        ((p.steps ids as).2.steps ids bs).2) := by
  induction as generalizing p with
  | nil => rfl
  | cons a as ih => simp [steps, ih]

end Progress

end LogicNet
