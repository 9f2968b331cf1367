import SpanCoverage.Host.Eval
import SpanCoverage.Injection.Program
import SpanCoverage.Payload.Memory

/-!
# Machines

A machine keeps loaded units, the payload slots of the instrumented ones, and what they printed.
The machines of one process share its heap of scopes and its payload memory. Loading instrumented
units under another module id than before gives the machine a fresh slot table; loading plain units
changes neither id nor slots.
-/

namespace SpanCoverage.Host

/-- What the machines of one process share. -/
structure Shared where
  heap : Heap := {}
  memory : Memory := {}

/-- A machine that runs loaded units. -/
structure Machine where
  /-- The id of the instrumented module loaded last. -/
  moduleId : ModuleId := .zero
  slots : SlotTable := {}
  code : Code := {}
  /-- The unit that a name stands for: the one loaded last. -/
  names : Assoc String MethodToken := {}
  output : Array String := #[]
  depth : Nat := 0

namespace Machine

/-! ## Loading -/

/-- The machine with one more unit, which replaces an earlier one of the same token or name. -/
def insert (m : Machine) (unit : CodeUnit) (payloadLength : Nat) : Machine :=
  { m with
    names := m.names.set unit.name unit.token
    code := { m.code with units := m.code.units.set unit.token ⟨unit, payloadLength⟩ } }

/-- Loads plain units with all units nested in them. -/
def loadPlain (m : Machine) (p : Program) : Machine :=
  p.allUnits.foldl (fun m u => m.insert u 0) m

/-- Loads one instrumented unit and declares its slot. -/
def loadUnit (m : Machine) (memory : Memory) (u : InstrumentedUnit) : Machine × Memory :=
  match u.slot with
  | some slot =>
    let (_, slots, memory) := m.slots.declare memory slot.token
    ({ m with slots := slots }.insert u.unit u.payloadLength, memory)
  | none => (m.insert u.unit u.payloadLength, memory)

/-- Loads instrumented units one after the other. -/
def loadUnits (m : Machine) (memory : Memory) : List InstrumentedUnit → Machine × Memory
  | [] => (m, memory)
  | u :: us =>
    let (m, memory) := m.loadUnit memory u
    m.loadUnits memory us

/-- Loads an instrumented program. -/
def load (m : Machine) (memory : Memory) (p : InstrumentedProgram) : Machine × Memory :=
  let m := if p.moduleId = m.moduleId then m else { m with slots := {}, moduleId := p.moduleId }
  m.loadUnits memory p.units

/-! ## Recording -/

/-- The recorder of a machine's runs: a unit without a slot records nothing, a unit with an empty
slot creates its payload, and a mark goes to the array in the unit's slot. -/
def recorder (m : Machine) : Recorder Memory where
  note _ memory := memory
  acquire token length memory :=
    match m.slots.get? token with
    | none => memory
    | some slot =>
      match memory.slotArray? slot with
      | some _ => memory
      | none => memory.acquire m.moduleId token slot length
  mark token span memory :=
    match (m.slots.get? token).bind memory.slotArray? with
    | some array => memory.mark array span
    | none => memory

/-! ## Calling -/

/-- What a call answers where its run ends so: an exception that nothing caught is a failure too. -/
def answerOf {α : Type} : Except Abort α → Except HostError α
  | .ok a => .ok a
  | .error (.thrown value) => .error (.uncaught value)
  | .error (.failed error) => .error error

/-- A run on a machine, with some record of it, as an operation on the machine, the heap and the
record. No answer means that the fuel did not suffice. -/
def perform {σ α : Type} (m : Machine) (heap : Heap) (record : σ) (run : Run σ α) :
    Option (Except HostError α × Machine × Heap × σ) :=
  match run ⟨heap, m.output, m.depth, record⟩ with
  | (none, _) => none
  | (some outcome, w) =>
    some (answerOf outcome, { m with output := w.output, depth := w.depth }, w.heap, w.record)

/-- Calls a value. The call itself is free; no answer means that the fuel did not suffice for the
steps of its run. -/
def apply (m : Machine) (shared : Shared) (callee : Value) (args : List Value) (fuel : Nat) :
    Option (Except HostError Value × Machine × Shared) :=
  match m.perform shared.heap shared.memory
    ((steps m.code m.recorder (fuel + 1)).call callee args) with
  | none => none
  | some (answer, m, heap, memory) => some (answer, m, ⟨heap, memory⟩)

/-- Calls the unit of a name. -/
def call (m : Machine) (shared : Shared) (name : String) (args : List Value) (fuel : Nat) :
    Option (Except HostError Value × Machine × Shared) :=
  match m.names.get? name with
  | some token => m.apply shared (.function token) args fuel
  | none => some (.error (.unknownFunction name), m, shared)

/-- The printed lines, and the machine without them. -/
def collectOutput (m : Machine) : List String × Machine :=
  (m.output.toList, { m with output := #[] })

end Machine

end SpanCoverage.Host
