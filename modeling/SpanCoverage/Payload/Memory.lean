import SpanCoverage.Assoc
import SpanCoverage.Identity
import SpanCoverage.Payload.Report

/-!
# Payload memory

The store that instrumented units call into. An **array** has one cell for each span of a unit. A
**slot** is where a unit keeps its array; it is filled once and for ever. The **registry** knows,
for the module it observed last, the array of every method index, and forgets them all when it
observes another module. `Memory.acquire` fills an empty slot with a fresh array and enters
it in the registry; `Memory.flush` reports and clears every array of the registry. Arrays and slots
are named by their places in the store.
-/

namespace SpanCoverage

/-- The name of an array. -/
abbrev ArrayId := Nat

/-- The name of a slot. -/
abbrev SlotId := Nat

/-! ## Arrays -/

/-- Why an array cannot be made. -/
inductive PayloadError where
  | tooLarge (length limit : Nat)
  | allocationFailed (length : Nat)
deriving DecidableEq, Repr

/-- What is said of an array that cannot be made. -/
def PayloadError.message : PayloadError → String
  | .tooLarge length limit =>
    "Payload length " ++ toString length ++ " exceeds limit of " ++ toString limit ++ " cells"
  | .allocationFailed length => "Failed to allocate payload of " ++ toString length ++ " cells"

/-- No store can hold as many cells as this. -/
def allocationBound : Nat := 0x8000000000000000

/-- The cells of a fresh array, if the length is within the limit and can be allocated at all. -/
def freshCells (length limit : Nat) : Except PayloadError (List Bool) :=
  if limit < length then .error (.tooLarge length limit)
  else if allocationBound ≤ length then .error (.allocationFailed length)
  else .ok (List.replicate length false)

/-! ## Registry -/

/-- What a registry holds for the module it observes. -/
structure Generation where
  module : ModuleId
  /-- The arrays by method index, in increasing order of the index. -/
  table : List (UInt32 × ArrayId) := []
deriving DecidableEq, Repr

/-- The arrays of the module observed last. -/
structure Registry where
  /-- The greatest length of an array that a unit can have. -/
  limit : Nat := 0x1000000
  /-- Nothing before the first module is observed. -/
  current : Option Generation := none
deriving DecidableEq, Repr

namespace Registry

/-- The rows of a table, one of them replaced or added at its place in the order. -/
def insertRow (index : UInt32) (array : ArrayId) : List (UInt32 × ArrayId) → List (UInt32 × ArrayId)
  | [] => [(index, array)]
  | (i, a) :: rest =>
    if index < i then (index, array) :: (i, a) :: rest
    else if index = i then (index, array) :: rest
    else (i, a) :: insertRow index array rest

/-- The rows held for the current module. -/
def table (r : Registry) : List (UInt32 × ArrayId) :=
  match r.current with
  | some g => g.table
  | none => []

/-- The module observed last. -/
def module? (r : Registry) : Option ModuleId := r.current.map Generation.module

/-- The array under a token's method index. -/
def get? (r : Registry) (token : MethodToken) : Option ArrayId :=
  Assoc.find? token.methodIndex r.table

/-- The registry after a call for a module: another module than the current one starts anew. -/
def observe (r : Registry) (module : ModuleId) : Registry :=
  if r.module? = some module then r else { r with current := some ⟨module, []⟩ }

/-- The registry with an array entered under a token's method index. -/
def register (r : Registry) (token : MethodToken) (array : ArrayId) : Registry :=
  match r.current with
  | some g =>
    { r with current := some { g with table := insertRow token.methodIndex array g.table } }
  | none => r

end Registry

/-! ## Memory -/

/-- The arrays and slots of a process, and its registry. -/
structure Memory where
  arrays : Array (List Bool) := #[]
  slots : Array (Option ArrayId) := #[]
  registry : Registry := {}
deriving Repr

namespace Memory

/-- The memory of a process whose registry has this limit. -/
def withLimit (limit : Nat) : Memory := { registry := { limit := limit } }

/-- The memory whose registry a whole process shares; its limit is the one that holds by default. -/
def processWide : Memory := {}

/-- A new array with these cells. -/
def newArray (m : Memory) (cells : List Bool) : ArrayId × Memory :=
  (m.arrays.size, { m with arrays := m.arrays.push cells })

/-- A new, empty slot. -/
def newSlot (m : Memory) : SlotId × Memory :=
  (m.slots.size, { m with slots := m.slots.push none })

/-- The cells of an array. -/
def cells (m : Memory) (array : ArrayId) : List Bool := m.arrays.getD array []

/-- The array in a slot. -/
def slotArray? (m : Memory) (slot : SlotId) : Option ArrayId := m.slots.getD slot none

/-- Visits a cell. An index behind the last cell changes nothing. -/
def mark (m : Memory) (array : ArrayId) (index : Nat) : Memory :=
  { m with arrays := m.arrays.modify array (·.set index true) }

/-- Whether a cell was visited. -/
def isMarked (m : Memory) (array : ArrayId) (index : Nat) : Bool := (m.cells array).getD index false

/-- Reads an array's cells and clears them. -/
def drain (m : Memory) (array : ArrayId) : List Bool × Memory :=
  (m.cells array,
    { m with arrays := m.arrays.modify array fun cells => List.replicate cells.length false })

/-- Puts an array into a slot that is still empty. -/
def install (m : Memory) (slot : SlotId) (array : ArrayId) : Memory :=
  match m.slotArray? slot with
  | some _ => m
  | none => { m with slots := m.slots.setIfInBounds slot (some array) }

/-- The call of a unit that finds its slot empty: observes the unit's module, then fills the slot
with a fresh array and registers it. A slot that is filled stays as it is, and an array that cannot
be made leaves the slot empty. -/
def acquire (m : Memory) (module : ModuleId) (token : MethodToken) (slot : SlotId)
    (length : Nat) : Memory :=
  let m := { m with registry := m.registry.observe module }
  match m.slotArray? slot with
  | some _ => m
  | none =>
    match freshCells length m.registry.limit with
    | .error _ => m
    | .ok cells =>
      let (array, m) := m.newArray cells
      let m := m.install slot array
      { m with registry := m.registry.register token array }

/-- Drains the arrays of a table, row by row. -/
def drainRows (m : Memory) : List (UInt32 × ArrayId) → List ReportRow × Memory
  | [] => ([], m)
  | (index, array) :: rest =>
    let (hits, m) := m.drain array
    let (rows, m) := m.drainRows rest
    (⟨index, hits⟩ :: rows, m)

/-- Reports and clears every registered array, in increasing order of the method index. -/
def flush (m : Memory) : Report × Memory :=
  let (rows, m) := m.drainRows m.registry.table
  (⟨rows⟩, m)

end Memory

/-! ## Slot tables -/

/-- The slots that one machine keeps for its units. -/
abbrev SlotTable := Assoc MethodToken SlotId

/-- The slot of a token, made now if it has none yet. -/
def SlotTable.declare (t : SlotTable) (m : Memory) (token : MethodToken) :
    SlotId × SlotTable × Memory :=
  match t.get? token with
  | some slot => (slot, t, m)
  | none =>
    let (slot, m) := m.newSlot
    (slot, t.set token slot, m)

end SpanCoverage
