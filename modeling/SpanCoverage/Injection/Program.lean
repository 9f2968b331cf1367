import SpanCoverage.Analysis.CoverageMap
import SpanCoverage.Injection.Rewrite

/-!
# Injection into programs

`Program.instrument` turns every unit of a program into one that records its visits: each span of
the unit's table gets its probe, and the unit declares a payload with one cell for each span. It
fails where a unit has no table, and where a span of the table finds no point to put its probe.
With instrumentation switched off the units pass through, parted from the units nested in them, and
nothing can fail. The units that a rewriting takes out of a unit are those that come next. Main
statements: `CodeUnit.instrumentAll_eq` and `Program.instrument_eq`, which say in which order the
units of a program get their turn.
-/

namespace SpanCoverage

/-! ## Results -/

/-- What a compiler asks of the injection. -/
structure InjectionOptions where
  /-- The id under which payloads are created. -/
  moduleId : ModuleId := .zero
  /-- Whether units get probes at all. -/
  enabled : Bool := true
deriving DecidableEq, Repr

/-- The payload that a unit declares. -/
structure PayloadDecl where
  token : MethodToken
  /-- The number of cells, one for each span. -/
  length : Nat
deriving DecidableEq, Repr

/-- A unit after injection, without the units that were nested in it. -/
structure InstrumentedUnit where
  unit : CodeUnit
  slot : Option PayloadDecl
  /-- The version of the calls through which the unit creates and reports payloads. -/
  contractVersion : Nat

/-- All units of a program after injection, a unit before those that were nested in it. -/
structure InstrumentedProgram where
  name : String
  moduleId : ModuleId
  units : List InstrumentedUnit

/-- Why a program cannot be instrumented. -/
inductive InjectionError where
  | missingSpanTable (unit : String) (token : MethodToken)
  | unplacedSpan (unit : String) (index : Nat)
deriving DecidableEq, Repr

/-- What is said of a program that cannot be instrumented. -/
def InjectionError.message : InjectionError → String
  | .missingSpanTable unit token => "No span table for unit " ++ unit ++ " (" ++ token.text ++ ")"
  | .unplacedSpan unit index =>
    "Span " ++ toString index ++ " of " ++ unit ++ " received no probe"

/-- The version of the calls that instrumented units make. -/
def contractVersion : Nat := 1

/-- The number of cells that a unit's payload has. -/
def InstrumentedUnit.payloadLength (u : InstrumentedUnit) : Nat :=
  match u.slot with
  | some slot => slot.length
  | none => 0

/-! ## Placing a table's spans -/

namespace SpanTable

/-- The placement of a table's spans. Where two spans claim one point, the later one has it. -/
def placement (t : SpanTable) : Placement := fun site kind =>
  ((t.spans.filter fun s => s.site == site && s.kind == kind).getLast?).map Span.index

/-- The spans that get a probe at one of the points. -/
def placed (t : SpanTable) (points : List (Nat × SpanKind)) : List Nat :=
  points.filterMap fun p => t.placement p.1 p.2

/-- The first span without a probe at any of the points. -/
def unplaced? (t : SpanTable) (points : List (Nat × SpanKind)) : Option Nat :=
  let placed := t.placed points
  (List.range t.size).find? fun index => !placed.contains index

end SpanTable

/-! ## Instrumenting -/

namespace CodeUnit

/-- The points of a unit that can take a probe: its entry, and those of its body. -/
def probePoints (u : CodeUnit) : List (Nat × SpanKind) :=
  (0, .entry) :: Injection.probePoints 0 u.root

/-- One unit after injection, and the units whose turn is next. -/
structure Parted where
  own : InstrumentedUnit
  nested : List CodeUnit

/-- The unit with a probe for each span of a table, and the units that were nested in it. -/
def injectParted (u : CodeUnit) (table : SpanTable) : Except InjectionError Parted :=
  match table.unplaced? u.probePoints with
  | some index => .error (.unplacedSpan u.name index)
  | none =>
    let root := Injection.rewriteRoot table.placement u.root
    .ok {
      own := {
        unit := { u with root := root.code }
        slot := some ⟨u.token, table.size⟩
        contractVersion := SpanCoverage.contractVersion }
      nested := root.nested }

/-- The unit with a probe for each span of a table. -/
def inject (u : CodeUnit) (table : SpanTable) : Except InjectionError InstrumentedUnit :=
  Parted.own <$> u.injectParted table

/-- The unit as it is, and the units that were nested in it. -/
def partWithoutProbes (u : CodeUnit) : Parted :=
  let root := Injection.partRoot u.root
  { own := {
      unit := { u with root := root.code }
      slot := none
      contractVersion := SpanCoverage.contractVersion }
    nested := root.nested }

/-- The unit as it is, without the units nested in it. -/
def withoutProbes (u : CodeUnit) : InstrumentedUnit := u.partWithoutProbes.own

/-- One unit, by the options and a coverage map, and the units that were nested in it. -/
def instrumentParted (options : InjectionOptions) (coverage : CoverageMap) (u : CodeUnit) :
    Except InjectionError Parted :=
  if options.enabled then
    match coverage.unit? u.token with
    | some known => u.injectParted known.spans
    | none => .error (.missingSpanTable u.name u.token)
  else .ok u.partWithoutProbes

/-- One unit, by the options and a coverage map. -/
def instrument (options : InjectionOptions) (coverage : CoverageMap) (u : CodeUnit) :
    Except InjectionError InstrumentedUnit :=
  Parted.own <$> u.instrumentParted options coverage

/-! ### One unit -/

theorem injectParted_of_some {u : CodeUnit} {table : SpanTable} {index : Nat}
    (h : table.unplaced? u.probePoints = some index) :
    u.injectParted table = .error (.unplacedSpan u.name index) := by
  rw [injectParted, h]

theorem injectParted_of_none {u : CodeUnit} {table : SpanTable}
    (h : table.unplaced? u.probePoints = none) :
    u.injectParted table =
      .ok ⟨⟨{ u with root := Injection.spliceRoot table.placement u.root },
        some ⟨u.token, table.size⟩, contractVersion⟩, u.root.directUnits⟩ := by
  simp only [injectParted, h, Injection.rewriteRoot_eq]

theorem inject_of_some {u : CodeUnit} {table : SpanTable} {index : Nat}
    (h : table.unplaced? u.probePoints = some index) :
    u.inject table = .error (.unplacedSpan u.name index) := by
  rw [inject, injectParted_of_some h]
  rfl

theorem inject_of_none {u : CodeUnit} {table : SpanTable}
    (h : table.unplaced? u.probePoints = none) :
    u.inject table =
      .ok ⟨{ u with root := Injection.spliceRoot table.placement u.root },
        some ⟨u.token, table.size⟩, contractVersion⟩ := by
  rw [inject, injectParted_of_none h]
  rfl

theorem partWithoutProbes_eq (u : CodeUnit) :
    u.partWithoutProbes = ⟨u.withoutProbes, u.root.directUnits⟩ := by
  rw [withoutProbes, partWithoutProbes, Injection.partRoot_eq]

theorem unit_withoutProbes (u : CodeUnit) :
    u.withoutProbes = ⟨{ u with root := Injection.stripBoundaries u.root }, none,
      contractVersion⟩ := by
  rw [withoutProbes, partWithoutProbes, Injection.partRoot_eq]

section Instrument

variable {options : InjectionOptions} {coverage : CoverageMap} {u : CodeUnit}

theorem instrument_of_known (henabled : options.enabled = true) {known : UnitMap}
    (h : coverage.unit? u.token = some known) :
    u.instrument options coverage = u.inject known.spans := by
  simp only [instrument, instrumentParted, if_pos henabled, h, inject]

theorem instrument_of_missing (henabled : options.enabled = true)
    (h : coverage.unit? u.token = none) :
    u.instrument options coverage = .error (.missingSpanTable u.name u.token) := by
  simp only [instrument, instrumentParted, if_pos henabled, h]
  rfl

theorem instrument_of_disabled (h : options.enabled = false) :
    u.instrument options coverage = .ok u.withoutProbes := by
  simp only [instrument, instrumentParted, h]
  rfl

/-- The units that come next are those nested in the unit. -/
theorem nested_of_instrumentParted {parted : Parted}
    (h : u.instrumentParted options coverage = .ok parted) :
    parted.nested = u.root.directUnits := by
  rw [instrumentParted] at h
  split at h
  · split at h
    · rename_i known _
      cases hplaced : known.spans.unplaced? u.probePoints with
      | some index =>
        rw [injectParted_of_some hplaced] at h
        cases h
      | none =>
        rw [injectParted_of_none hplaced] at h
        cases h
        rfl
    · cases h
  · rw [partWithoutProbes_eq] at h
    cases h
    rfl

end Instrument

/-! ### All units -/

/-- The unit and every unit nested in it: the unit comes first, and then the units that were taken
out of it, each with those nested in it. -/
def instrumentAll (options : InjectionOptions) (coverage : CoverageMap) (u : CodeUnit) :
    Except InjectionError (List InstrumentedUnit) :=
  match _h : u.instrumentParted options coverage with
  | .error e => .error e
  | .ok parted => do
    let rest ← parted.nested.attach.mapM fun ⟨v, _⟩ => v.instrumentAll options coverage
    return parted.own :: rest.flatten
termination_by u.all.length
decreasing_by
  rename_i hv
  rw [nested_of_instrumentParted _h] at hv
  exact length_all_lt hv

/-- **Injection goes through the units in the order of `all`**, whatever becomes of them. -/
theorem instrumentAll_eq (options : InjectionOptions) (coverage : CoverageMap) (u : CodeUnit) :
    u.instrumentAll options coverage = u.all.mapM (instrument options coverage) := by
  refine eq_mapM_all (fun u => ?_) u
  rw [instrumentAll, instrument]
  split
  · rename_i h
    rw [h]
    rfl
  · rename_i parted h
    simp only [List.mapM_subtype, List.unattach_attach, bind_pure_comp, h, bind_map_left,
      nested_of_instrumentParted h]
    rfl

end CodeUnit

/-- Every unit of the program, or the first failure. -/
def Program.instrument (options : InjectionOptions) (coverage : CoverageMap) (p : Program) :
    Except InjectionError InstrumentedProgram := do
  let units ← p.units.mapM (CodeUnit.instrumentAll options coverage)
  return ⟨p.name, options.moduleId, units.flatten⟩

/-- So it does in a program. -/
theorem Program.instrument_eq (options : InjectionOptions) (coverage : CoverageMap) (p : Program) :
    p.instrument options coverage = do
      let units ← p.allUnits.mapM (CodeUnit.instrument options coverage)
      return ⟨p.name, options.moduleId, units⟩ := by
  have hall : CodeUnit.instrumentAll options coverage =
      fun u => u.all.mapM (CodeUnit.instrument options coverage) :=
    funext (CodeUnit.instrumentAll_eq options coverage)
  rw [instrument, hall, allUnits, CodeUnit.mapM_flatMap]
  simp

namespace InstrumentedProgram

/-- The first unit with a token. -/
def unit? (p : InstrumentedProgram) (token : MethodToken) : Option InstrumentedUnit :=
  p.units.find? (·.unit.token == token)

/-- The first unit with a name. -/
def unitByName? (p : InstrumentedProgram) (name : String) : Option InstrumentedUnit :=
  p.units.find? (·.unit.name == name)

end InstrumentedProgram

/-! ## Listings -/

/-- A unit in a listing, behind a line on its payload. -/
def InstrumentedUnit.listing (u : InstrumentedUnit) : String :=
  (match u.slot with
    | some slot => "; payload " ++ toString slot.length ++ "\n"
    | none => "; not instrumented\n") ++ u.unit.listing

/-- A program after injection: its name and id, then each unit after an empty line. -/
def InstrumentedProgram.listing (p : InstrumentedProgram) : String :=
  unlines ["; module " ++ p.name ++ " id " ++ p.moduleId.text]
    ++ String.join (p.units.map fun u => "\n" ++ u.listing)

end SpanCoverage
