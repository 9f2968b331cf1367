import SpanCoverage.Analysis.Survey
import SpanCoverage.Program.Listing
import SpanCoverage.Program.Nesting
import SpanCoverage.Span.Json

/-!
# Coverage maps

The map of a program holds the span table of each of its units, a unit before those nested in it,
which the survey of the unit finds. `Program.analyze` makes the map, and `CoverageMap.jsonText`
writes it out. The analysis refuses a program with an invalid unit and one in which two units have
the same token. Of several faults the first in the order of the units counts, where the tokens of a
top-level unit and all units nested in it are compared after each of them proved valid.
-/

namespace SpanCoverage

/-- A unit's identity and its span table. -/
structure UnitMap where
  token : MethodToken
  name : String
  kind : UnitKind
  spans : SpanTable

/-- The span tables of all units of a program. -/
structure CoverageMap where
  name : String := ""
  units : List UnitMap := []

/-! ## Analyzing -/

namespace CodeUnit

/-- The unit's span table, which numbers its live points. -/
def spanMap (u : CodeUnit) : UnitMap := ⟨u.token, u.name, u.kind, .ofPoints u.points⟩

/-- What the analysis of one unit gives: its span table, and the units whose turn is next. -/
structure Analyzed where
  own : UnitMap
  nested : List CodeUnit

/-- The unit's span table and the units nested in it, as a survey finds them, or the first thing
that is wrong with the unit. -/
def analyzeParted (u : CodeUnit) : Except AnalysisError Analyzed :=
  match u.defects with
  | [] => .ok ⟨⟨u.token, u.name, u.kind, .ofPoints u.survey.points⟩, u.survey.nested⟩
  | e :: _ => .error e

/-- The unit's span table, or the first thing that is wrong with the unit. -/
def analyze (u : CodeUnit) : Except AnalysisError UnitMap := Analyzed.own <$> u.analyzeParted

theorem analyzeParted_eq_ok_iff {u : CodeUnit} {found : Analyzed} :
    u.analyzeParted = .ok found ↔ u.defects = [] ∧ found = ⟨u.spanMap, u.root.directUnits⟩ := by
  rw [analyzeParted, spanMap, u.points_survey, u.nested_survey]
  cases u.defects with
  | nil => simp [eq_comm]
  | cons e es => simp

/-- The span tables of the unit and of every unit nested in it: the unit comes first, and then the
units that its survey came upon, each with those nested in it. -/
def analyzeAll (u : CodeUnit) : Except AnalysisError (List UnitMap) :=
  match _h : u.analyzeParted with
  | .error e => .error e
  | .ok found => do
    let rest ← found.nested.attach.mapM fun ⟨v, _⟩ => v.analyzeAll
    return found.own :: rest.flatten
termination_by u.all.length
decreasing_by
  obtain ⟨-, rfl⟩ := analyzeParted_eq_ok_iff.1 _h
  exact length_all_lt ‹_›

/-- **The analysis goes through the units in the order of `all`**, whatever it finds. -/
theorem analyzeAll_eq (u : CodeUnit) : u.analyzeAll = u.all.mapM analyze := by
  refine eq_mapM_all (fun u => ?_) u
  rw [analyzeAll, analyze]
  split
  · rename_i h
    rw [h]
    rfl
  · rename_i found h
    obtain ⟨-, rfl⟩ := analyzeParted_eq_ok_iff.1 h
    simp only [List.mapM_subtype, List.unattach_attach, bind_pure_comp, h, bind_map_left]
    rfl

end CodeUnit

namespace Program

/-- Maps of units added behind others, unless a token comes twice. -/
def addUnits (known : List UnitMap) : List UnitMap → Except AnalysisError (List UnitMap)
  | [] => .ok known
  | u :: us =>
    if known.any (·.token == u.token) then .error (.duplicateToken u.token)
    else addUnits (known ++ [u]) us

/-- The maps of top-level units and all units nested in them, behind those already known. -/
def analyzeUnits (known : List UnitMap) : List CodeUnit → Except AnalysisError (List UnitMap)
  | [] => .ok known
  | u :: us =>
    match u.analyzeAll with
    | .error e => .error e
    | .ok units =>
      match addUnits known units with
      | .error e => .error e
      | .ok known => analyzeUnits known us

/-- The span tables of every unit of the program, or the first fault. -/
def analyze (p : Program) : Except AnalysisError CoverageMap :=
  match analyzeUnits [] p.units with
  | .ok units => .ok ⟨p.name, units⟩
  | .error e => .error e

end Program

/-! ## Looking up -/

namespace CoverageMap

/-- The unit with a token. -/
def unit? (m : CoverageMap) (token : MethodToken) : Option UnitMap :=
  m.units.find? (·.token == token)

/-- The first unit with a name. -/
def unitByName? (m : CoverageMap) (name : String) : Option UnitMap :=
  m.units.find? (·.name == name)

end CoverageMap

/-! ## Writing -/

/-- A unit's spans in a listing. -/
def UnitMap.listing (u : UnitMap) : String :=
  unlines (("; spans of " ++ u.kind.text ++ " " ++ u.name ++ " [" ++ u.token.text ++ "]")
    :: u.spans.spans.map fun s => "  " ++ s.text)

/-- A unit as a JSON object. -/
def UnitMap.toJson (u : UnitMap) : Json :=
  .ofMembers [("token", .ofNat u.token.raw.toNat), ("name", .ofText u.name),
    ("kind", .ofText u.kind.longName), ("spans", u.spans.toJson)]

/-- The map as a JSON text: every unit's spans with their source ranges, over indented lines. -/
def CoverageMap.jsonText (m : CoverageMap) : String :=
  String.ofList <| Json.pretty 0 <|
    .ofMembers [("name", .ofText m.name), ("units", .arr (m.units.map UnitMap.toJson))]

end SpanCoverage
