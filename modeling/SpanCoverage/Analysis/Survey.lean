import SpanCoverage.Analysis.Points

/-!
# Surveys

Once it is known which labels are entered, the analysis goes over a tree and finds three things on
the way: how control leaves it, which of its points live code reaches, and which units are nested in
it, in live code and in code that is never reached. `Analysis.exits` and `Analysis.points` say the
first two one by one. Main statement: `Analysis.survey_eq`, by which a survey finds these, and the
units that `Node.directUnits` lists.
-/

namespace SpanCoverage

namespace Analysis

/-- What is found on the way over a piece of code. -/
structure Survey where
  exits : Exits
  /-- The live points, in the order in which they are evaluated. -/
  points : List Point := []
  /-- The units at whose boundaries the way leads past. -/
  nested : List CodeUnit := []

mutual

/-- The survey of a node's tree, where `site` is the node's own site. -/
def survey (entered : List String) (live : Bool) (site : Nat) : Node → Survey
  | .stmt s range => { exits := stmtExits live s, points := mark live .statement site range }
  | .seq children => surveyAll entered live (site + 1) children
  | .branch c t e range =>
    let yes := survey entered (live && c.knownTruth != some false) (site + 1) t
    let no := survey? entered (live && c.knownTruth != some true) (site + 1 + t.siteCount) e
    { exits := yes.exits.orElse no.exits
      points := mark live .condition site range ++ yes.points ++ no.points
      nested := yes.nested ++ no.nested }
  | .loop test i c u b range =>
    let bodySite := site + 1 + Node.siteCount? i
    let start := survey? entered live (site + 1) i
    let body := survey entered (bodyLive test c start.exits.falls) bodySite b
    let update := survey? entered (updateLive body.exits) (bodySite + b.siteCount) u
    let tested := headerLive test start.exits.falls update.exits
    let header := mark tested .loopHeader site range
    let rounds := body.points ++ update.points
    { exits := {
        falls := (tested && c.knownTruth != some true) || body.exits.breaks || update.exits.breaks
        breaks := start.exits.breaks
        continues := start.exits.continues
        jumps := start.exits.jumps ++ body.exits.jumps ++ update.exits.jumps }
      points := start.points
        ++ match test with
          | .before => header ++ rounds
          | .after => rounds ++ header
      nested := start.nested ++ body.nested ++ update.nested }
  | .switch _ arms range =>
    let inside := surveyArms entered live (site + 1) arms
    { exits := {
        falls := (live && arms.all fun arm => arm.case.isSome) || inside.exits.falls
          || inside.exits.breaks
        continues := inside.exits.continues
        jumps := inside.exits.jumps }
      points := mark live .condition site range ++ inside.points
      nested := inside.nested }
  | .attempt b handlers f _ =>
    let finallySite := site + 1 + b.siteCount + Node.siteCountHandlers handlers
    let body := survey entered live (site + 1) b
    let handled := surveyHandlers entered live (site + 1 + b.siteCount) handlers
    let cleanup := survey? entered live finallySite f
    let inside := body.exits.orElse handled.exits
    { exits := { inside.andThen cleanup.exits with
        falls := inside.falls && (f.isNone || cleanup.exits.falls) }
      points := body.points ++ handled.points ++ markFinally live finallySite f ++ cleanup.points
      nested := body.nested ++ handled.nested ++ cleanup.nested }
  | .guarded _ _ b range =>
    let body := survey entered live (site + 1) b
    { body with points := mark live .scopeAcquire site range ++ body.points }
  | .label name range =>
    let reached := live || entered.contains name
    { exits := { falls := reached }, points := mark reached .label site range }
  | .nested header root => { exits := { falls := live }, nested := [⟨header, root⟩] }
  | .probe _ | .acquire => { exits := { falls := live } }

/-- The survey of a sequence's children, where `site` is the site of the first. -/
def surveyAll (entered : List String) (live : Bool) (site : Nat) : List Node → Survey
  | [] => { exits := { falls := live } }
  | n :: ns =>
    let first := survey entered live site n
    let rest := surveyAll entered first.exits.falls (site + n.siteCount) ns
    ⟨first.exits.andThen rest.exits, first.points ++ rest.points, first.nested ++ rest.nested⟩

/-- The survey of a child that may be missing. -/
def survey? (entered : List String) (live : Bool) (site : Nat) : Option Node → Survey
  | some n => survey entered live site n
  | none => { exits := { falls := live } }

/-- The survey of switch arms; an arm's entry has the site of its body. -/
def surveyArms (entered : List String) (live : Bool) (site : Nat) : List Arm → Survey
  | [] => { exits := { falls := false } }
  | ⟨_, body, range⟩ :: arms =>
    let first := survey entered live site body
    let rest := surveyArms entered live (site + body.siteCount) arms
    ⟨first.exits.orElse rest.exits,
      mark live .switchArm site range ++ first.points ++ rest.points,
      first.nested ++ rest.nested⟩

/-- The survey of handlers; a handler's entry has the site of its body. -/
def surveyHandlers (entered : List String) (live : Bool) (site : Nat) : List Handler → Survey
  | [] => { exits := { falls := false } }
  | ⟨_, body, range⟩ :: handlers =>
    let first := survey entered live site body
    let rest := surveyHandlers entered live (site + body.siteCount) handlers
    ⟨first.exits.orElse rest.exits,
      mark live .catchEntry site range ++ first.points ++ rest.points,
      first.nested ++ rest.nested⟩

end

mutual

/-- A survey finds how control leaves a tree, its live points, and the units nested in it. -/
theorem survey_eq (entered : List String) : ∀ (n : Node) (live : Bool) (site : Nat),
    survey entered live site n =
      ⟨exits entered live n, points entered live site n, n.directUnits⟩
  | .stmt .., _, _ | .label .., _, _ | .nested .., _, _ | .probe _, _, _ | .acquire, _, _ => rfl
  | .seq ns, live, site => surveyAll_eq entered ns live (site + 1)
  | .branch _ t e _, _, _ => by
    simp only [survey, survey_eq entered t, survey?_eq entered e]
    rfl
  | .loop _ i _ u b _, _, _ => by
    simp only [survey, survey?_eq entered i, survey_eq entered b, survey?_eq entered u]
    rfl
  | .switch _ arms _, _, _ => by
    simp only [survey, surveyArms_eq entered arms]
    rfl
  | .attempt b handlers f _, _, _ => by
    simp only [survey, survey_eq entered b, surveyHandlers_eq entered handlers,
      survey?_eq entered f]
    rfl
  | .guarded _ _ b _, _, _ => by
    simp only [survey, survey_eq entered b]
    rfl

theorem surveyAll_eq (entered : List String) : ∀ (ns : List Node) (live : Bool) (site : Nat),
    surveyAll entered live site ns =
      ⟨exitsAll entered live ns, pointsAll entered live site ns, Node.directUnitsAll ns⟩
  | [], _, _ => rfl
  | n :: ns, _, _ => by
    simp only [surveyAll, survey_eq entered n, surveyAll_eq entered ns]
    rfl

theorem survey?_eq (entered : List String) : ∀ (e : Option Node) (live : Bool) (site : Nat),
    survey? entered live site e =
      ⟨exits? entered live e, points? entered live site e, Node.directUnits? e⟩
  | none, _, _ => rfl
  | some n, live, site => survey_eq entered n live site

theorem surveyArms_eq (entered : List String) : ∀ (arms : List Arm) (live : Bool) (site : Nat),
    surveyArms entered live site arms =
      ⟨exitsArms entered live arms, pointsArms entered live site arms, Node.directUnitsArms arms⟩
  | [], _, _ => rfl
  | ⟨_, body, _⟩ :: arms, _, _ => by
    simp only [surveyArms, survey_eq entered body, surveyArms_eq entered arms]
    rfl

theorem surveyHandlers_eq (entered : List String) :
    ∀ (handlers : List Handler) (live : Bool) (site : Nat),
    surveyHandlers entered live site handlers =
      ⟨exitsHandlers entered live handlers, pointsHandlers entered live site handlers,
        Node.directUnitsHandlers handlers⟩
  | [], _, _ => rfl
  | ⟨_, body, _⟩ :: handlers, _, _ => by
    simp only [surveyHandlers, survey_eq entered body, surveyHandlers_eq entered handlers]
    rfl

end

end Analysis

/-- The survey of a unit, whose entry is its first point. -/
def CodeUnit.survey (u : CodeUnit) : Analysis.Survey :=
  let body := Analysis.survey (Analysis.enteredLabels u.root) true 0 u.root
  { body with points := ⟨.entry, 0, u.range⟩ :: body.points }

theorem CodeUnit.points_survey (u : CodeUnit) : u.survey.points = u.points := by
  rw [survey, Analysis.survey_eq, points]

theorem CodeUnit.nested_survey (u : CodeUnit) : u.survey.nested = u.root.directUnits := by
  rw [survey, Analysis.survey_eq]

end SpanCoverage
