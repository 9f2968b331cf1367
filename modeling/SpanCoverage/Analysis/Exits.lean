import SpanCoverage.Program.Node

/-!
# How control leaves a piece of code

`Analysis.exits` sums up a node's control flow for the code around it: whether control can go on
behind it, whether a `break` or `continue` in it reaches the loop or switch around it, and which
labels its jumps name. Only live code counts, and a label is live if control falls into it or if it
is one of the labels assumed to be `entered`. A condition that constants decide closes the branch
it cannot take.
-/

namespace SpanCoverage.Analysis

/-- The ways in which control leaves a piece of code. -/
structure Exits where
  /-- Control can go on behind it. -/
  falls : Bool
  /-- A live `break` leaves the nearest loop or switch around it. -/
  breaks : Bool := false
  /-- A live `continue` goes on with the nearest loop around it. -/
  continues : Bool := false
  /-- The labels that live jumps name. -/
  jumps : List String := []
deriving DecidableEq, Repr

namespace Exits

/-- One piece of code after the other. -/
def andThen (x y : Exits) : Exits :=
  ⟨y.falls, x.breaks || y.breaks, x.continues || y.continues, x.jumps ++ y.jumps⟩

/-- One piece of code beside the other. -/
def orElse (x y : Exits) : Exits :=
  ⟨x.falls || y.falls, x.breaks || y.breaks, x.continues || y.continues, x.jumps ++ y.jumps⟩

end Exits

/-- How control leaves a statement. -/
def stmtExits (live : Bool) : Stmt → Exits
  | .leave => { falls := false, breaks := live }
  | .next => { falls := false, continues := live }
  | .goto label => { falls := false, jumps := if live then [label] else [] }
  | s => { falls := live && s.fallsThrough }

/-! ## Where a loop is live -/

/-- Whether a loop's body is entered, if control comes to the loop's start or not. -/
def bodyLive (test : TestTime) (cond : Expr) (start : Bool) : Bool :=
  match test with
  | .before => start && cond.knownTruth != some false
  | .after => start

/-- Whether a loop's update is entered, by what leaves the body. -/
def updateLive (body : Exits) : Bool := body.falls || body.continues

/-- Whether a loop's condition is evaluated: before the first round, or behind the update. -/
def headerLive (test : TestTime) (start : Bool) (update : Exits) : Bool :=
  match test with
  | .before => start
  | .after => update.falls

/-! ## Trees -/

mutual

/-- How control leaves a node that is live or not. -/
def exits (entered : List String) (live : Bool) : Node → Exits
  | .stmt s _ => stmtExits live s
  | .seq children => exitsAll entered live children
  | .branch c t e _ =>
    (exits entered (live && c.knownTruth != some false) t).orElse
      (exits? entered (live && c.knownTruth != some true) e)
  | .loop test i c u b _ =>
    let start := exits? entered live i
    let body := exits entered (bodyLive test c start.falls) b
    let update := exits? entered (updateLive body) u
    { falls := (headerLive test start.falls update && c.knownTruth != some true)
        || body.breaks || update.breaks
      breaks := start.breaks
      continues := start.continues
      jumps := start.jumps ++ body.jumps ++ update.jumps }
  | .switch _ arms _ =>
    let inside := exitsArms entered live arms
    { falls := (live && arms.all fun arm => arm.case.isSome) || inside.falls || inside.breaks
      continues := inside.continues
      jumps := inside.jumps }
  | .attempt b handlers f _ =>
    let inside := (exits entered live b).orElse (exitsHandlers entered live handlers)
    let cleanup := exits? entered live f
    { inside.andThen cleanup with falls := inside.falls && (f.isNone || cleanup.falls) }
  | .guarded _ _ b _ => exits entered live b
  | .label name _ => { falls := live || entered.contains name }
  | .nested .. | .probe _ | .acquire => { falls := live }

/-- How control leaves a sequence of nodes. -/
def exitsAll (entered : List String) (live : Bool) : List Node → Exits
  | [] => { falls := live }
  | n :: ns =>
    let first := exits entered live n
    first.andThen (exitsAll entered first.falls ns)

/-- How control leaves a child; behind a missing one it just goes on. -/
def exits? (entered : List String) (live : Bool) : Option Node → Exits
  | some n => exits entered live n
  | none => { falls := live }

/-- How control leaves the arms of a switch, each entered from above. -/
def exitsArms (entered : List String) (live : Bool) : List Arm → Exits
  | [] => { falls := false }
  | ⟨_, body, _⟩ :: arms => (exits entered live body).orElse (exitsArms entered live arms)

/-- How control leaves the handlers of a `try` block, each entered from above. -/
def exitsHandlers (entered : List String) (live : Bool) : List Handler → Exits
  | [] => { falls := false }
  | ⟨_, body, _⟩ :: handlers =>
    (exits entered live body).orElse (exitsHandlers entered live handlers)

end

end SpanCoverage.Analysis
