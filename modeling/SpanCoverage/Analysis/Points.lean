import SpanCoverage.Analysis.Exits
import SpanCoverage.Analysis.Validity
import SpanCoverage.Span.Table

/-!
# The points of a unit

`Analysis.points` lists the points of a node's tree that live code reaches, in the order in which
they are evaluated: a loop that tests after its rounds has its header behind its update, all else
comes in the order of sites. Which labels are entered is found by repetition, from no label at all
(`settle`): each round takes the labels that the round before jumps to.
-/

namespace SpanCoverage

namespace Analysis

/-! ## Points -/

/-- A point, if it is live. -/
def mark (live : Bool) (kind : SpanKind) (site : Nat) (range : SourceRange) : List Point :=
  if live then [⟨kind, site, range⟩] else []

/-- The entry of a `finally` block, if there is one and it is live. -/
def markFinally (live : Bool) (site : Nat) : Option Node → List Point
  | some n => mark live .finallyEntry site n.range
  | none => []

mutual

/-- The live points of a node's tree, where `site` is the node's own site. -/
def points (entered : List String) (live : Bool) (site : Nat) : Node → List Point
  | .stmt _ range => mark live .statement site range
  | .seq children => pointsAll entered live (site + 1) children
  | .branch c t e range =>
    mark live .condition site range
      ++ points entered (live && c.knownTruth != some false) (site + 1) t
      ++ points? entered (live && c.knownTruth != some true) (site + 1 + t.siteCount) e
  | .loop test i c u b range =>
    let start := exits? entered live i
    let body := exits entered (bodyLive test c start.falls) b
    let update := exits? entered (updateLive body) u
    let header := mark (headerLive test start.falls update) .loopHeader site range
    let bodySite := site + 1 + Node.siteCount? i
    let rounds := points entered (bodyLive test c start.falls) bodySite b
      ++ points? entered (updateLive body) (bodySite + b.siteCount) u
    points? entered live (site + 1) i
      ++ match test with
        | .before => header ++ rounds
        | .after => rounds ++ header
  | .switch _ arms range =>
    mark live .condition site range ++ pointsArms entered live (site + 1) arms
  | .attempt b handlers f _ =>
    let finallySite := site + 1 + b.siteCount + Node.siteCountHandlers handlers
    points entered live (site + 1) b
      ++ pointsHandlers entered live (site + 1 + b.siteCount) handlers
      ++ markFinally live finallySite f ++ points? entered live finallySite f
  | .guarded _ _ b range =>
    mark live .scopeAcquire site range ++ points entered live (site + 1) b
  | .label name range => mark (live || entered.contains name) .label site range
  | .nested .. | .probe _ | .acquire => []

/-- The live points of a sequence's children, where `site` is the site of the first. -/
def pointsAll (entered : List String) (live : Bool) (site : Nat) : List Node → List Point
  | [] => []
  | n :: ns =>
    points entered live site n
      ++ pointsAll entered (exits entered live n).falls (site + n.siteCount) ns

/-- The live points of a child that may be missing. -/
def points? (entered : List String) (live : Bool) (site : Nat) : Option Node → List Point
  | some n => points entered live site n
  | none => []

/-- The live points of switch arms; an arm's entry has the site of its body. -/
def pointsArms (entered : List String) (live : Bool) (site : Nat) : List Arm → List Point
  | [] => []
  | ⟨_, body, range⟩ :: arms =>
    mark live .switchArm site range ++ points entered live site body
      ++ pointsArms entered live (site + body.siteCount) arms

/-- The live points of handlers; a handler's entry has the site of its body. -/
def pointsHandlers (entered : List String) (live : Bool) (site : Nat) : List Handler → List Point
  | [] => []
  | ⟨_, body, range⟩ :: handlers =>
    mark live .catchEntry site range ++ points entered live site body
      ++ pointsHandlers entered live (site + body.siteCount) handlers

end

/-! ## Labels entered -/

/-- Whether two lists name the same labels. -/
def sameLabels (xs ys : List String) : Bool :=
  xs.all (fun x => ys.contains x) && ys.all (fun y => xs.contains y)

/-- The labels that live jumps name, if the entered labels are these. -/
def reached (root : Node) (entered : List String) : List String := (exits entered true root).jumps

/-- The labels after at most `rounds` repetitions, or before the first one that changes nothing. -/
def settle (root : Node) : Nat → List String → List String
  | 0, entered => entered
  | rounds + 1, entered =>
    let next := reached root entered
    if sameLabels next entered then entered else settle root rounds next

/-- The labels that live jumps enter. Every repetition that changes anything adds one of the unit's
labels, so the bound is never met. -/
def enteredLabels (root : Node) : List String := settle root ((labels root).length + 1) []

end Analysis

/-- The points of a unit: its entry, then those of its body. -/
def CodeUnit.points (u : CodeUnit) : List Point :=
  ⟨.entry, 0, u.range⟩ :: Analysis.points (Analysis.enteredLabels u.root) true 0 u.root

end SpanCoverage
