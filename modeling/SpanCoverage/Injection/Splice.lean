import SpanCoverage.Program.Node
import SpanCoverage.Span.Table

/-!
# Splicing probes into a unit

A `Placement` says which span, if any, has its probe at a point. `splice` puts the probes into a
node: in front of a statement, around a condition or a resource, at the start of an arm, a handler
or a `finally` block, and behind a label. It also takes out the boundaries of nested units: from a
sequence the boundary disappears, elsewhere an empty sequence takes its place. The sites are those
of the node as given.
-/

namespace SpanCoverage

/-- The span whose probe belongs to the point of this site and kind. -/
abbrev Placement := Nat → SpanKind → Option Nat

/-- The placement without probes. -/
def Placement.none : Placement := fun _ _ => Option.none

namespace Injection

/-! ## Parts -/

/-- A probe as a sequence of nodes, empty where there is none. -/
def probeNodes : Option Nat → List Node
  | some span => [.probe span]
  | none => []

/-- An expression behind its probe. -/
def probed : Option Nat → Expr → Expr
  | some span, e => .probed span e
  | none, e => e

/-- A block behind its probe, which goes inside a block that is a sequence. -/
def behindProbe : Option Nat → Node → Node
  | none, n => n
  | some span, .seq ns => .seq (.probe span :: ns)
  | some span, n => .seq [.probe span, n]

/-- The probe that goes in front of a node: only statements have one. -/
def lead (place : Placement) (site : Nat) : Node → Option Nat
  | .stmt .. => place site .statement
  | _ => none

/-- What a spliced node becomes as a block of its own. -/
def asBlock (place : Placement) (site : Nat) (source spliced : Node) : Node :=
  behindProbe (lead place site source) spliced

/-- What a spliced node becomes among the children of a sequence. -/
def asChild (place : Placement) (site : Nat) (source spliced : Node) : List Node :=
  match source with
  | .nested .. => []
  | .label .. => spliced :: probeNodes (place site .label)
  | _ => probeNodes (lead place site source) ++ [spliced]

/-! ## Trees -/

mutual

/-- A node with probes inside it; the probe in front of it is left to the place it stands in. -/
def splice (place : Placement) (site : Nat) : Node → Node
  | .seq children => .seq (spliceAll place (site + 1) children)
  | .branch c t e range =>
    .branch (probed (place site .condition) c)
      (asBlock place (site + 1) t (splice place (site + 1) t))
      (splice? place (site + 1 + t.siteCount) e) range
  | .loop test i c u b range =>
    let bodySite := site + 1 + Node.siteCount? i
    .loop test (splice? place (site + 1) i) (probed (place site .loopHeader) c)
      (splice? place (bodySite + b.siteCount) u)
      (asBlock place bodySite b (splice place bodySite b)) range
  | .switch v arms range =>
    .switch (probed (place site .condition) v) (spliceArms place (site + 1) arms) range
  | .attempt b handlers f range =>
    .attempt (asBlock place (site + 1) b (splice place (site + 1) b))
      (spliceHandlers place (site + 1 + b.siteCount) handlers)
      (spliceFinally place (site + 1 + b.siteCount + Node.siteCountHandlers handlers) f) range
  | .guarded kind resource b range =>
    .guarded kind (probed (place site .scopeAcquire) resource)
      (asBlock place (site + 1) b (splice place (site + 1) b)) range
  | .nested .. => .seq []
  | .stmt s range => .stmt s range
  | .label name range => .label name range
  | .probe span => .probe span
  | .acquire => .acquire

/-- The children of a sequence with their probes between them. -/
def spliceAll (place : Placement) (site : Nat) : List Node → List Node
  | [] => []
  | n :: ns =>
    asChild place site n (splice place site n) ++ spliceAll place (site + n.siteCount) ns

/-- A block that may be missing. -/
def splice? (place : Placement) (site : Nat) : Option Node → Option Node
  | some n => some (asBlock place site n (splice place site n))
  | none => none

/-- A `finally` block, which may be missing, with the probe of its entry. -/
def spliceFinally (place : Placement) (site : Nat) : Option Node → Option Node
  | some n =>
    some (behindProbe (place site .finallyEntry) (asBlock place site n (splice place site n)))
  | none => none

/-- Switch arms with the probes of their entries. -/
def spliceArms (place : Placement) (site : Nat) : List Arm → List Arm
  | [] => []
  | ⟨case, body, range⟩ :: arms =>
    ⟨case,
      behindProbe (place site .switchArm) (asBlock place site body (splice place site body)),
      range⟩
      :: spliceArms place (site + body.siteCount) arms

/-- Handlers with the probes of their entries. -/
def spliceHandlers (place : Placement) (site : Nat) : List Handler → List Handler
  | [] => []
  | ⟨binding, body, range⟩ :: handlers =>
    ⟨binding,
      behindProbe (place site .catchEntry) (asBlock place site body (splice place site body)),
      range⟩
      :: spliceHandlers place (site + body.siteCount) handlers

end

/-- A unit's root with the boundaries taken out and no probe put in. -/
def stripBoundaries (root : Node) : Node :=
  asBlock .none 0 root (splice .none 0 root)

/-- A unit's root behind the creation of its payload and the probe of its entry. -/
def spliceRoot (place : Placement) (root : Node) : Node :=
  .seq (.acquire :: probeNodes (place 0 .entry) ++ probeNodes (lead place 0 root)
    ++ [splice place 0 root])

/-! ## Points that take a probe -/

mutual

/-- The points of a node's tree that can take a probe, live or not, in the order of sites. -/
def probePoints (site : Nat) : Node → List (Nat × SpanKind)
  | .stmt .. => [(site, .statement)]
  | .seq children => probePointsAll (site + 1) children
  | .branch _ t e _ =>
    (site, .condition) :: probePoints (site + 1) t ++ probePoints? (site + 1 + t.siteCount) e
  | .loop _ i _ u b _ =>
    let bodySite := site + 1 + Node.siteCount? i
    (site, .loopHeader) :: probePoints? (site + 1) i ++ probePoints bodySite b
      ++ probePoints? (bodySite + b.siteCount) u
  | .switch _ arms _ => (site, .condition) :: probePointsArms (site + 1) arms
  | .attempt b handlers f _ =>
    let handlerSite := site + 1 + b.siteCount
    let finallySite := handlerSite + Node.siteCountHandlers handlers
    probePoints (site + 1) b ++ probePointsHandlers handlerSite handlers
      ++ (if f.isSome then [(finallySite, .finallyEntry)] else []) ++ probePoints? finallySite f
  | .guarded _ _ b _ => (site, .scopeAcquire) :: probePoints (site + 1) b
  | .label .. | .nested .. | .probe _ | .acquire => []

/-- The points of a sequence's children; only here a label takes a probe. -/
def probePointsAll (site : Nat) : List Node → List (Nat × SpanKind)
  | [] => []
  | n :: ns =>
    (match n with
      | .label .. => [(site, .label)]
      | _ => [])
      ++ probePoints site n ++ probePointsAll (site + n.siteCount) ns

/-- The points of a block that may be missing. -/
def probePoints? (site : Nat) : Option Node → List (Nat × SpanKind)
  | some n => probePoints site n
  | none => []

/-- The points of switch arms. -/
def probePointsArms (site : Nat) : List Arm → List (Nat × SpanKind)
  | [] => []
  | ⟨_, body, _⟩ :: arms =>
    (site, .switchArm) :: probePoints site body ++ probePointsArms (site + body.siteCount) arms

/-- The points of handlers. -/
def probePointsHandlers (site : Nat) : List Handler → List (Nat × SpanKind)
  | [] => []
  | ⟨_, body, _⟩ :: handlers =>
    (site, .catchEntry) :: probePoints site body
      ++ probePointsHandlers (site + body.siteCount) handlers

end

end Injection

end SpanCoverage
