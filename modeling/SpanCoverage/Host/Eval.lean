import SpanCoverage.Host.Run

/-!
# Evaluation

How the host runs expressions, nodes and units. A node's run is structural: it goes from a node to
its parts. Only three kinds of step do not get smaller, and each spends one unit of fuel: a call, a
round of a loop, and a jump to a label of a sequence. They are the fields of `Resume`, so probes
spend no fuel, and a program needs as much with them as without. Every node is run together with
its site, which the host notes when it reaches a point.
-/

namespace SpanCoverage.Host

/-! ## What a run passes around -/

/-- What control does behind a node. -/
inductive Flow where
  | normal
  | breaking
  | continuing
  | returning (value : Value)
  | jumping (label : String)
deriving DecidableEq, Repr

/-- The activation of a unit. -/
structure Frame where
  unit : MethodToken
  scope : Scope
  payloadLength : Nat

/-- A loop behind its first statement, ready for a round. -/
structure Rounds where
  test : TestTime
  cond : Expr
  body : Node
  update : Option Node
  /-- The site of the loop. -/
  site : Nat
  /-- The site of the loop's body. -/
  bodySite : Nat

/-- The steps that do not get smaller. -/
structure Resume (σ : Type) where
  /-- Calls a value with arguments. -/
  call : Value → List Value → Run σ Value
  /-- Runs the rounds of a loop, from the next one on. -/
  loop : Frame → Rounds → Run σ Flow
  /-- Goes on at a label of a sequence whose first node has the site given. -/
  jump : Frame → List Node → Nat → String → Run σ Flow

/-- No step at all: the fuel is spent. -/
def Resume.spent (σ : Type) : Resume σ where
  call _ _ := .exhausted
  loop _ _ := .exhausted
  jump _ _ _ _ := .exhausted

/-- The host notes that control reaches a point of the frame's unit. -/
def reach {σ : Type} (r : Recorder σ) (frame : Frame) (site : Nat) (kind : SpanKind) : Run σ Unit :=
  .onRecord (r.note (.reached frame.unit site kind))

/-! ## Expressions -/

section Expressions

variable {σ : Type} (r : Recorder σ) (resume : Resume σ) (frame : Frame)

mutual

/-- The value of an expression in a frame. -/
def eval : Expr → Run σ Value
  | .const c => pure (.ofConstant c)
  | .var name => do
    match ← Run.read fun w => w.heap.lookup frame.scope name with
    | some value => pure value
    | none => Run.fail r (.undefinedVariable name)
  | .unary op e => do
    let value ← eval e
    Run.ofFault (applyUnary op value)
  | .binary op left right => do
    let l ← eval left
    if op = .and ∧ l.truth = false then pure (.bool false)
    else if op = .or ∧ l.truth = true then pure (.bool true)
    else
      let r ← eval right
      if op.isLogical then pure (.bool r.truth) else Run.ofFault (applyBinary op l r)
  | .function token => pure (.function token)
  | .closure token => do
    let closure ← Run.onHeap fun h => h.newClosure token frame.scope
    pure (.closure closure)
  | .call callee args => do
    let callee ← eval callee
    let args ← evalAll args
    resume.call callee args
  | .probed span e => do
    Run.onRecord (r.mark frame.unit span)
    eval e

/-- The values of expressions, from the first on. -/
def evalAll : List Expr → Run σ (List Value)
  | [] => pure []
  | e :: es => do
    let value ← eval e
    let values ← evalAll es
    pure (value :: values)

end

/-- The value of an expression that may be missing. -/
def evalOrNull : Option Expr → Run σ Value
  | some e => eval r resume frame e
  | none => pure .null

/-- A statement in a frame. -/
def execStmt : Stmt → Run σ Flow
  | .assign name value => do
    let value ← eval r resume frame value
    Run.change fun w => { w with heap := w.heap.assign frame.scope name value }
    pure .normal
  | .eval value => do
    let _ ← eval r resume frame value
    pure .normal
  | .print value => do
    let value ← eval r resume frame value
    Run.print value.text
    pure .normal
  | .skip => pure .normal
  | .goto label => pure (.jumping label)
  | .leave => pure .breaking
  | .next => pure .continuing
  | .ret value => do
    let value ← evalOrNull r resume frame value
    pure (.returning value)
  | .raise value => do
    let value ← eval r resume frame value
    Run.throw value

end Expressions

/-! ## Nodes -/

/-- The place of the arm that a switch takes for a value: the first with an equal case, or else the
first without a case. -/
def chosenArm? (value : Value) (arms : List Arm) : Option Nat :=
  match arms.findIdx? fun arm => arm.case.any fun c => (Value.ofConstant c).same value with
  | some place => some place
  | none => arms.findIdx? fun arm => arm.case.isNone

/-- The part of a sequence that begins with a label, with the site of that label. -/
def fromLabel? (label : String) (site : Nat) : List Node → Option (Nat × List Node)
  | [] => none
  | n :: ns =>
    if n.isLabel label then some (site, n :: ns) else fromLabel? label (site + n.siteCount) ns

/-- Binds the variable of a handler, if it has one, to an exception's value. -/
def bindCaught {σ : Type} (frame : Frame) (value : Value) : Option String → Run σ Unit
  | some name => Run.change fun w => { w with heap := w.heap.define frame.scope name value }
  | none => pure ()

section Nodes

variable {σ : Type} (r : Recorder σ) (resume : Resume σ) (frame : Frame)

mutual

/-- A node with its site. -/
def exec (site : Nat) : Node → Run σ Flow
  | .stmt s _ => do
    reach r frame site .statement
    execStmt r resume frame s
  | .seq children => execAll children (site + 1) (site + 1) children
  | .branch c t e _ => do
    reach r frame site .condition
    let value ← eval r resume frame c
    if value.truth then exec (site + 1) t else exec? (site + 1 + t.siteCount) e
  | .loop test i c u b _ => do
    match ← exec? (site + 1) i with
    | .normal => resume.loop frame ⟨test, c, b, u, site, site + 1 + Node.siteCount? i⟩
    | flow => pure flow
  | .switch v arms _ => do
    reach r frame site .condition
    let value ← eval r resume frame v
    match chosenArm? value arms with
    | none => pure .normal
    | some place =>
      match ← execArm place (site + 1) arms with
      | .breaking => pure .normal
      | flow => pure flow
  | .attempt b handlers f _ => do
    let outcome ← Run.outcome (exec (site + 1) b)
    let outcome ← execHandler outcome (site + 1 + b.siteCount) handlers
    match ← execFinally (site + 1 + b.siteCount + Node.siteCountHandlers handlers) f with
    | .normal => Run.conclude outcome
    | flow => pure flow
  | .guarded _ resource b _ => do
    reach r frame site .scopeAcquire
    let value ← eval r resume frame resource
    if value = .null then Run.ofFault (.error .nullReference) else exec (site + 1) b
  | .label .. => do
    reach r frame site .label
    pure .normal
  | .nested .. => pure .normal
  | .probe span => do
    Run.onRecord (r.mark frame.unit span)
    pure .normal
  | .acquire => do
    Run.onRecord (r.acquire frame.unit frame.payloadLength)
    pure .normal

/-- The rest of a sequence, where `whole` is the sequence and `wholeSite` the site of its first
node. A jump to one of its own labels goes on there; every other jump leaves the sequence. -/
def execAll (whole : List Node) (wholeSite : Nat) (site : Nat) : List Node → Run σ Flow
  | [] => pure .normal
  | n :: ns => do
    match ← exec site n with
    | .normal => execAll whole wholeSite (site + n.siteCount) ns
    | .jumping label =>
      if whole.any (·.isLabel label) then resume.jump frame whole wholeSite label
      else pure (.jumping label)
    | flow => pure flow

/-- A node that may be missing. -/
def exec? (site : Nat) : Option Node → Run σ Flow
  | some n => exec site n
  | none => pure .normal

/-- A `finally` block, which may be missing. -/
def execFinally (site : Nat) : Option Node → Run σ Flow
  | some n => do
    reach r frame site .finallyEntry
    exec site n
  | none => pure .normal

/-- The arm at a place, where `site` is the site of the first arm's body. -/
def execArm (place : Nat) (site : Nat) : List Arm → Run σ Flow
  | [] => pure .normal
  | ⟨_, body, _⟩ :: arms =>
    match place with
    | 0 => do
      reach r frame site .switchArm
      exec site body
    | place + 1 => execArm place (site + body.siteCount) arms

/-- What becomes of the outcome of a `try` block: the first handler takes an exception, and every
other outcome stays. -/
def execHandler (outcome : Except Abort Flow) (site : Nat) :
    List Handler → Run σ (Except Abort Flow)
  | [] => pure outcome
  | ⟨binding, body, _⟩ :: _ =>
    match outcome with
    | .error (.thrown value) => Run.outcome do
      bindCaught frame value binding
      reach r frame site .catchEntry
      exec site body
    | outcome => pure outcome

end

/-- The test of a loop's condition. -/
def holds (rounds : Rounds) : Run σ Bool := do
  reach r frame rounds.site .loopHeader
  let value ← eval r resume frame rounds.cond
  pure value.truth

/-- Whether a loop goes on: its condition decides at the time when the loop tests it. -/
def goesOn (time : TestTime) (rounds : Rounds) : Run σ Bool :=
  if rounds.test = time then holds r resume frame rounds else pure true

/-- The rest of a round behind the loop's body, and the further rounds. -/
def execUpdate (rounds : Rounds) : Run σ Flow := do
  match ← exec? r resume frame (rounds.bodySite + rounds.body.siteCount) rounds.update with
  | .normal | .continuing =>
    let again ← goesOn r resume frame .after rounds
    if again then resume.loop frame rounds else pure .normal
  | .breaking => pure .normal
  | flow => pure flow

/-- One round of a loop, and the further ones. -/
def execRound (rounds : Rounds) : Run σ Flow := do
  let enters ← goesOn r resume frame .before rounds
  if enters then
    match ← exec r resume frame rounds.bodySite rounds.body with
    | .normal | .continuing => execUpdate r resume frame rounds
    | .breaking => pure .normal
    | flow => pure flow
  else pure .normal

/-- A sequence from one of its labels on. -/
def execJump (whole : List Node) (wholeSite : Nat) (label : String) : Run σ Flow :=
  match fromLabel? label wholeSite whole with
  | some (site, rest) => execAll r resume frame whole wholeSite site rest
  | none => pure (.jumping label)

end Nodes

/-! ## Units -/

/-- A unit as a machine keeps it, with the length of its payload. -/
structure LoadedUnit where
  unit : CodeUnit
  payloadLength : Nat

/-- What a run knows of the machine: the units it can call, and how deep calls may go. -/
structure Code where
  units : Assoc MethodToken LoadedUnit := {}
  maxDepth : Nat := 256

/-- The unit of a callable value, with the scope around a closure's. -/
def callee? : Value → Option (MethodToken × Option Scope)
  | .function token => some (token, none)
  | .closure c => some (c.token, some c.scope)
  | _ => none

/-- What a call makes of a unit's flow: the value returned, or null at the unit's end; any other
jump has nowhere to go. -/
def ofFlow {σ : Type} (r : Recorder σ) (name : String) : Flow → Run σ Value
  | .normal => pure .null
  | .returning value => pure value
  | .breaking => Run.fail r (.strayControlFlow name .breaking)
  | .continuing => Run.fail r (.strayControlFlow name .continuing)
  | .jumping label => Run.fail r (.strayControlFlow name (.goto label))

/-- Makes the scope of a unit's activation, which binds the parameters, and counts the
activation. -/
def enter {σ : Type} (u : CodeUnit) (outer : Option Scope) (args : List Value) : Run σ Scope := do
  let scope ← Run.onHeap fun h =>
    let (scope, h) := h.newScope outer
    (scope, h.defineAll scope u.params args)
  Run.change fun w => { w with depth := w.depth + 1 }
  pure scope

/-- The host notes that the frame's unit is entered. -/
def noteEntry {σ : Type} (r : Recorder σ) (frame : Frame) : Run σ Unit := do
  let depth ← Run.read World.depth
  Run.onRecord (r.note (.entered frame.unit depth))
  reach r frame 0 .entry

/-- Ends the activation of a unit, which the host notes. -/
def leave {σ : Type} (r : Recorder σ) (token : MethodToken) : Run σ Unit := do
  Run.change fun w => { w with depth := w.depth - 1 }
  let depth ← Run.read World.depth
  Run.onRecord (r.note (.left token depth))

/-- Enters a unit, runs its body, and leaves it in whatever way the body ended. -/
def activate {σ : Type} (r : Recorder σ) (resume : Resume σ) (u : LoadedUnit) (outer : Option Scope)
    (args : List Value) : Run σ Flow := do
  let scope ← enter u.unit outer args
  let frame : Frame := ⟨u.unit.token, scope, u.payloadLength⟩
  noteEntry r frame
  let outcome ← Run.outcome (exec r resume frame 0 u.unit.root)
  leave r u.unit.token
  Run.conclude outcome

/-- Calls a value. The value must be a function or closure of a known unit, the arguments must be
as many as the unit's parameters, and the depth must not have reached its limit. -/
def applyValue {σ : Type} (code : Code) (r : Recorder σ) (resume : Resume σ) (callee : Value)
    (args : List Value) : Run σ Value :=
  match callee? callee with
  | none => Run.fail r (.notCallable callee)
  | some (token, outer) =>
    match code.units.get? token with
    | none => Run.fail r (.unknownUnit token)
    | some u =>
      if u.unit.params.length ≠ args.length then
        Run.fail r (.arityMismatch u.unit.name u.unit.params.length args.length)
      else do
        let depth ← Run.read World.depth
        if code.maxDepth ≤ depth then Run.fail r (.stackOverflow depth)
        else
          let flow ← activate r resume u outer args
          ofFlow r u.unit.name flow

/-- The steps that a run can take with some fuel. -/
def steps {σ : Type} (code : Code) (r : Recorder σ) : Nat → Resume σ
  | 0 => .spent σ
  | fuel + 1 =>
    { call := fun callee args w => applyValue code r (steps code r fuel) callee args w
      loop := fun frame rounds w => execRound r (steps code r fuel) frame rounds w
      jump := fun frame whole site label w =>
        execJump r (steps code r fuel) frame whole site label w }

end SpanCoverage.Host
