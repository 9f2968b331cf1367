import SpanCoverage.Host.Session

/-!
# Chronicles of failures

A `finally` block runs in whatever way the code in front of it ended, with a failure of the host as
with anything else. If the block itself does not end normally, its own end takes the place of the
other one. A `Chronicle` holds what matters for that: the failures that arise in a run, and how each
`finally` block found things and left them.

The functions in `Chronicled` run code in the same way as those of the same names that keep no
chronicle; all they add is a note behind every `finally` block. The chronicle stands beside the
record of any recorder, which it does not touch.
-/

namespace SpanCoverage.Host

/-! ## Chronicles -/

/-- The failure of the host with which a run ended, if it did. -/
def failure? {α : Type} : Except Abort α → Option HostError
  | .error (.failed error) => some error
  | .error (.thrown _) | .ok _ => none

/-- A run of a `finally` block. -/
structure Cleanup where
  /-- How the `try` block and its handler ended. -/
  found : Except Abort Flow
  /-- How the `finally` block ended. -/
  ended : Except Abort Flow

/-- How control goes on behind the block: as it came if the block ended normally, and otherwise as
the block ended. -/
def Cleanup.outcome (c : Cleanup) : Except Abort Flow :=
  match c.ended with
  | .ok .normal => c.found
  | ended => ended

/-- The block found a failure and put its own end in its place. -/
def Cleanup.displaces (c : Cleanup) : Bool :=
  match failure? c.found, c.ended with
  | none, _ | some _, .ok .normal => false
  | some _, _ => true

/-- What a run does with failures of the host. -/
structure Chronicle where
  /-- The failures, in the order in which they arose. -/
  failures : List HostError := []
  /-- The runs of `finally` blocks, in the order in which they ended. -/
  cleanups : List Cleanup := []

namespace Chronicle

/-- One chronicle after another. -/
instance : Append Chronicle where
  append c d := ⟨c.failures ++ d.failures, c.cleanups ++ d.cleanups⟩

/-- The chronicle after an event; only failures are written down. -/
def note : Event → Chronicle → Chronicle
  | .failed error, c => { c with failures := c.failures ++ [error] }
  | .entered .., c | .left .., c | .reached .., c => c

/-- The chronicle with one more run of a `finally` block. -/
def clean (cleanup : Cleanup) (c : Chronicle) : Chronicle :=
  { c with cleanups := c.cleanups ++ [cleanup] }

/-- No `finally` block put its own end in the place of a failure. -/
def Undisplaced (c : Chronicle) : Prop := ∀ cleanup ∈ c.cleanups, cleanup.displaces = false

instance (c : Chronicle) : Decidable c.Undisplaced :=
  inferInstanceAs (Decidable (∀ cleanup ∈ c.cleanups, cleanup.displaces = false))

end Chronicle

/-- The recorder that keeps a chronicle besides. -/
def Recorder.chronicled {σ : Type} (r : Recorder σ) : Recorder (σ × Chronicle) where
  note event s := (r.note event s.1, s.2.note event)
  acquire unit length s := (r.acquire unit length s.1, s.2)
  mark unit span s := (r.mark unit span s.1, s.2)

/-! ## Runs with a chronicle -/

namespace Chronicled

/-- Ends as a `finally` block makes things end, which is written down. -/
def settle {σ : Type} (found : Except Abort Flow) (block : Run (σ × Chronicle) Flow) :
    Run (σ × Chronicle) Flow := do
  let ended ← Run.outcome block
  Run.onRecord fun s => (s.1, s.2.clean ⟨found, ended⟩)
  Run.conclude (Cleanup.outcome ⟨found, ended⟩)

section Nodes

variable {σ : Type} (r : Recorder (σ × Chronicle)) (resume : Resume (σ × Chronicle)) (frame : Frame)

mutual

/-- A node with its site. -/
def exec (site : Nat) : Node → Run (σ × Chronicle) Flow
  | .stmt s _ => do
    reach r frame site .statement
    execStmt r resume frame s
  | .seq children => execAll children (site + 1) (site + 1) children
  | .branch c t e _ => do
    reach r frame site .condition
    let value ← eval r resume frame c
    if value.truth then exec (site + 1) t else exec? (site + 1 + t.siteCount) e
  | .loop test i c u b _ => do
    match ← exec? (site + 1) i with
    | .normal => resume.loop frame ⟨test, c, b, u, site, site + 1 + Node.siteCount? i⟩
    | flow => pure flow
  | .switch v arms _ => do
    reach r frame site .condition
    let value ← eval r resume frame v
    match chosenArm? value arms with
    | none => pure .normal
    | some place =>
      match ← execArm place (site + 1) arms with
      | .breaking => pure .normal
      | flow => pure flow
  | .attempt b handlers f _ => do
    let outcome ← Run.outcome (exec (site + 1) b)
    let outcome ← execHandler outcome (site + 1 + b.siteCount) handlers
    execFinally outcome (site + 1 + b.siteCount + Node.siteCountHandlers handlers) f
  | .guarded _ resource b _ => do
    reach r frame site .scopeAcquire
    let value ← eval r resume frame resource
    if value = .null then Run.ofFault (.error .nullReference) else exec (site + 1) b
  | .label .. => do
    reach r frame site .label
    pure .normal
  | .nested .. => pure .normal
  | .probe span => do
    Run.onRecord (r.mark frame.unit span)
    pure .normal
  | .acquire => do
    Run.onRecord (r.acquire frame.unit frame.payloadLength)
    pure .normal

/-- The rest of a sequence. -/
def execAll (whole : List Node) (wholeSite : Nat) (site : Nat) :
    List Node → Run (σ × Chronicle) Flow
  | [] => pure .normal
  | n :: ns => do
    match ← exec site n with
    | .normal => execAll whole wholeSite (site + n.siteCount) ns
    | .jumping label =>
      if whole.any (·.isLabel label) then resume.jump frame whole wholeSite label
      else pure (.jumping label)
    | flow => pure flow

/-- A node that may be missing. -/
def exec? (site : Nat) : Option Node → Run (σ × Chronicle) Flow
  | some n => exec site n
  | none => pure .normal

/-- What becomes of an outcome by a `finally` block, which may be missing. -/
def execFinally (found : Except Abort Flow) (site : Nat) : Option Node → Run (σ × Chronicle) Flow
  | some n => settle found do
    reach r frame site .finallyEntry
    exec site n
  | none => Run.conclude found

/-- The arm at a place. -/
def execArm (place : Nat) (site : Nat) : List Arm → Run (σ × Chronicle) Flow
  | [] => pure .normal
  | ⟨_, body, _⟩ :: arms =>
    match place with
    | 0 => do
      reach r frame site .switchArm
      exec site body
    | place + 1 => execArm place (site + body.siteCount) arms

/-- What becomes of the outcome of a `try` block by its first handler. -/
def execHandler (outcome : Except Abort Flow) (site : Nat) :
    List Handler → Run (σ × Chronicle) (Except Abort Flow)
  | [] => pure outcome
  | ⟨binding, body, _⟩ :: _ =>
    match outcome with
    | .error (.thrown value) => Run.outcome do
      bindCaught frame value binding
      reach r frame site .catchEntry
      exec site body
    | outcome => pure outcome

end

/-- The rest of a round behind the loop's body, and the further rounds. -/
def execUpdate (rounds : Rounds) : Run (σ × Chronicle) Flow := do
  match ← exec? r resume frame (rounds.bodySite + rounds.body.siteCount) rounds.update with
  | .normal | .continuing =>
    let again ← goesOn r resume frame .after rounds
    if again then resume.loop frame rounds else pure .normal
  | .breaking => pure .normal
  | flow => pure flow

/-- One round of a loop, and the further ones. -/
def execRound (rounds : Rounds) : Run (σ × Chronicle) Flow := do
  let enters ← goesOn r resume frame .before rounds
  if enters then
    match ← exec r resume frame rounds.bodySite rounds.body with
    | .normal | .continuing => execUpdate r resume frame rounds
    | .breaking => pure .normal
    | flow => pure flow
  else pure .normal

/-- A sequence from one of its labels on. -/
def execJump (whole : List Node) (wholeSite : Nat) (label : String) : Run (σ × Chronicle) Flow :=
  match fromLabel? label wholeSite whole with
  | some (site, rest) => execAll r resume frame whole wholeSite site rest
  | none => pure (.jumping label)

end Nodes

variable {σ : Type}

/-- Enters a unit, runs its body, and leaves it in whatever way the body ended. -/
def activate (r : Recorder (σ × Chronicle)) (resume : Resume (σ × Chronicle)) (u : LoadedUnit)
    (outer : Option Scope) (args : List Value) : Run (σ × Chronicle) Flow := do
  let scope ← enter u.unit outer args
  let frame : Frame := ⟨u.unit.token, scope, u.payloadLength⟩
  noteEntry r frame
  let outcome ← Run.outcome (exec r resume frame 0 u.unit.root)
  leave r u.unit.token
  Run.conclude outcome

/-- Calls a value. -/
def applyValue (code : Code) (r : Recorder (σ × Chronicle)) (resume : Resume (σ × Chronicle))
    (callee : Value) (args : List Value) : Run (σ × Chronicle) Value :=
  match callee? callee with
  | none => Run.fail r (.notCallable callee)
  | some (token, outer) =>
    match code.units.get? token with
    | none => Run.fail r (.unknownUnit token)
    | some u =>
      if u.unit.params.length ≠ args.length then
        Run.fail r (.arityMismatch u.unit.name u.unit.params.length args.length)
      else do
        let depth ← Run.read World.depth
        if code.maxDepth ≤ depth then Run.fail r (.stackOverflow depth)
        else
          let flow ← activate r resume u outer args
          ofFlow r u.unit.name flow

/-- The steps that a run can take with some fuel. -/
def steps (code : Code) (r : Recorder (σ × Chronicle)) : Nat → Resume (σ × Chronicle)
  | 0 => .spent (σ × Chronicle)
  | fuel + 1 =>
    { call := fun callee args w => applyValue code r (steps code r fuel) callee args w
      loop := fun frame rounds w => execRound r (steps code r fuel) frame rounds w
      jump := fun frame whole site label w =>
        execJump r (steps code r fuel) frame whole site label w }

end Chronicled

/-! ## Calls with a chronicle -/

/-- The run of a call with its chronicle, from an empty one on. -/
def Rig.chronicledRun {σ ρ : Type} (rig : Rig σ ρ) (s : Session σ) (callee : Value)
    (args : List Value) (fuel : Nat) :
    Option (Except Abort Value) × World (σ × Chronicle) :=
  (Chronicled.steps s.machine.code (rig.recorder s.machine).chronicled (fuel + 1)).call callee args
    ⟨s.heap, s.machine.output, s.machine.depth, (s.record, {})⟩

/-- The chronicle of a call. -/
def Rig.chronicle {σ ρ : Type} (rig : Rig σ ρ) (s : Session σ) (callee : Value) (args : List Value)
    (fuel : Nat) : Chronicle :=
  (rig.chronicledRun s callee args fuel).2.record.2

end SpanCoverage.Host
