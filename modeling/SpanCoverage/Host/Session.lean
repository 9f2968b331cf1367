import SpanCoverage.Host.Machine

/-!
# Sessions

A session is what a host does with one machine: it loads programs, calls units, and flushes what
was recorded. A `Rig` says what is recorded. `Rig.payloads` is the machine as it is, with its
payload memory and its reports; `Rig.observed` keeps a log of the same runs instead. `Rig.Runs`
relates a session to what its steps answer; a call that does not end has no answer, and a session
does not get past it.
-/

namespace SpanCoverage.Host

/-! ## Steps and rigs -/

/-- One step of a session. -/
inductive Step where
  | loadPlain (program : Program)
  | load (program : InstrumentedProgram)
  /-- Calls the unit of a name. -/
  | call (name : String) (args : List Value)
  /-- Calls a value. -/
  | apply (callee : Value) (args : List Value)
  | flush

/-- A step that loads nothing. -/
def Step.LoadsNothing : Step → Prop
  | .loadPlain _ | .load _ => False
  | .call .. | .apply .. | .flush => True

/-- What a step answers. -/
inductive Reply (ρ : Type) where
  | loaded
  /-- The result of a call, and all lines printed by now. -/
  | answered (result : Except HostError Value) (output : Array String)
  | flushed (report : ρ)

/-- The answer of a call, where the step was one. -/
def Reply.answer? {ρ : Type} : Reply ρ → Option (Except HostError Value × Array String)
  | .answered result output => some (result, output)
  | .loaded | .flushed _ => none

/-- A machine with its heap and its record. -/
structure Session (σ : Type) where
  machine : Machine
  heap : Heap
  record : σ

/-- The session of a machine that has loaded nothing yet. -/
def Session.fresh {σ : Type} (maxDepth : Nat) (heap : Heap) (record : σ) : Session σ :=
  ⟨{ code := { maxDepth := maxDepth } }, heap, record⟩

/-- The world in which a session's next call starts. -/
def Session.world {σ : Type} (s : Session σ) : World σ :=
  ⟨s.heap, s.machine.output, s.machine.depth, s.record⟩

/-- What the sessions of some kind record, and what a flush makes of it. -/
structure Rig (σ ρ : Type) where
  load : InstrumentedProgram → Machine → σ → Machine × σ
  recorder : Machine → Recorder σ
  flush : σ → ρ × σ

/-- Machines as they are, with payload memory. -/
def Rig.payloads : Rig Memory Report where
  load p m memory := m.load memory p
  recorder := Machine.recorder
  flush := Memory.flush

/-- Machines under observation. A flush answers the log, and begins a new window. -/
def Rig.observed : Rig Log Log where
  load p m log := ((m.load {} p).1, log)
  recorder _ := .log
  flush log := (log, { log with window := [] })

/-! ## Running -/

namespace Rig

variable {σ ρ : Type} (rig : Rig σ ρ)

/-- The run of a call, with one unit of fuel for the call itself. -/
def callRun (s : Session σ) (callee : Value) (args : List Value) (fuel : Nat) : Run σ Value :=
  (steps s.machine.code (rig.recorder s.machine) (fuel + 1)).call callee args

/-- Calls a value. -/
def apply (s : Session σ) (callee : Value) (args : List Value) (fuel : Nat) :
    Option (Except HostError Value × Session σ) :=
  match s.machine.perform s.heap s.record (rig.callRun s callee args fuel) with
  | none => none
  | some (result, machine, heap, record) => some (result, ⟨machine, heap, record⟩)

/-- Calls the unit of a name. -/
def call (s : Session σ) (name : String) (args : List Value) (fuel : Nat) :
    Option (Except HostError Value × Session σ) :=
  match s.machine.names.get? name with
  | some token => rig.apply s (.function token) args fuel
  | none => some (.error (.unknownFunction name), s)

/-- One step of a session, with its answer and the session after it. -/
inductive Does : Session σ → Step → Reply ρ → Session σ → Prop
  | loadPlain (s : Session σ) (p : Program) :
    Does s (.loadPlain p) .loaded { s with machine := s.machine.loadPlain p }
  | load (s : Session σ) (p : InstrumentedProgram) :
    Does s (.load p) .loaded
      ⟨(rig.load p s.machine s.record).1, s.heap, (rig.load p s.machine s.record).2⟩
  | call {s s' : Session σ} {name : String} {args : List Value} (fuel : Nat)
    {result : Except HostError Value} (h : rig.call s name args fuel = some (result, s')) :
    Does s (.call name args) (.answered result s'.machine.output) s'
  | apply {s s' : Session σ} {callee : Value} {args : List Value} (fuel : Nat)
    {result : Except HostError Value} (h : rig.apply s callee args fuel = some (result, s')) :
    Does s (.apply callee args) (.answered result s'.machine.output) s'
  | flush (s : Session σ) :
    Does s .flush (.flushed (rig.flush s.record).1) { s with record := (rig.flush s.record).2 }

/-- Steps of a session one after the other, with their answers. -/
inductive Runs : Session σ → List Step → List (Reply ρ) → Session σ → Prop
  | done (s : Session σ) : Runs s [] [] s
  | step {s s' s'' : Session σ} {step : Step} {steps : List Step} {reply : Reply ρ}
    {replies : List (Reply ρ)} (first : rig.Does s step reply s')
    (rest : Runs s' steps replies s'') : Runs s (step :: steps) (reply :: replies) s''

/-- The answers of all calls in a session's steps; there are none if one of the calls does not
end. -/
def Answers (s : Session σ) (steps : List Step)
    (answers : List (Except HostError Value × Array String)) : Prop :=
  ∃ replies s', rig.Runs s steps replies s' ∧ answers = replies.filterMap Reply.answer?

/-- The records that a session comes by: those behind its steps, and those in the middle of one more
call, when the call has gone on for some fuel. -/
inductive Shows (s : Session σ) (steps : List Step) : σ → Prop
  | behind {replies : List (Reply ρ)} {s' : Session σ} (h : rig.Runs s steps replies s') :
    Shows s steps s'.record
  | within {replies : List (Reply ρ)} {s' : Session σ} (h : rig.Runs s steps replies s')
    (callee : Value) (args : List Value) (fuel : Nat) :
    Shows s steps (rig.callRun s' callee args fuel s'.world).2.record

end Rig

/-- A machine's own calls are those of the sessions with payload memory. -/
theorem Machine.apply_eq (m : Machine) (shared : Shared) (callee : Value) (args : List Value)
    (fuel : Nat) :
    m.apply shared callee args fuel =
      (Rig.payloads.apply ⟨m, shared.heap, shared.memory⟩ callee args fuel).map
        fun (result, s) => (result, s.machine, ⟨s.heap, s.record⟩) := by
  simp only [Machine.apply, Rig.apply, Rig.callRun, Rig.payloads]
  cases m.perform shared.heap shared.memory ((steps m.code m.recorder (fuel + 1)).call callee args)
  <;> rfl

end SpanCoverage.Host
