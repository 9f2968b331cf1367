import SpanCoverage.Host.Heap
import SpanCoverage.Span.Table

/-!
# Runs

A run changes a world and ends in one of four ways: with a result, with an exception that the
program can catch, with a failure of the host, or not at all within its fuel. `Run` is the monad of
such runs; what was done to the world before an exception or a failure stays done, and a run whose
fuel is spent leaves the world as it was when the last unit of fuel went.

What a run records on the way is left open. A `Recorder` says what the injected instructions do to
a record of some type, and what the host notes about the run by itself: which units it enters and
leaves, which points it reaches, and which failures arise. So the machine that marks payloads and
an observer that keeps a log are two recorders of one and the same run.
-/

namespace SpanCoverage.Host

/-! ## Failures -/

/-- The jump with which control would leave a unit. -/
inductive Escape where
  | breaking
  | continuing
  | goto (label : String)
deriving DecidableEq, Repr

/-- The jump in a message. -/
def Escape.text : Escape → String
  | .breaking => "break"
  | .continuing => "continue"
  | .goto label => "goto " ++ label

/-- A failure of the host, which ends a call. -/
inductive HostError where
  | unknownFunction (name : String)
  | unknownUnit (token : MethodToken)
  | undefinedVariable (name : String)
  | arityMismatch (name : String) (expected found : Nat)
  | notCallable (value : Value)
  /-- An exception that nothing caught. -/
  | uncaught (value : Value)
  | strayControlFlow (unit : String) (escape : Escape)
  | stackOverflow (depth : Nat)
deriving DecidableEq, Repr

/-- What is said of a failure. -/
def HostError.message : HostError → String
  | .unknownFunction name => "Unknown function: " ++ name
  | .unknownUnit token => "Unknown unit: " ++ token.text
  | .undefinedVariable name => "Undefined variable: " ++ name
  | .arityMismatch name expected found =>
    name ++ " expects " ++ toString expected ++ " arguments, got " ++ toString found
  | .notCallable value => "Value is not callable: " ++ value.text
  | .uncaught value => "Uncaught exception: " ++ value.text
  | .strayControlFlow unit escape => "Control flow escaped unit " ++ unit ++ ": " ++ escape.text
  | .stackOverflow depth => "Call depth exceeded (" ++ toString depth ++ ")"

/-- How a run ends without a result. -/
inductive Abort where
  | thrown (value : Value)
  | failed (error : HostError)
deriving DecidableEq, Repr

/-! ## Recorders -/

/-- What the host notes about a run. -/
inductive Event where
  /-- A unit is entered; the depth counts the units that are active now. -/
  | entered (unit : MethodToken) (depth : Nat)
  /-- A unit is left, in whatever way; the depth counts the units that are still active. -/
  | left (unit : MethodToken) (depth : Nat)
  /-- Control reaches a point of a unit. -/
  | reached (unit : MethodToken) (site : Nat) (kind : SpanKind)
  /-- A failure arises. -/
  | failed (error : HostError)
deriving DecidableEq, Repr

/-- What becomes of a record in the course of a run. -/
structure Recorder (σ : Type) where
  /-- The host notes an event. -/
  note : Event → σ → σ
  /-- The injected instruction that creates a unit's payload of a length. -/
  acquire : MethodToken → Nat → σ → σ
  /-- The injected instruction that marks a span of a unit. -/
  mark : MethodToken → Nat → σ → σ

/-- The events of a run, and those among them that came after the last flush. -/
structure Log where
  events : List Event := []
  window : List Event := []
deriving DecidableEq, Repr

/-- The log with one more event. -/
def Log.note (event : Event) (log : Log) : Log :=
  ⟨log.events ++ [event], log.window ++ [event]⟩

/-- The recorder that writes down every event, and nothing else. -/
def Recorder.log : Recorder Log where
  note := Log.note
  acquire _ _ log := log
  mark _ _ log := log

/-! ## The monad -/

/-- What a run changes. -/
structure World (σ : Type) where
  heap : Heap
  /-- The lines printed. -/
  output : Array String
  /-- The number of units that are active. -/
  depth : Nat
  record : σ

/-- A run with a result of some type. No outcome means that its fuel was spent. -/
def Run (σ α : Type) : Type := World σ → Option (Except Abort α) × World σ

namespace Run

variable {σ α β : Type}

/-- The run that does nothing. -/
def result (a : α) : Run σ α := fun w => (some (.ok a), w)

/-- One run after another; the second starts only from a result of the first. -/
def andThen (x : Run σ α) (f : α → Run σ β) : Run σ β := fun w =>
  match x w with
  | (some (.ok a), w) => f a w
  | (some (.error u), w) => (some (.error u), w)
  | (none, w) => (none, w)

instance : Monad (Run σ) where
  pure := result
  bind := andThen

/-- The run that spends its fuel. -/
def exhausted : Run σ α := fun w => (none, w)

/-- The run that ends with what an earlier one ended with. -/
def conclude (outcome : Except Abort α) : Run σ α := fun w => (some outcome, w)

/-- How a run ends, as a result; only spent fuel ends this run too. -/
def outcome (x : Run σ α) : Run σ (Except Abort α) := fun w =>
  match x w with
  | (some o, w) => (some (.ok o), w)
  | (none, w) => (none, w)

/-- Raises an exception. -/
def throw (value : Value) : Run σ α := conclude (.error (.thrown value))

/-- Raises the exception of a fault, if there is one. -/
def ofFault : Except Fault α → Run σ α
  | .ok a => result a
  | .error fault => throw (.str fault.message)

/-- What a run reads from the world. -/
def read (f : World σ → α) : Run σ α := fun w => (some (.ok (f w)), w)

/-- Changes the world. -/
def change (f : World σ → World σ) : Run σ Unit := fun w => (some (.ok ()), f w)

/-- Changes the heap, with a result. -/
def onHeap (f : Heap → α × Heap) : Run σ α := fun w =>
  (some (.ok (f w.heap).1), { w with heap := (f w.heap).2 })

/-- Changes the record. -/
def onRecord (f : σ → σ) : Run σ Unit := change fun w => { w with record := f w.record }

/-- Prints a line. -/
def print (line : String) : Run σ Unit :=
  change fun w => { w with output := w.output.push line }

/-- Ends with a failure of the host, which the host notes. -/
def fail (r : Recorder σ) (error : HostError) : Run σ α := do
  onRecord (r.note (.failed error))
  conclude (.error (.failed error))

@[simp] theorem pure_apply (a : α) (w : World σ) : (pure a : Run σ α) w = (some (.ok a), w) := rfl

/-- A sequence of runs, opened at a world. -/
theorem bind_apply (x : Run σ α) (f : α → Run σ β) (w : World σ) :
    (x >>= f) w = match x w with
      | (some (.ok a), w) => f a w
      | (some (.error u), w) => (some (.error u), w)
      | (none, w) => (none, w) := rfl

/-- What comes first does not depend on how a sequence of runs is bracketed. -/
instance : LawfulMonad (Run σ) :=
  LawfulMonad.mk' _
    (by
      intro α x
      funext w
      show andThen x result w = x w
      unfold andThen
      rcases x w with ⟨_ | _ | _, _⟩ <;> rfl)
    (fun _ _ => rfl)
    (by
      intro α β γ x f g
      funext w
      show andThen (andThen x f) g w = andThen x (fun a => andThen (f a) g) w
      unfold andThen
      rcases x w with ⟨_ | _ | _, _⟩ <;> rfl)

end Run

end SpanCoverage.Host
