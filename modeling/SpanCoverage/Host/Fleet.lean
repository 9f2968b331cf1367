import Mathlib.Logic.Function.Basic
import SpanCoverage.Host.Session

/-!
# Fleets

The machines of one process share its heap and its record. A `Fleet` holds any number of machines
under keys of some type, and a step of a session with them is a step on one of the machines. What
one machine does is described as in `Rig.Does`; the rig may depend on the machine, so that a record
can tell one machine from another.
-/

namespace SpanCoverage.Host

/-- The machines of a process, with what they share. -/
structure Fleet (κ σ : Type) where
  machines : κ → Machine
  heap : Heap
  record : σ

namespace Fleet

variable {κ σ ρ : Type}

/-- Machines that have loaded nothing yet. -/
def fresh (maxDepth : κ → Nat) (heap : Heap) (record : σ) : Fleet κ σ :=
  ⟨fun k => { code := { maxDepth := maxDepth k } }, heap, record⟩

/-- The session of one of the machines. -/
def session (f : Fleet κ σ) (k : κ) : Session σ := ⟨f.machines k, f.heap, f.record⟩

variable [DecidableEq κ]

/-- The fleet behind a step of one of its machines. -/
def put (f : Fleet κ σ) (k : κ) (s : Session σ) : Fleet κ σ :=
  ⟨Function.update f.machines k s.machine, s.heap, s.record⟩

/-- Steps on the machines one after the other, with their answers. -/
inductive Runs (rigs : κ → Rig σ ρ) :
    Fleet κ σ → List (κ × Step) → List (Reply ρ) → Fleet κ σ → Prop
  | done (f : Fleet κ σ) : Runs rigs f [] [] f
  | step {f f' : Fleet κ σ} {k : κ} {step : Step} {steps : List (κ × Step)} {reply : Reply ρ}
    {replies : List (Reply ρ)} {s : Session σ} (first : (rigs k).Does (f.session k) step reply s)
    (rest : Runs rigs (f.put k s) steps replies f') :
    Runs rigs f ((k, step) :: steps) (reply :: replies) f'

/-! ## One machine of a fleet -/

variable {f : Fleet κ σ} {k : κ} {s s' : Session σ}

@[simp] theorem session_put : (f.put k s).session k = s := by
  simp [session, put]

@[simp] theorem put_put : (f.put k s).put k s' = f.put k s' := by
  simp [put]

@[simp] theorem put_session : f.put k (f.session k) = f := by
  simp [session, put]

/-- A session with one machine is a session with this machine of the fleet. -/
theorem runs_of_one {rigs : κ → Rig σ ρ} {script : List Step} {replies : List (Reply ρ)}
    (h : (rigs k).Runs (f.session k) script replies s') :
    Runs rigs f (script.map (Prod.mk k)) replies (f.put k s') := by
  generalize hs : f.session k = s at h
  induction h generalizing f with
  | done =>
    rw [← hs, put_session]
    exact .done f
  | @step _ t _ _ _ _ _ first rest ih =>
    rw [← hs] at first
    have hrest := ih (f := f.put k t) session_put
    rw [put_put] at hrest
    exact .step first hrest

end Fleet

end SpanCoverage.Host
