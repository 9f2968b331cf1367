import Mathlib.Control.Monad.Basic
import SpanCoverage.Host.Fleet

/-!
# Replaying sessions

`Rig.does?` performs one step of a session, `Rig.replay?` a whole session, and `Fleet.replay?` one
of several machines; each call gets the same fuel. Main statements: `Rig.runs_of_replay?` and
`Fleet.runs_of_replay?`, which say that what is replayed is a session.
-/

namespace SpanCoverage.Host

deriving instance DecidableEq for Reply

variable {σ ρ : Type}

namespace Rig

variable (rig : Rig σ ρ)

/-- The reply to one step, and the session behind it. -/
def does? (fuel : Nat) (s : Session σ) : Step → Option (Reply ρ × Session σ)
  | .loadPlain p => some (.loaded, { s with machine := s.machine.loadPlain p })
  | .load p =>
    some (.loaded, ⟨(rig.load p s.machine s.record).1, s.heap, (rig.load p s.machine s.record).2⟩)
  | .call name args =>
    (rig.call s name args fuel).map fun (result, s') => (.answered result s'.machine.output, s')
  | .apply callee args =>
    (rig.apply s callee args fuel).map fun (result, s') => (.answered result s'.machine.output, s')
  | .flush => some (.flushed (rig.flush s.record).1, { s with record := (rig.flush s.record).2 })

/-- The replies to the steps of a session, and the session behind them. -/
def replay? (fuel : Nat) (s : Session σ) : List Step → Option (List (Reply ρ) × Session σ)
  | [] => some ([], s)
  | step :: steps => do
    let (reply, s) ← rig.does? fuel s step
    let (replies, s') ← replay? fuel s steps
    return (reply :: replies, s')

variable {rig} {fuel : Nat} {s s' : Session σ} {reply : Reply ρ}

theorem does_of_does? {step : Step} (h : rig.does? fuel s step = some (reply, s')) :
    rig.Does s step reply s' := by
  cases step with
  | loadPlain p =>
    cases h
    exact .loadPlain s p
  | load p =>
    cases h
    exact .load s p
  | call name args =>
    obtain ⟨⟨result, t⟩, hcall, he⟩ := Option.map_eq_some_iff.1 h
    cases he
    exact .call fuel hcall
  | apply callee args =>
    obtain ⟨⟨result, t⟩, happly, he⟩ := Option.map_eq_some_iff.1 h
    cases he
    exact .apply fuel happly
  | flush =>
    cases h
    exact .flush s

/-- **What is replayed is a session.** -/
theorem runs_of_replay? {script : List Step} {replies : List (Reply ρ)}
    (h : rig.replay? fuel s script = some (replies, s')) : rig.Runs s script replies s' := by
  induction script generalizing s replies with
  | nil =>
    cases h
    exact .done _
  | cons step steps ih =>
    simp only [replay?, Option.bind_eq_bind, Option.bind_eq_some_iff, Prod.exists] at h
    obtain ⟨reply, t, hdoes, rest, t', hrest, he⟩ := h
    cases he
    exact .step (does_of_does? hdoes) (ih hrest)

end Rig

namespace Fleet

variable {κ : Type} [DecidableEq κ] (rigs : κ → Rig σ ρ)

/-- The replies to the steps of a session, and the machines behind them. -/
def replay? (fuel : Nat) (f : Fleet κ σ) : List (κ × Step) → Option (List (Reply ρ) × Fleet κ σ)
  | [] => some ([], f)
  | (k, step) :: steps => do
    let (reply, s) ← (rigs k).does? fuel (f.session k) step
    let (replies, f') ← replay? fuel (f.put k s) steps
    return (reply :: replies, f')

variable {rigs} {fuel : Nat} {f : Fleet κ σ}

/-- **What is replayed is a session of the machines.** -/
theorem runs_of_replay? {script : List (κ × Step)} {replies : List (Reply ρ)} {f' : Fleet κ σ}
    (h : replay? rigs fuel f script = some (replies, f')) : Runs rigs f script replies f' := by
  induction script generalizing f replies with
  | nil =>
    cases h
    exact .done _
  | cons step steps ih =>
    obtain ⟨k, step⟩ := step
    simp only [replay?, Option.bind_eq_bind, Option.bind_eq_some_iff, Prod.exists] at h
    obtain ⟨reply, s, hdoes, rest, g, hrest, he⟩ := h
    cases he
    exact .step (Rig.does_of_does? hdoes) (ih hrest)

/-- The replies of a replay are those of a session. -/
theorem exists_runs_of_replay? {script : List (κ × Step)} {replies : List (Reply ρ)}
    (h : (replay? rigs fuel f script).map Prod.fst = some replies) :
    ∃ f', Runs rigs f script replies f' := by
  obtain ⟨⟨_, f'⟩, hreplay, rfl⟩ := Option.map_eq_some_iff.1 h
  exact ⟨f', runs_of_replay? hreplay⟩

end Fleet

end SpanCoverage.Host
