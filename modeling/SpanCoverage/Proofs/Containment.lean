import SpanCoverage.Proofs.Confinement
import SpanCoverage.Proofs.Determinism

/-!
# Control stays in its unit

The analysis refuses a unit in which a jump has no target around it.  This file shows that the check
is enough: on accepted programs the host never finds control outside a unit, neither in plain units
nor in those that injection made of them, in whatever order they are loaded and called.

The main results are:

* `Rig.Safe.runs` — the sessions of accepted programs keep control in its units.
* `control_stays_in_unit` — no call of an accepted program ends with, or comes by, control that has
  left its unit.
-/

namespace SpanCoverage.Host

open Analysis

variable {σ : Type}

/-! ## Loading -/

/-- Loading an accepted program. -/
theorem Code.Confined.loadPlain {p : Program} {coverage : CoverageMap}
    (accepted : p.analyze = .ok coverage) {m : Machine} (h : m.code.Confined) :
    (m.loadPlain p).code.Confined :=
  Code.All.loadPlain
    (fun u hu => (CodeUnit.wellFormed ((Program.analyze_ok accepted).1 u hu)).2) h

/-- Loading what injection made of such a program. -/
theorem Code.Confined.load {p : Program} {own coverage : CoverageMap} {options : InjectionOptions}
    {ip : InstrumentedProgram} (accepted : p.analyze = .ok own)
    (instrumented : p.instrument options coverage = .ok ip) {m : Machine} (h : m.code.Confined)
    (memory : Memory) : (m.load memory ip).1.code.Confined := by
  obtain ⟨-, hunits⟩ := Program.instrument_ok instrumented
  refine Code.All.load (fun v hv => ?_) h memory
  have hmem : Except.ok v ∈ p.allUnits.map (CodeUnit.instrument options coverage) := by
    rw [hunits]
    exact List.mem_map_of_mem hv
  obtain ⟨u, hu, hv⟩ := List.mem_map.1 hmem
  obtain ⟨plain, confined⟩ := CodeUnit.wellFormed ((Program.analyze_ok accepted).1 u hu)
  exact confined.injected (CodeUnit.instrument_ok hv) plain

/-! ## Sessions -/

/-- A step that loads accepted programs only, plain or as injection made them with any options and
any coverage map by which it succeeds. -/
inductive Step.Accepted : Step → Prop
  | loadPlain {p : Program} {coverage : CoverageMap} (accepted : p.analyze = .ok coverage) :
    Step.Accepted (.loadPlain p)
  | load {p : Program} {own coverage : CoverageMap} {options : InjectionOptions}
    {ip : InstrumentedProgram} (accepted : p.analyze = .ok own)
    (instrumented : p.instrument options coverage = .ok ip) : Step.Accepted (.load ip)
  | call (name : String) (args : List Value) : Step.Accepted (.call name args)
  | apply (callee : Value) (args : List Value) : Step.Accepted (.apply callee args)
  | flush : Step.Accepted .flush

/-- An answer that does not say that control has left its unit. -/
def Reply.Tame {ρ : Type} : Reply ρ → Prop
  | .answered (.error error) _ => error.Tame
  | _ => True

/-- A rig that loads as machines do, and whose records stay clean but for what its runs do. -/
structure Rig.Safe {ρ : Type} (rig : Rig σ ρ) (clean : σ → Prop) : Prop where
  load : ∀ p m s, clean s →
    clean (rig.load p m s).2 ∧ ∃ memory, (rig.load p m s).1 = (m.load memory p).1
  recorder : ∀ m, (rig.recorder m).Calm ⟨clean, fun _ => False⟩
  flush : ∀ s, clean s → clean (rig.flush s).2

/-- A session on a machine that keeps control in its units, with a clean record. -/
structure Session.Confined (clean : σ → Prop) (s : Session σ) : Prop where
  code : s.machine.code.Confined
  record : clean s.record

section Sessions

variable {ρ : Type} {rig : Rig σ ρ} {clean : σ → Prop} {s s' : Session σ}

/-- The run of a call, for any fuel and finished or not. -/
theorem Rig.Safe.callRun (hrig : rig.Safe clean) (hs : s.Confined clean) (callee : Value)
    (args : List Value) (fuel : Nat) :
    clean (rig.callRun s callee args fuel s.world).2.record ∧
      Ending (fun _ => True) Abort.Tame (rig.callRun s callee args fuel s.world).1 := by
  have hsteps := steps_confined (hrig.recorder s.machine) hs.code (fuel + 1)
  have hrun := hsteps.call callee args s.world
  exact (hrun.2 hs.record trivial).resolve_left id

theorem Rig.Safe.apply (hrig : rig.Safe clean) (hs : s.Confined clean) {callee : Value}
    {args : List Value} {fuel : Nat} {result : Except HostError Value}
    (h : rig.apply s callee args fuel = some (result, s')) :
    s'.Confined clean ∧ (Reply.answered result s'.machine.output : Reply ρ).Tame := by
  have hrun := hrig.callRun hs callee args fuel
  obtain ⟨outcome, w, hw, rfl, rfl⟩ := Rig.apply_some h
  rw [hw] at hrun
  refine ⟨⟨hs.code, hrun.1⟩, ?_⟩
  rcases outcome with (value | error) | value
  · exact fun _ _ => by simp
  · exact hrun.2
  · trivial

/-- Every step of a session on accepted programs keeps control in its units. -/
theorem Rig.Safe.does (hrig : rig.Safe clean) (hs : s.Confined clean) {step : Step}
    {reply : Reply ρ} (hstep : step.Accepted) (h : rig.Does s step reply s') :
    s'.Confined clean ∧ reply.Tame := by
  cases h with
  | loadPlain p =>
    cases hstep with
    | loadPlain accepted => exact ⟨⟨hs.code.loadPlain accepted, hs.record⟩, trivial⟩
  | load p =>
    cases hstep with
    | load accepted instrumented =>
      obtain ⟨hclean, memory, hload⟩ := hrig.load p s.machine s.record hs.record
      refine ⟨⟨?_, hclean⟩, trivial⟩
      show (rig.load p s.machine s.record).1.code.Confined
      rw [hload]
      exact hs.code.load accepted instrumented memory
  | apply fuel h => exact hrig.apply hs h
  | flush => exact ⟨⟨hs.code, hrig.flush _ hs.record⟩, trivial⟩
  | call fuel h =>
    rcases Rig.call_some h with ⟨token, happly⟩ | ⟨rfl, rfl⟩
    · exact hrig.apply hs happly
    · exact ⟨hs, fun _ _ => by simp⟩

/-- So do all its steps together. -/
theorem Rig.Safe.runs (hrig : rig.Safe clean) {steps : List Step} {replies : List (Reply ρ)}
    (hsteps : ∀ step ∈ steps, step.Accepted) (h : rig.Runs s steps replies s')
    (hs : s.Confined clean) : s'.Confined clean ∧ ∀ reply ∈ replies, reply.Tame :=
  h.keeps (fun hstep hs hdoes => hrig.does hs hstep hdoes) hsteps hs

/-- Every record that a session comes by is clean. -/
theorem Rig.Safe.shows (hrig : rig.Safe clean) {steps : List Step}
    (hsteps : ∀ step ∈ steps, step.Accepted) (hs : s.Confined clean) {record : σ}
    (h : rig.Shows s steps record) : clean record := by
  cases h with
  | behind hruns => exact (hrig.runs hsteps hruns hs).1.record
  | within hruns callee args fuel =>
    exact (hrig.callRun (hrig.runs hsteps hruns hs).1 callee args fuel).1

end Sessions

theorem Session.Confined.fresh {clean : σ → Prop} {record : σ} (h : clean record) (maxDepth : Nat)
    (heap : Heap) : (Session.fresh maxDepth heap record).Confined clean := by
  refine ⟨?_, h⟩
  intro token u hu
  cases hu

theorem payloads_safe : Rig.payloads.Safe fun _ => True where
  load _ _ memory _ := ⟨trivial, memory, rfl⟩
  recorder _ := ⟨fun _ _ _ => ⟨id, fun _ _ => .inr ⟨trivial, trivial⟩⟩, fun _ _ h => h,
    fun _ _ _ => ⟨id, fun _ _ => .inr ⟨trivial, trivial⟩⟩,
    fun _ _ _ => ⟨id, fun _ _ => .inr ⟨trivial, trivial⟩⟩⟩
  flush _ _ := trivial

/-- A log in which no control has left its unit. -/
def Log.Tame (log : Log) : Prop := ∀ error, .failed error ∈ log.events → error.Tame

theorem observed_safe : Rig.observed.Safe Log.Tame where
  load _ _ _ h := ⟨h, {}, rfl⟩
  recorder _ := by
    refine ⟨fun event hevent log => ⟨id, fun hlog _ => .inr ⟨fun error he => ?_, trivial⟩⟩,
      fun _ _ h => h, fun _ _ _ => .refl id, fun _ _ _ => .refl id⟩
    rcases List.mem_append.1 he with he | he
    · exact hlog error he
    · exact hevent error (List.mem_singleton.1 he).symm
  flush log h := h

/-- **Control stays in its unit.**  No call on accepted programs ends with control outside its unit;
under observation, the host never comes by such a failure either, in the called unit or in any
other, not even in a call that does not end; and whatever node of a loaded unit is run, its
surroundings take the flow that comes out of it. -/
theorem control_stays_in_unit {script : List Step} (h : ∀ step ∈ script, step.Accepted)
    (maxDepth : Nat) (heap : Heap) (memory : Memory) :
    (∀ replies s, Rig.payloads.Runs (.fresh maxDepth heap memory) script replies s →
      (∀ unit escape output,
        Reply.answered (.error (.strayControlFlow unit escape)) output ∉ replies) ∧
      ∀ token u ctx n, s.machine.code.units.get? token = some u →
        Occurs { unit := u.unit.name } u.unit.root ctx n →
        ∀ frame site fuel w flow w',
          exec s.machine.recorder (steps s.machine.code s.machine.recorder fuel)
            frame site n w = (some (.ok flow), w') → Takes ctx flow) ∧
    ∀ log, Rig.observed.Shows (.fresh maxDepth heap {}) script log →
      ∀ unit escape, .failed (.strayControlFlow unit escape) ∉ log.events := by
  refine ⟨fun replies s hruns => ?_, fun log hshows unit escape hstray => ?_⟩
  · have hfresh : (Session.fresh maxDepth heap memory).Confined fun _ => True := .fresh trivial _ _
    obtain ⟨hs, hreplies⟩ := payloads_safe.runs h hruns hfresh
    refine ⟨fun unit escape output hstray => hreplies _ hstray unit escape rfl, ?_⟩
    intro token u ctx n hu hoccurs frame site fuel w flow w' hexec
    have hcalm : s.machine.recorder.Calm ⟨fun _ => True, fun _ => False⟩ :=
      payloads_safe.recorder s.machine
    have hnode := (hs.code token u hu).of_occurs hoccurs
    have hstays := exec_confined hcalm (steps_confined hcalm hs.code fuel) frame n hnode site w
    rw [hexec] at hstays
    exact ((hstays.2 trivial trivial).resolve_left id).2
  · have hfresh : (Session.fresh maxDepth heap {}).Confined Log.Tame :=
      .fresh (by simp [Log.Tame]) _ _
    exact observed_safe.shows h hfresh hshows _ hstray unit escape rfl

/-- A session with the program in both forms, and the log that it leaves. -/
theorem greeting_contained :
    ∃ log, Rig.observed.Shows (.fresh 8 {} {})
        [.load greetingInstrumented, .loadPlain greeting, .call "main" []] log ∧
      .left ⟨0x06000001⟩ 0 ∈ log.events ∧
      ¬ ∃ unit escape, .failed (.strayControlFlow unit escape) ∈ log.events := by
  have greeted : ∃ log, Rig.observed.Shows (.fresh 8 {} {})
      [.load greetingInstrumented, .loadPlain greeting, .call "main" []] log ∧
      .left ⟨0x06000001⟩ 0 ∈ log.events :=
    ⟨_, .behind (.step (.load _ _) (.step (.loadPlain _ _) (.step (.call 4 rfl) (.done _)))),
      by decide⟩
  obtain ⟨log, hlog, hleft⟩ := greeted
  refine ⟨log, hlog, hleft, ?_⟩
  rintro ⟨unit, escape, hstray⟩
  refine (control_stays_in_unit ?_ 8 {} {}).2 log hlog unit escape hstray
  simp only [List.mem_cons, List.not_mem_nil, or_false, forall_eq_or_imp, forall_eq]
  exact ⟨.load greeting_analyze greeting_instrument, .loadPlain greeting_analyze, .call _ _⟩

end SpanCoverage.Host
