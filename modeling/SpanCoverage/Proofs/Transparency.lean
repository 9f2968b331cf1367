import SpanCoverage.Proofs.Accepted
import SpanCoverage.Proofs.Determinism
import SpanCoverage.Proofs.Loading
import SpanCoverage.Proofs.Splicing

/-!
# Instrumentation is transparent

A host that loads instrumented programs and one that loads the same programs as they were get the
same answers from the same calls, whatever becomes of the payloads on the way.

The main results are:

* `Session.Mirror` — the invariant: the machines hold the same units, plain here and injected there,
  and agree in all that a program sees.
* `answers_iff_of_instruments` — the calls of two such hosts end together, with the same results and
  the same lines printed.
-/

namespace SpanCoverage.Host

/-! ## Steps on instrumented programs -/

/-- The steps of a host on plain programs, beside the same steps on the programs instrumented: each
is accepted by the analysis, and instrumented with any options and any coverage map by which that
succeeds.  The host of the instrumented programs may flush at any time. -/
inductive Instruments : List Step → List Step → Prop
  | nil : Instruments [] []
  | load {p : Program} {own coverage : CoverageMap} {options : InjectionOptions}
    {ip : InstrumentedProgram} {steps steps' : List Step} (accepted : p.analyze = .ok own)
    (instrumented : p.instrument options coverage = .ok ip) (rest : Instruments steps steps') :
    Instruments (.loadPlain p :: steps) (.load ip :: steps')
  | call (name : String) (args : List Value) {steps steps' : List Step}
    (rest : Instruments steps steps') :
    Instruments (.call name args :: steps) (.call name args :: steps')
  | apply (callee : Value) (args : List Value) {steps steps' : List Step}
    (rest : Instruments steps steps') :
    Instruments (.apply callee args :: steps) (.apply callee args :: steps')
  | flush {steps steps' : List Step} (rest : Instruments steps steps') :
    Instruments steps (.flush :: steps')

/-! ## Machines side by side -/

/-- Two sessions that agree in all that a program sees, on machines that hold the same units, plain
on the left and injected on the right. -/
structure Session.Mirror {σ τ : Type} (s : Session σ) (t : Session τ) : Prop where
  machine : s.machine.Mirror Injected t.machine
  like : s.Like (fun _ _ => True) t

/-- Any two recorders keep the relation that always holds. -/
theorem tracks_true {σ τ : Type} (r : Recorder σ) (r' : Recorder τ)
    (place : MethodToken → Placement) : TracksAll (fun _ _ _ => True) r r' place where
  tracks _ := ⟨fun _ _ _ _ => trivial, fun _ _ _ _ => trivial, fun _ _ _ _ _ => trivial,
    fun _ _ _ _ _ _ _ _ => trivial⟩
  back _ _ _ _ _ := trivial

/-- The units of machines that mirror each other run alike, for some placement of the probes. -/
theorem Machine.Mirror.code {m m' : Machine} (h : m.Mirror Injected m') {σ τ : Type}
    (r : Recorder σ) (r' : Recorder τ) :
    ∃ place, CodeMirror (fun _ _ _ => True) r r' place m.code m'.code := by
  have placed : ∀ token, ∃ p : Placement, ∀ place : MethodToken → Placement, place token = p →
      Option.Rel (UnitMirror (fun _ _ _ => True) r r' place) (m.code.units.get? token)
        (m'.code.units.get? token) := by
    intro token
    have hunits := h.units token
    generalize m.code.units.get? token = u at hunits ⊢
    generalize m'.code.units.get? token = u' at hunits ⊢
    cases hunits with
    | none => exact ⟨.none, fun _ _ => .none⟩
    | some hu =>
      obtain ⟨own, plain, injected⟩ := hu
      cases injected with
      | spliced table placed =>
        refine ⟨table.placement, fun place hplace => .some ?_⟩
        rw [← own] at hplace
        rw [← hplace]
        exact .spliced plain fun _ _ _ _ _ => trivial
      | stripped =>
        rw [CodeUnit.unit_withoutProbes]
        refine ⟨.none, fun place hplace => .some (.stripped plain ?_ fun _ _ _ _ _ => trivial)⟩
        rw [own, hplace]
  obtain ⟨place, hplace⟩ := Classical.axiomOfChoice placed
  exact ⟨place, h.maxDepth, fun token => hplace token place rfl⟩

/-! ## Calling -/

section Calls

variable {σ τ ρ ω : Type} {s : Session σ} {t : Session τ}

/-- A call on machines that mirror each other ends on both with one answer, or on neither. -/
theorem Session.Mirror.apply (h : s.Mirror t) (rig : Rig σ ρ) (rig' : Rig τ ω) (callee : Value)
    (args : List Value) (fuel : Nat) :
    EndAlike Session.Mirror (rig.apply s callee args fuel) (rig'.apply t callee args fuel) := by
  obtain ⟨place, hcode⟩ := h.machine.code (rig.recorder s.machine) (rig'.recorder t.machine)
  have hsteps := steps_mirror (tracks_true _ _ place) hcode (fuel + 1) fun _ => False
  refine Rig.apply_like h.like (hsteps.call callee args) fun w v hw => ⟨?_, ?_⟩
  · exact ⟨h.machine.names, h.machine.maxDepth, h.machine.units⟩
  · exact ⟨hw.output, hw.depth, hw.heap, trivial⟩

theorem Session.Mirror.call (h : s.Mirror t) (rig : Rig σ ρ) (rig' : Rig τ ω) (name : String)
    (args : List Value) (fuel : Nat) :
    EndAlike Session.Mirror (rig.call s name args fuel) (rig'.call t name args fuel) :=
  Rig.call_like h h.machine.names (fun callee => h.apply rig rig' callee args fuel) name

/-- Where calls end alike, and the further answers are the same, so are the answers from the call
on. -/
theorem Session.Mirror.answers_after {f : Nat → Option (Except HostError Value × Session σ)}
    {g : Nat → Option (Except HostError Value × Session τ)} {rig : Rig σ ρ} {rig' : Rig τ ω}
    {steps steps' : List Step} (hcall : ∀ fuel, EndAlike Session.Mirror (f fuel) (g fuel))
    (hrest : ∀ {s' : Session σ} {t' : Session τ}, s'.Mirror t' →
      ∀ rest, rig.Answers s' steps rest ↔ rig'.Answers t' steps' rest)
    (answers : List (Except HostError Value × Array String)) :
    (∃ fuel result s' rest, f fuel = some (result, s') ∧ rig.Answers s' steps rest ∧
        answers = (result, s'.machine.output) :: rest) ↔
      ∃ fuel result t' rest, g fuel = some (result, t') ∧ rig'.Answers t' steps' rest ∧
        answers = (result, t'.machine.output) :: rest := by
  constructor
  · rintro ⟨fuel, result, s', rest, hs, hanswers, rfl⟩
    obtain ⟨t', ht, hnext⟩ := (hcall fuel).of_left hs
    exact ⟨fuel, result, t', rest, ht, (hrest hnext rest).1 hanswers, by rw [hnext.like.output]⟩
  · rintro ⟨fuel, result, t', rest, ht, hanswers, rfl⟩
    obtain ⟨s', hs, hnext⟩ := (hcall fuel).of_right ht
    exact ⟨fuel, result, s', rest, hs, (hrest hnext rest).2 hanswers, by rw [hnext.like.output]⟩

/-- Sessions that mirror each other have the same answers. -/
theorem Session.Mirror.answers_iff {s t : Session Memory} (h : s.Mirror t)
    {steps steps' : List Step} (hsteps : Instruments steps steps')
    (answers : List (Except HostError Value × Array String)) :
    Rig.payloads.Answers s steps answers ↔ Rig.payloads.Answers t steps' answers := by
  induction hsteps generalizing s t answers with
  | nil => rw [Rig.answers_nil, Rig.answers_nil]
  | @load p own coverage options ip steps steps' accepted instrumented rest ih =>
    rw [Rig.answers_loadPlain, Rig.answers_load]
    obtain ⟨houtput, hdepth⟩ := s.machine.loadPlain_keeps p
    obtain ⟨houtput', hdepth'⟩ := t.machine.load_keeps t.record ip
    have hnext : Session.Mirror { s with machine := s.machine.loadPlain p }
        ⟨(t.machine.load t.record ip).1, t.heap, (t.machine.load t.record ip).2⟩ :=
      ⟨h.machine.load accepted instrumented (fun _ _ _ => CodeUnit.instrument_ok)
          t.record,
        houtput.trans (h.like.output.trans houtput'.symm),
        hdepth.trans (h.like.depth.trans hdepth'.symm), h.like.heap, trivial⟩
    exact ih hnext answers
  | call name args rest ih =>
    rw [Rig.answers_call, Rig.answers_call]
    exact Session.Mirror.answers_after (h.call Rig.payloads Rig.payloads name args) ih answers
  | apply callee args rest ih =>
    rw [Rig.answers_apply, Rig.answers_apply]
    exact Session.Mirror.answers_after (h.apply Rig.payloads Rig.payloads callee args) ih answers
  | flush rest ih =>
    rw [Rig.answers_flush (s := t)]
    have hnext : s.Mirror { t with record := (Rig.payloads.flush t.record).2 } :=
      ⟨h.machine, h.like.output, h.like.depth, h.like.heap, trivial⟩
    exact ih hnext answers

/-- **Hosts of plain and of instrumented programs get the same answers from the same calls.**  A
closure is a value over the heap of its machine; since both machines start on one heap and keep
their heaps equal, closures that correspond are equal, and a host passes them on as they are. -/
theorem answers_iff_of_instruments {steps steps' : List Step} (h : Instruments steps steps')
    (maxDepth : Nat) (heap : Heap) (memory memory' : Memory)
    (answers : List (Except HostError Value × Array String)) :
    Rig.payloads.Answers (.fresh maxDepth heap memory) steps answers ↔
      Rig.payloads.Answers (.fresh maxDepth heap memory') steps' answers := by
  have hfresh : (Session.fresh maxDepth heap memory).Mirror (Session.fresh maxDepth heap memory') :=
    ⟨⟨rfl, rfl, fun _ => .none⟩, rfl, rfl, rfl, trivial⟩
  exact hfresh.answers_iff h answers

end Calls

theorem greeting_answers :
    Rig.payloads.Answers (.fresh 8 {} {}) [.load greetingInstrumented, .call "main" [], .flush]
      [(.ok .null, #["hello"])] := by
  have hsteps : Instruments [.loadPlain greeting, .call "main" []]
      [.load greetingInstrumented, .call "main" [], .flush] :=
    .load greeting_analyze greeting_instrument (.call "main" [] (.flush .nil))
  refine (answers_iff_of_instruments hsteps 8 {} {} {} _).1 ?_
  exact ⟨_, _, .step (.loadPlain _ _) (.step (.call 4 rfl) (.done _)), rfl⟩

end SpanCoverage.Host
