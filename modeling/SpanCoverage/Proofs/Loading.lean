import SpanCoverage.Host.Session
import SpanCoverage.Proofs.Accepted
import SpanCoverage.Proofs.WellFormed

/-!
# What loading changes

Loading puts units under their tokens and changes nothing else that a program sees.  What holds of
every unit that is loaded holds of every unit that can be called.

The main results are:

* `Code.All.loadPlain`, `Code.All.load` — what holds of all units of a machine and of a program also
  holds behind loading the program.
* `Machine.loadPlain_keeps`, `Machine.load_keeps` — loading prints nothing and counts no activation.
* `Machine.Mirror.load` — a machine that loads a program, and one that loads what injection made of
  it, hold the same units.
-/

namespace SpanCoverage.Host

/-! ## The units of a machine -/

/-- Code all of whose units have a property. -/
def Code.All (P : CodeUnit → Prop) (code : Code) : Prop :=
  ∀ token u, code.units.get? token = some u → P u.unit

section Units

variable {P : CodeUnit → Prop} {m : Machine}

theorem Code.All.insert (h : m.code.All P) {u : CodeUnit} (length : Nat) (hu : P u) :
    (m.insert u length).code.All P := by
  intro token v hv
  simp only [Machine.insert, Assoc.get?_set] at hv
  by_cases ht : token = u.token
  · rw [if_pos ht] at hv
    cases hv
    exact hu
  · rw [if_neg ht] at hv
    exact h token v hv

/-- Loading a program whose units have the property. -/
theorem Code.All.loadPlain {p : Program} (hp : ∀ u ∈ p.allUnits, P u) (h : m.code.All P) :
    (m.loadPlain p).code.All P := by
  unfold Machine.loadPlain
  generalize p.allUnits = units at hp
  induction units generalizing m with
  | nil => exact h
  | cons u units ih =>
    simp only [List.mem_cons, forall_eq_or_imp] at hp
    have hnext : (m.insert u 0).code.All P := h.insert 0 hp.1
    exact ih hnext hp.2

theorem Code.All.loadUnits {vs : List InstrumentedUnit} (hvs : ∀ v ∈ vs, P v.unit)
    (h : m.code.All P) (memory : Memory) : (m.loadUnits memory vs).1.code.All P := by
  induction vs generalizing m memory with
  | nil => exact h
  | cons v vs ih =>
    simp only [List.mem_cons, forall_eq_or_imp] at hvs
    have hunit : (m.loadUnit memory v).1.code.All P := by
      unfold Machine.loadUnit
      cases v.slot with
      | none => exact h.insert _ hvs.1
      | some slot =>
        have hslots : Code.All P { m with slots := (m.slots.declare memory slot.token).2.1 }.code :=
          h
        exact hslots.insert _ hvs.1
    exact ih hvs.2 hunit _

/-- Loading an instrumented program whose units have the property. -/
theorem Code.All.load {p : InstrumentedProgram} (hp : ∀ v ∈ p.units, P v.unit)
    (h : m.code.All P) (memory : Memory) : (m.load memory p).1.code.All P := by
  unfold Machine.load
  by_cases hid : p.moduleId = m.moduleId
  · rw [if_pos hid]
    exact h.loadUnits hp memory
  · rw [if_neg hid]
    have hfresh : Code.All P { m with slots := {}, moduleId := p.moduleId }.code := h
    exact hfresh.loadUnits hp memory

end Units

/-! ## What a program sees of a machine -/

/-- Loading prints nothing and counts no activation. -/
theorem Machine.loadPlain_keeps (m : Machine) (p : Program) :
    (m.loadPlain p).output = m.output ∧ (m.loadPlain p).depth = m.depth := by
  unfold Machine.loadPlain
  generalize p.allUnits = units
  induction units generalizing m with
  | nil => exact ⟨rfl, rfl⟩
  | cons u units ih => exact ih (m.insert u 0)

theorem Machine.loadUnits_keeps (m : Machine) (memory : Memory) (units : List InstrumentedUnit) :
    (m.loadUnits memory units).1.output = m.output ∧
      (m.loadUnits memory units).1.depth = m.depth := by
  induction units generalizing m memory with
  | nil => exact ⟨rfl, rfl⟩
  | cons u units ih =>
    have hunit : (m.loadUnit memory u).1.output = m.output ∧
        (m.loadUnit memory u).1.depth = m.depth := by
      unfold Machine.loadUnit
      cases u.slot <;> exact ⟨rfl, rfl⟩
    obtain ⟨houtput, hdepth⟩ := ih (m.loadUnit memory u).1 (m.loadUnit memory u).2
    exact ⟨houtput.trans hunit.1, hdepth.trans hunit.2⟩

theorem Machine.load_keeps (m : Machine) (memory : Memory) (p : InstrumentedProgram) :
    (m.load memory p).1.output = m.output ∧ (m.load memory p).1.depth = m.depth := by
  unfold Machine.load
  by_cases hid : p.moduleId = m.moduleId
  · rw [if_pos hid]
    exact m.loadUnits_keeps memory p.units
  · rw [if_neg hid]
    exact Machine.loadUnits_keeps { m with slots := {}, moduleId := p.moduleId } memory p.units

/-! ## Machines side by side -/

/-- The entries of two machines under a token: a plain unit, and what was made of it. -/
inductive EntryMirror (Made : CodeUnit → InstrumentedUnit → Prop) (token : MethodToken) :
    LoadedUnit → LoadedUnit → Prop
  | mk {u : CodeUnit} {v : InstrumentedUnit} (own : u.token = token) (plain : Plain u.root)
    (made : Made u v) : EntryMirror Made token ⟨u, 0⟩ ⟨v.unit, v.payloadLength⟩

/-- Two machines that hold the same units, plain on the left, and on the right what was made of
them. -/
structure Machine.Mirror (Made : CodeUnit → InstrumentedUnit → Prop) (m m' : Machine) : Prop where
  names : m.names = m'.names
  maxDepth : m.code.maxDepth = m'.code.maxDepth
  units : ∀ token, Option.Rel (EntryMirror Made token) (m.code.units.get? token)
    (m'.code.units.get? token)

section Mirror

variable {Made : CodeUnit → InstrumentedUnit → Prop} {m m' : Machine}

/-- One more unit on both sides. -/
theorem Machine.Mirror.insert (h : m.Mirror Made m') {u : CodeUnit} {v : InstrumentedUnit}
    (plain : Plain u.root) (made : Made u v) (injected : Injected u v) (slots : SlotTable) :
    (m.insert u 0).Mirror Made ({ m' with slots := slots }.insert v.unit v.payloadLength) := by
  have hname : v.unit.name = u.name := congrArg UnitHeader.name injected.header_eq
  have htoken : v.unit.token = u.token := congrArg UnitHeader.token injected.header_eq
  refine ⟨?_, h.maxDepth, fun token => ?_⟩
  · simp only [Machine.insert, hname, htoken, h.names]
  · simp only [Machine.insert, htoken, Assoc.get?_set]
    by_cases ht : token = u.token
    · rw [if_pos ht, if_pos ht]
      exact .some ⟨ht.symm, plain, made⟩
    · rw [if_neg ht, if_neg ht]
      exact h.units token

/-- The units of a program on the left, and what injection made of them on the right. -/
theorem Machine.Mirror.loadUnits {options : InjectionOptions} {coverage : CoverageMap}
    {units : List CodeUnit} {injected : List InstrumentedUnit}
    (hplain : ∀ u ∈ units, Plain u.root)
    (hmade : ∀ u ∈ units, ∀ v, u.instrument options coverage = .ok v → Made u v)
    (hunits : units.map (CodeUnit.instrument options coverage) = injected.map .ok)
    (h : m.Mirror Made m') (memory : Memory) :
    (units.foldl (fun m u => m.insert u 0) m).Mirror Made (m'.loadUnits memory injected).1 := by
  induction units generalizing m m' memory injected with
  | nil =>
    cases injected with
    | nil => exact h
    | cons => cases hunits
  | cons u units ih =>
    cases injected with
    | nil => cases hunits
    | cons v injected =>
      obtain ⟨hv, hrest⟩ := List.cons.inj hunits
      simp only [List.mem_cons, forall_eq_or_imp] at hplain hmade
      have hinsert := h.insert hplain.1 (hmade.1 v hv) (CodeUnit.instrument_ok hv)
      refine ih hplain.2 hmade.2 hrest ?_ _
      show (m.insert u 0).Mirror Made (m'.loadUnit memory v).1
      unfold Machine.loadUnit
      cases v.slot with
      | none => exact hinsert m'.slots
      | some slot => exact hinsert (m'.slots.declare memory slot.token).2.1

/-- A program on the left, and the program instrumented on the right. -/
theorem Machine.Mirror.load {p : Program} {own coverage : CoverageMap} {options : InjectionOptions}
    {ip : InstrumentedProgram} (accepted : p.analyze = .ok own)
    (instrumented : p.instrument options coverage = .ok ip)
    (hmade : ∀ u ∈ p.allUnits, ∀ v, u.instrument options coverage = .ok v → Made u v)
    (h : m.Mirror Made m') (memory : Memory) :
    (m.loadPlain p).Mirror Made (m'.load memory ip).1 := by
  have hplain : ∀ u ∈ p.allUnits, Plain u.root :=
    fun u hu => (CodeUnit.wellFormed ((Program.analyze_ok accepted).1 u hu)).1
  obtain ⟨-, hunits⟩ := Program.instrument_ok instrumented
  unfold Machine.load
  by_cases hid : ip.moduleId = m'.moduleId
  · rw [if_pos hid]
    exact h.loadUnits hplain hmade hunits memory
  · rw [if_neg hid]
    have hfresh : m.Mirror Made { m' with slots := {}, moduleId := ip.moduleId } :=
      ⟨h.names, h.maxDepth, h.units⟩
    exact hfresh.loadUnits hplain hmade hunits memory

end Mirror

end SpanCoverage.Host
