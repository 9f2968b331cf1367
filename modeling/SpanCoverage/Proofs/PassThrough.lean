import SpanCoverage.Host.Replay
import SpanCoverage.Program.Erasure
import SpanCoverage.Proofs.ForeignTables
import SpanCoverage.Proofs.Registration
import SpanCoverage.Proofs.Reloading

/-!
# Injection that is switched off

With instrumentation switched off, a program passes through: nothing can fail, no unit declares a
payload, and each unit is what it was, less the boundaries of the units nested in it.  Such units
leave the payload memory alone, also where a machine still has filled slots for their tokens from a
time when they had probes.

The main results are:

* `Injection.stripBoundaries_eq` — splicing without probes erases the boundaries of nested units.
* `Rig.record_callRun_eq` — a call changes no memory if the units that it enters have no
  instructions.
* `passes_through` — what a program is when it passes through, and what loading and calling it
  does to the memory.
-/

namespace SpanCoverage

open Node (erase eraseAll erase? eraseArms eraseHandlers)

/-! ## Trees -/

namespace Injection

/-- Wherever a tree stands, splicing without probes erases the boundaries of nested units. -/
def Strips (n : Node) : Prop := ∀ site, splice .none site n = n.erase .boundaries

theorem asBlock_none (site : Nat) (n spliced : Node) : asBlock .none site n spliced = spliced := by
  cases n <;> rfl

section Lists

variable (site : Nat)

theorem spliceAll_none {ns : List Node} (h : ∀ n ∈ ns, Strips n) :
    spliceAll .none site ns = eraseAll .boundaries ns := by
  induction ns generalizing site with
  | nil => rfl
  | cons n ns ih =>
    simp only [List.mem_cons, forall_eq_or_imp] at h
    rw [spliceAll, h.1, ih _ h.2]
    cases n <;> rfl

theorem splice?_none {e : Option Node} (h : ∀ n ∈ e, Strips n) :
    splice? .none site e = erase? .boundaries e := by
  cases e with
  | none => rfl
  | some n => exact congrArg some ((asBlock_none ..).trans (h n rfl site))

theorem spliceFinally_none {f : Option Node} (h : ∀ n ∈ f, Strips n) :
    spliceFinally .none site f = erase? .boundaries f := by
  cases f with
  | none => rfl
  | some n => exact congrArg some ((asBlock_none ..).trans (h n rfl site))

theorem spliceArms_none {arms : List Arm} (h : ∀ a ∈ arms, Strips a.body) :
    spliceArms .none site arms = eraseArms .boundaries arms := by
  induction arms generalizing site with
  | nil => rfl
  | cons a arms ih =>
    obtain ⟨case, body, range⟩ := a
    simp only [List.mem_cons, forall_eq_or_imp] at h
    rw [spliceArms, asBlock_none, h.1, ih _ h.2]
    rfl

theorem spliceHandlers_none {handlers : List Handler} (h : ∀ a ∈ handlers, Strips a.body) :
    spliceHandlers .none site handlers = eraseHandlers .boundaries handlers := by
  induction handlers generalizing site with
  | nil => rfl
  | cons a handlers ih =>
    obtain ⟨binding, body, range⟩ := a
    simp only [List.mem_cons, forall_eq_or_imp] at h
    rw [spliceHandlers, asBlock_none, h.1, ih _ h.2]
    rfl

end Lists

theorem strips (n : Node) : Strips n := by
  induction n using Node.induct with
  | stmt s range => exact fun _ => congrArg (Node.stmt · range) s.mapExprs_id.symm
  | seq ns ih =>
    intro site
    rw [splice, spliceAll_none _ ih]
    rfl
  | branch c t e range iht ihe =>
    intro site
    rw [splice, asBlock_none, iht, splice?_none _ ihe]
    rfl
  | loop test i c u b range ihi ihu ihb =>
    intro site
    simp only [splice, asBlock_none, ihb _, splice?_none _ ihi, splice?_none _ ihu]
    rfl
  | switch value arms range ih =>
    intro site
    rw [splice, spliceArms_none _ ih]
    rfl
  | attempt b handlers f range ihb ihh ihf =>
    intro site
    rw [splice, asBlock_none, ihb, spliceHandlers_none _ ihh, spliceFinally_none _ ihf]
    rfl
  | guarded kind resource b range ihb =>
    intro site
    rw [splice, asBlock_none, ihb]
    rfl
  | label | nested | probe | acquire => exact fun _ => rfl

/-- **Splicing without probes erases the boundaries of nested units**, and changes nothing else. -/
theorem stripBoundaries_eq (root : Node) : stripBoundaries root = root.erase .boundaries :=
  (asBlock_none ..).trans (strips root 0)

/-- Nothing is injected on the way. -/
theorem instructions_stripBoundaries {root : Node} (h : root.instructions = []) :
    (stripBoundaries root).instructions = [] := by
  rw [stripBoundaries, instructions_splice root (root.uninjected h), marksAt_eq]
  simp [Placement.none]

end Injection

namespace Node

section Whole

theorem eraseAll_eq_self {ns : List Node} (h : ∀ n ∈ ns, n.erase .boundaries = n) :
    eraseAll .boundaries ns = ns := by
  induction ns with
  | nil => rfl
  | cons n ns ih =>
    simp only [List.mem_cons, forall_eq_or_imp] at h
    cases n with
    | nested => cases h.1
    | _ => exact congrArg₂ List.cons h.1 (ih h.2)

theorem erase?_eq_self {e : Option Node} (h : ∀ n ∈ e, n.erase .boundaries = n) :
    erase? .boundaries e = e := by
  cases e with
  | none => rfl
  | some n => exact congrArg some (h n rfl)

theorem eraseArms_eq_self {arms : List Arm} (h : ∀ a ∈ arms, a.body.erase .boundaries = a.body) :
    eraseArms .boundaries arms = arms := by
  induction arms with
  | nil => rfl
  | cons a arms ih =>
    obtain ⟨case, body, range⟩ := a
    simp only [List.mem_cons, forall_eq_or_imp] at h
    exact congrArg₂ (fun body rest => ⟨case, body, range⟩ :: rest) h.1 (ih h.2)

theorem eraseHandlers_eq_self {handlers : List Handler}
    (h : ∀ a ∈ handlers, a.body.erase .boundaries = a.body) :
    eraseHandlers .boundaries handlers = handlers := by
  induction handlers with
  | nil => rfl
  | cons a handlers ih =>
    obtain ⟨binding, body, range⟩ := a
    simp only [List.mem_cons, forall_eq_or_imp] at h
    exact congrArg₂ (fun body rest => ⟨binding, body, range⟩ :: rest) h.1 (ih h.2)

/-- **A tree without nested units has no boundary to erase.** -/
theorem erase_boundaries_eq_self (n : Node) : n.allUnits = [] → n.erase .boundaries = n := by
  -- what has no nested units has none in its parts
  have inner {n : Node} (h : n.allUnits = []) : ∀ p ∈ n.parts, p.2.allUnits = [] := by
    rw [allUnits_eq, List.append_eq_nil_iff, List.flatMap_eq_nil_iff] at h
    exact fun p hp => h.2 p.2 (List.mem_map_of_mem hp)
  induction n using Node.induct with
  | stmt s range => exact fun _ => congrArg (Node.stmt · range) s.mapExprs_id
  | seq ns ih =>
    intro h
    have children := inner h
    simp only [parts, List.forall_mem_map] at children
    exact congrArg Node.seq (eraseAll_eq_self fun n hn => ih n hn (children n hn))
  | branch c t e range iht ihe =>
    intro h
    obtain ⟨ht, he⟩ : t.allUnits = [] ∧ ∀ n ∈ e, n.allUnits = [] := by simpa [parts] using inner h
    show Node.branch c (t.erase .boundaries) (erase? .boundaries e) range = _
    rw [iht ht, erase?_eq_self fun n hn => ihe n hn (he n hn)]
  | loop test i c u b range ihi ihu ihb =>
    intro h
    obtain ⟨hi, hb, hu⟩ : (∀ n ∈ i, n.allUnits = []) ∧ b.allUnits = [] ∧
        ∀ n ∈ u, n.allUnits = [] := by
      simpa [parts, or_imp, forall_and] using inner h
    show Node.loop test (erase? .boundaries i) c (erase? .boundaries u) (b.erase .boundaries)
      range = _
    rw [ihb hb, erase?_eq_self fun n hn => ihi n hn (hi n hn),
      erase?_eq_self fun n hn => ihu n hn (hu n hn)]
  | switch value arms range ih =>
    intro h
    have bodies : ∀ a ∈ arms, a.body.allUnits = [] := by simpa [parts] using inner h
    exact congrArg (Node.switch value · range) (eraseArms_eq_self fun a ha => ih a ha (bodies a ha))
  | attempt b handlers f range ihb ihh ihf =>
    intro h
    obtain ⟨hb, hh, hf⟩ : b.allUnits = [] ∧ (∀ a ∈ handlers, a.body.allUnits = []) ∧
        ∀ n ∈ f, n.allUnits = [] := by
      simpa [parts, or_imp, forall_and] using inner h
    show Node.attempt (b.erase .boundaries) (eraseHandlers .boundaries handlers)
      (erase? .boundaries f) range = _
    rw [ihb hb, eraseHandlers_eq_self fun a ha => ihh a ha (hh a ha),
      erase?_eq_self fun n hn => ihf n hn (hf n hn)]
  | guarded kind resource b range ihb =>
    intro h
    have hb : b.allUnits = [] := by simpa [parts] using inner h
    exact congrArg (Node.guarded kind resource · range) (ihb hb)
  | label | probe | acquire => exact fun _ => rfl
  | nested => intro h; cases h

end Whole

end Node

/-! ## Programs -/

/-- The unit without the boundaries of the units nested in it. -/
def CodeUnit.alone (u : CodeUnit) : CodeUnit := { u with root := u.root.erase .boundaries }

/-- What becomes of a unit that passes through. -/
theorem CodeUnit.withoutProbes_eq (u : CodeUnit) :
    u.withoutProbes = ⟨u.alone, none, SpanCoverage.contractVersion⟩ := by
  rw [unit_withoutProbes, Injection.stripBoundaries_eq]
  rfl

/-- A unit without nested units is alone. -/
theorem CodeUnit.alone_eq_self {u : CodeUnit} (h : u.root.allUnits = []) : u.alone = u := by
  rw [alone, u.root.erase_boundaries_eq_self h]

/-- What a program becomes when it passes through, under a module id. -/
def Program.passed (p : Program) (moduleId : ModuleId) : InstrumentedProgram :=
  ⟨p.name, moduleId, p.allUnits.map fun u => ⟨u.alone, none, contractVersion⟩⟩

theorem Program.instrument_disabled (p : Program) (moduleId : ModuleId) (coverage : CoverageMap) :
    p.instrument { moduleId := moduleId, enabled := false } coverage = .ok (p.passed moduleId) := by
  have units : p.allUnits.mapM
      (CodeUnit.instrument { moduleId := moduleId, enabled := false } coverage) =
        .ok (p.passed moduleId).units := by
    rw [mapM_ok_iff, Program.passed, List.map_map]
    exact List.map_congr_left fun u _ => by
      rw [Function.comp_apply, CodeUnit.instrument_of_disabled rfl, u.withoutProbes_eq]
  rw [Program.instrument_eq, units]
  rfl

namespace Host

/-- A unit that a program without injected forms, whatever else is wrong with it, has when it passes
through. -/
def PassedThrough (unit : CodeUnit) : Prop :=
  ∃ (p : Program) (moduleId : ModuleId) (coverage : CoverageMap) (ip : InstrumentedProgram),
    (∀ u ∈ p.units, u.root.instructions = []) ∧
      p.instrument { moduleId := moduleId, enabled := false } coverage = .ok ip ∧
      ∃ v ∈ ip.units, v.unit = unit

/-- There are no instructions in a unit that passed through. -/
theorem PassedThrough.instructions_eq {unit : CodeUnit} (h : PassedThrough unit) :
    unit.root.instructions = [] := by
  obtain ⟨p, moduleId, coverage, ip, hp, hip, v, hv, rfl⟩ := h
  cases (p.instrument_disabled moduleId coverage).symm.trans hip
  obtain ⟨u, hu, rfl⟩ := List.mem_map.1 hv
  obtain ⟨body, hbody, hu⟩ := List.mem_flatMap.1 hu
  have source : u.root.instructions = [] := by
    rcases List.mem_cons.1 hu with rfl | hu
    · exact hp _ hbody
    · exact body.root.instructions_allUnits (hp body hbody) u hu
  show (u.root.erase .boundaries).instructions = []
  rw [← Injection.stripBoundaries_eq]
  exact Injection.instructions_stripBoundaries source

/-! ## Loading -/

/-- Units without slots leave the memory as it is. -/
theorem Machine.loadUnits_slotless {units : List InstrumentedUnit} (h : ∀ v ∈ units, v.slot = none)
    (m : Machine) (memory : Memory) : (m.loadUnits memory units).2 = memory := by
  induction units generalizing m memory with
  | nil => rfl
  | cons v units ih =>
    simp only [List.mem_cons, forall_eq_or_imp] at h
    have unchanged : (m.loadUnit memory v).2 = memory := by rw [loadUnit, h.1]
    rw [loadUnits, ih h.2]
    exact unchanged

theorem Machine.load_passed (m : Machine) (memory : Memory) (p : Program) (moduleId : ModuleId) :
    (m.load memory (p.passed moduleId)).2 = memory :=
  loadUnits_slotless (by simp [Program.passed]) _ memory

/-! ## Calls -/

/-- The call enters the unit, which is one of those that the machine has loaded. -/
def Session.Enters (s : Session Memory) (callee : Value) (args : List Value) (fuel : Nat)
    (unit : CodeUnit) : Prop :=
  (∃ token u, s.machine.code.units.get? token = some u ∧ u.unit = unit) ∧
    ((), unit.token) ∈ ((Rig.journaled ()).callRun s.withJournal callee args fuel
      s.withJournal.world).2.record.1.entries

/-- The invariant of a run that leaves the memory alone, unless it enters a unit with instructions.
Units that are active were entered. -/
structure Calm (code : Code) (memory : Memory) (active : MethodToken → Prop)
    (s : Journal Unit × Memory) : Prop where
  entered : ∀ token, active token → ((), token) ∈ s.1.entries
  unchanged : (∀ token u, code.units.get? token = some u →
    ((), u.unit.token) ∈ s.1.entries → u.unit.root.instructions = []) → s.2 = memory

section Calm

variable {m : Machine} {memory : Memory}

theorem calm_upholds : (m.journaled ()).Upholds (Calm m.code memory) where
  note active event s hevent h := by
    cases event with
    | entered unit depth => exact absurd rfl (hevent unit depth)
    | left | reached | failed => exact h
  back _ _ _ h := ⟨fun token htoken => h.entered token (.inr htoken), h.unchanged⟩

/-- **Every unit keeps the memory or gives away that it has instructions.** -/
theorem calm_keeps {token : MethodToken} {u : LoadedUnit}
    (hu : m.code.units.get? token = some u) :
    UnitKeeps (Calm m.code memory) (m.journaled ()) u := by
  refine .bare (fun active depth s h => ⟨?_, fun hcalm => ?_⟩) fun active scope i hi => ?_
  · rintro other (rfl | hother)
    · exact Journal.mem_enter.2 (.inl rfl)
    · exact Journal.mem_enter.2 (.inr (h.entered other hother))
  · exact h.unchanged fun other v hv hentered =>
      hcalm other v hv (Journal.mem_enter.2 (.inr hentered))
  · -- an instruction comes from a unit that was entered, so it is not one of a calm run
    refine Watch.ignores_invariant.2 fun s h => ?_
    have noisy : ¬ ∀ token v, m.code.units.get? token = some v →
        ((), v.unit.token) ∈ s.1.entries → v.unit.root.instructions = [] := by
      intro hcalm
      have none := hcalm token u hu (h.entered _ (.inl rfl))
      exact List.not_mem_nil (none ▸ Node.ownInstructions_subset _ hi)
    cases i with
    | acquire => exact ⟨h.entered, fun hcalm => absurd hcalm noisy⟩
    | mark span => exact ⟨h.entered, fun hcalm => absurd hcalm noisy⟩

end Calm

/-- **A call that enters only units without instructions changes no memory**, wherever it stops. -/
theorem Rig.record_callRun_eq (s : Session Memory) (callee : Value) (args : List Value)
    (fuel : Nat)
    (h : ∀ unit, s.Enters callee args fuel unit → unit.root.instructions = []) :
    (Rig.payloads.callRun s callee args fuel s.world).2.record = s.record := by
  have hcode : ∀ token u, s.machine.code.units.get? token = some u →
      UnitKeeps (Calm s.machine.code s.record) (s.machine.journaled ()) u :=
    fun token u hu => calm_keeps hu
  have hcall := (steps_keep calm_upholds hcode (fuel + 1)).call (fun _ => False) callee args
  have hcalm := Run.keeps_iff.1 hcall s.withJournal.world ⟨nofun, fun _ => rfl⟩
  have hsame := hcalm.unchanged fun token u hu hentered => h u.unit ⟨⟨token, u, hu, rfl⟩, hentered⟩
  exact (Rig.journaled_callRun (k := ()) s.withJournal callee args fuel).symm.trans hsame

/-- **With instrumentation switched off a program passes through**, valid or not, and whatever the
coverage map says of it.  Its units come out in their order, without slots; each is the unit that it
was, less the boundaries of the units nested in it, and where there are none it is the same.
Loading them changes nothing in the payload memory.  A call that enters only units which passed
through changes nothing there either, whatever slots the machine has, wherever the call stops, and
in whatever way it ends. -/
theorem passes_through (p : Program) (moduleId : ModuleId) (coverage : CoverageMap) :
    p.instrument { moduleId := moduleId, enabled := false } coverage =
        .ok ⟨p.name, moduleId, p.allUnits.map fun u => ⟨u.alone, none, contractVersion⟩⟩ ∧
      (∀ u ∈ p.allUnits, u.root.allUnits = [] → u.alone = u) ∧
      (∀ ip, p.instrument { moduleId := moduleId, enabled := false } coverage = .ok ip →
        ∀ (m : Machine) (memory : Memory), (m.load memory ip).2 = memory) ∧
      ∀ (s : Session Memory) (callee : Value) (args : List Value) (fuel : Nat),
        (∀ unit, s.Enters callee args fuel unit → PassedThrough unit) →
          (Rig.payloads.callRun s callee args fuel s.world).2.record = s.record ∧
          ∀ result s', Rig.payloads.apply s callee args fuel = some (result, s') →
            s'.record = s.record := by
  refine ⟨p.instrument_disabled moduleId coverage, fun u _ h => u.alone_eq_self h,
    fun ip hip m memory => ?_, fun s callee args fuel h => ?_⟩
  · cases (p.instrument_disabled moduleId coverage).symm.trans hip
    exact m.load_passed memory p moduleId
  · have hrun := Rig.record_callRun_eq s callee args fuel fun unit hunit =>
      (h unit hunit).instructions_eq
    refine ⟨hrun, fun result s' happly => ?_⟩
    obtain ⟨outcome, w, hw, -, rfl⟩ := Rig.apply_some happly
    rw [hw] at hrun
    exact hrun

/-! ## An example -/

/-- The greeting when it passes through. -/
def greetingPassed : InstrumentedProgram :=
  ⟨"greeting", .zero, [⟨greeting.units[0], none, contractVersion⟩]⟩

/-- A machine that ran the greeting with its probes, and then loaded it without. -/
def muted : Session Memory :=
  let script := [.load greetingInstrumented, .call "main" [], .load greetingPassed]
  ((Rig.payloads.replay? 8 (.fresh 8 {} (.withLimit 6)) script).map Prod.snd).getD (.fresh 8 {} {})

theorem muted_units :
    muted.machine.code.units = ⟨[(⟨0x06000001⟩, ⟨greeting.units[0], 0⟩)]⟩ := rfl

/-- The slot of the greeting is still filled, and all its cells are set.  A call of the greeting
leaves it so. -/
theorem muted_unchanged :
    arrayOf? muted.machine.slots muted.record ⟨0x06000001⟩ = some 0 ∧
      muted.record.cells 0 = List.replicate 6 true ∧
      muted.Enters (.function ⟨0x06000001⟩) [] 8 greeting.units[0] ∧
      (∀ unit, muted.Enters (.function ⟨0x06000001⟩) [] 8 unit → PassedThrough unit) ∧
      (Rig.payloads.callRun muted (.function ⟨0x06000001⟩) [] 8 muted.world).2.record =
        muted.record := by
  obtain ⟨hpassed, hsame, -, hcalls⟩ := passes_through greeting .zero ⟨"greeting", []⟩
  have hgreeting : PassedThrough greeting.units[0] :=
    ⟨greeting, .zero, _, _, by decide +kernel, hpassed, _, List.mem_cons_self,
      hsame _ List.mem_cons_self rfl⟩
  have henters : ∀ unit, muted.Enters (.function ⟨0x06000001⟩) [] 8 unit → PassedThrough unit := by
    rintro _ ⟨⟨token, u, hu, rfl⟩, -⟩
    rw [muted_units, Assoc.get?, Assoc.find?] at hu
    split at hu
    · cases hu
      exact hgreeting
    · cases hu
  have main : muted.machine.code.units.get? ⟨0x06000001⟩ = some ⟨greeting.units[0], 0⟩ := rfl
  refine ⟨by decide +kernel, by decide +kernel, ⟨⟨_, _, main, rfl⟩, by decide +kernel⟩, henters, ?_⟩
  exact (hcalls muted _ _ _ henters).1

end Host

end SpanCoverage
