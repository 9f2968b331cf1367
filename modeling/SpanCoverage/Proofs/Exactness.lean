import Mathlib.Data.List.Forall2
import SpanCoverage.Proofs.Determinism
import SpanCoverage.Proofs.Loading
import SpanCoverage.Proofs.Records

/-!
# Flushed coverage is exact

A host loads an accepted program that was instrumented with its own map, on a fresh machine with a
fresh store that can hold the payload of each of its units.  Whatever it calls then, and whenever it
flushes, there is a session on the plain program with the same answers, and each report says exactly
what happened there.

The main results are:

* `Session.Exact` — the invariant of two such sessions.
* `Session.Exact.load` — it holds behind loading.
* `Session.Exact.does` — every further step keeps it.
* `flushes_exact` — all reports of a session are exact.
-/

namespace SpanCoverage.Host

/-! ## Fresh machines -/

section Fresh

variable {limit : Nat} {tokens : List MethodToken} {slots : SlotTable} {memory : Memory}

/-- The units of a program get their slots. -/
theorem Machine.loadUnits_declared {m : Machine}
    (h : SlotTable.Declared limit tokens m.slots memory) (units : List CodeUnit) :
    SlotTable.Declared limit (units.map (·.token) ++ tokens)
      (m.loadUnits memory (units.map CodeUnit.withProbes)).1.slots
      (m.loadUnits memory (units.map CodeUnit.withProbes)).2 := by
  induction units generalizing m memory tokens with
  | nil => exact h
  | cons u units ih =>
    have hunit : SlotTable.Declared limit (u.token :: tokens)
        (m.loadUnit memory u.withProbes).1.slots (m.loadUnit memory u.withProbes).2 :=
      h.declare u.token
    obtain ⟨hslot, hlt, hapart, hempty, hunused⟩ := ih hunit
    refine ⟨fun token htoken => hslot token ?_, hlt, hapart, hempty, hunused⟩
    simp only [List.map_cons, List.mem_append, List.mem_cons] at htoken ⊢
    rcases htoken with (htoken | htoken) | htoken
    · exact .inr (.inl htoken)
    · exact .inl htoken
    · exact .inr (.inr htoken)

/-- Loading gives each unit of a program its slot, and calls nothing. -/
theorem Machine.load_declared {m : Machine} (hslots : m.slots = {}) (limit : Nat) (name : String)
    (moduleId : ModuleId) (units : List CodeUnit) :
    SlotTable.Declared limit (units.map (·.token))
      (m.load (.withLimit limit) ⟨name, moduleId, units.map CodeUnit.withProbes⟩).1.slots
      (m.load (.withLimit limit) ⟨name, moduleId, units.map CodeUnit.withProbes⟩).2 := by
  have hnone : SlotTable.Declared limit [] {} (.withLimit limit) :=
    ⟨by simp, nofun, nofun, fun _ => rfl, rfl⟩
  unfold Machine.load
  by_cases hid : moduleId = m.moduleId
  · rw [if_pos hid]
    rw [← hslots] at hnone
    have hunits := loadUnits_declared hnone units
    rwa [List.append_nil] at hunits
  · rw [if_neg hid]
    let fresh : Machine := { m with slots := {}, moduleId := moduleId }
    have hfresh : SlotTable.Declared limit [] fresh.slots (.withLimit limit) := hnone
    have hunits := loadUnits_declared hfresh units
    rwa [List.append_nil] at hunits

/-- Where all units have slots and nothing has been called, store and log are both empty. -/
theorem Records.fresh {units : List CodeUnit}
    (h : SlotTable.Declared limit (units.map (·.token)) slots memory)
    (hlimit : ∀ u ∈ units, u.spanMap.spans.size ≤ limit) (moduleId : ModuleId) :
    Records units slots moduleId {} memory := by
  have hnone (token : MethodToken) : arrayOf? slots memory token = none := by
    unfold arrayOf?
    cases slots.get? token with
    | none => rfl
    | some slot => exact h.empty slot
  have htable : memory.registry.table = [] := by
    rw [h.unused]
    rfl
  refine ⟨fun u _ => h.slot_lt u.token, ?_, by simp, ?_, by simp [hnone], by simp [hnone], ?_, ?_,
    by simp [hnone, htable]⟩
  · rw [h.unused]
    exact hlimit
  · intro u hu
    simp [hnone, Log.Entered]
  · simp [h.unused]
  · rw [htable]
    exact .nil

end Fresh

/-! ## Sessions side by side -/

/-- A unit beside itself with a probe for each of its spans. -/
def Probed (units : List CodeUnit) (u : CodeUnit) (v : InstrumentedUnit) : Prop :=
  u ∈ units ∧ v = u.withProbes

/-- A session on plain units under observation, beside one on the units with their probes, whose
payloads hold what the log says. -/
structure Session.Exact (units : List CodeUnit) (s : Session Log) (t : Session Memory) : Prop where
  machine : s.machine.Mirror (Probed units) t.machine
  layout : Layout units t.machine.slots
  like : s.Like (Records units t.machine.slots t.machine.moduleId) t

/-- Replies on both sides: the same answers, and reports that say what the log says. -/
inductive Reply.Exact (units : List CodeUnit) : Reply Log → Reply Report → Prop
  | loaded : Exact units .loaded .loaded
  | answered (result : Except HostError Value) (output : Array String) :
    Exact units (.answered result output) (.answered result output)
  | flushed {log : Log} {report : Report} (h : ExactReport units log report) :
    Exact units (.flushed log) (.flushed report)

section Sessions

variable {units : List CodeUnit} {s : Session Log} {t t' : Session Memory}

/-- The units on both sides run alike, and keep the relation between the records. -/
theorem Session.Exact.code (h : s.Exact units t) :
    CodeMirror (Recording units t.machine.slots t.machine.moduleId) .log t.machine.recorder
      (placeOf units) s.machine.code t.machine.code := by
  refine ⟨h.machine.maxDepth, fun token => ?_⟩
  have hunits := h.machine.units token
  generalize s.machine.code.units.get? token = u at hunits ⊢
  generalize t.machine.code.units.get? token = u' at hunits ⊢
  cases hunits with
  | none => exact .none
  | some hu =>
    obtain ⟨own, plain, made⟩ := hu
    rename_i u v
    obtain ⟨hmem, rfl⟩ := made
    have hspliced : u.withProbes.unit =
        { u with root := Injection.spliceRoot (placeOf units u.token) u.root } := by
      rw [placeOf_eq h.layout hmem]
      rfl
    rw [hspliced]
    exact .some (.spliced plain fun _ depth _ _ hr => hr.enter h.layout hmem depth)

/-- A call ends on both sides with one answer, or on neither. -/
theorem Session.Exact.apply (h : s.Exact units t) (callee : Value) (args : List Value)
    (fuel : Nat) :
    EndAlike (Session.Exact units) (Rig.observed.apply s callee args fuel)
      (Rig.payloads.apply t callee args fuel) := by
  have hsteps := steps_mirror (records_tracks h.layout) h.code (fuel + 1) fun _ => False
  have hlike : s.Like (Recording units t.machine.slots t.machine.moduleId fun _ => False) t :=
    ⟨h.like.output, h.like.depth, h.like.heap, h.like.record, fun _ => False.elim⟩
  refine Rig.apply_like hlike (hsteps.call callee args) fun w v hw => ⟨?_, h.layout, ?_⟩
  · exact ⟨h.machine.names, h.machine.maxDepth, h.machine.units⟩
  · exact ⟨hw.output, hw.depth, hw.heap, hw.record.records⟩

theorem Session.Exact.call (h : s.Exact units t) (name : String) (args : List Value)
    (fuel : Nat) :
    EndAlike (Session.Exact units) (Rig.observed.call s name args fuel)
      (Rig.payloads.call t name args fuel) :=
  Rig.call_like h h.machine.names (fun callee => h.apply callee args fuel) name

/-- **Every step that loads nothing keeps the sessions side by side.** -/
theorem Session.Exact.does (h : s.Exact units t) {step : Step} (hstep : step.LoadsNothing)
    {reply' : Reply Report} (hdoes : Rig.payloads.Does t step reply' t') :
    ∃ reply s', Rig.observed.Does s step reply s' ∧ reply.Exact units reply' ∧
      s'.Exact units t' := by
  cases hdoes with
  | loadPlain => cases hstep
  | load => cases hstep
  | apply fuel happly =>
    obtain ⟨s', hs', hnext⟩ := (h.apply _ _ fuel).of_right happly
    refine ⟨_, s', .apply fuel hs', ?_, hnext⟩
    rw [hnext.like.output]
    exact .answered _ _
  | call fuel hcall =>
    obtain ⟨s', hs', hnext⟩ := (h.call _ _ fuel).of_right hcall
    refine ⟨_, s', .call fuel hs', ?_, hnext⟩
    rw [hnext.like.output]
    exact .answered _ _
  | flush =>
    refine ⟨_, _, .flush s, .flushed (h.like.record.exact h.layout), h.machine, h.layout, ?_⟩
    exact ⟨h.like.output, h.like.depth, h.like.heap, h.like.record.flush⟩

/-- So does a whole session. -/
theorem Session.Exact.runs (h : s.Exact units t) {script : List Step}
    (hscript : ∀ step ∈ script, step.LoadsNothing) {replies' : List (Reply Report)}
    (hruns : Rig.payloads.Runs t script replies' t') :
    ∃ replies s', Rig.observed.Runs s script replies s' ∧
      List.Forall₂ (Reply.Exact units) replies replies' ∧ s'.Exact units t' := by
  induction hruns generalizing s with
  | done t => exact ⟨[], s, .done s, .nil, h⟩
  | step first rest ih =>
    simp only [List.mem_cons, forall_eq_or_imp] at hscript
    obtain ⟨reply, s₁, hdoes, hreply, hnext⟩ := h.does hscript.1 first
    obtain ⟨replies, s', hrest, hreplies, hend⟩ := ih hnext hscript.2
    exact ⟨reply :: replies, s', .step hdoes hrest, .cons hreply hreplies, hend⟩

end Sessions

/-! ## Loading -/

section Loading

variable {p : Program} {coverage : CoverageMap} {limit : Nat}

/-- **Sessions side by side, behind loading**: an accepted program on one machine, and the program
with its probes on another, where the registry has the limit. -/
theorem Session.Exact.load (accepted : p.analyze = .ok coverage)
    (distinct : (p.allUnits.map fun u => u.token.methodIndex).Nodup)
    (fits : ∀ u ∈ p.allUnits, u.spanMap.spans.size ≤ limit)
    (small : ∀ u ∈ p.allUnits, u.spanMap.spans.size < allocationBound)
    (moduleId : ModuleId) {m : Machine} (hslots : m.slots = {})
    (hunits : ∀ token, m.code.units.get? token = none) (heap : Heap) :
    let loaded := m.load (.withLimit limit)
      ⟨p.name, moduleId, p.allUnits.map CodeUnit.withProbes⟩
    Session.Exact p.allUnits ⟨m.loadPlain p, heap, {}⟩ ⟨loaded.1, heap, loaded.2⟩ := by
  intro loaded
  have hself : m.Mirror (Probed p.allUnits) m :=
    ⟨rfl, rfl, fun token => by rw [hunits]; exact .none⟩
  have hprobed : ∀ u ∈ p.allUnits, ∀ v,
      u.instrument { moduleId := moduleId } coverage = .ok v → Probed p.allUnits u v := by
    intro u hu v hv
    rw [CodeUnit.instrument_own accepted hu] at hv
    cases hv
    exact ⟨hu, rfl⟩
  have hmirror : (m.loadPlain p).Mirror (Probed p.allUnits) loaded.1 :=
    hself.load accepted (Program.instrument_own accepted moduleId) hprobed _
  have hdeclared : SlotTable.Declared limit (p.allUnits.map (·.token)) loaded.1.slots loaded.2 :=
    Machine.load_declared hslots limit p.name moduleId p.allUnits
  have hlayout : Layout p.allUnits loaded.1.slots := by
    refine ⟨(Program.analyze_ok accepted).1, small, distinct, ?_, hdeclared.apart⟩
    exact fun u hu => hdeclared.slot _ (List.mem_map_of_mem hu)
  obtain ⟨houtput, hdepth⟩ := m.loadPlain_keeps p
  obtain ⟨houtput', hdepth'⟩ := m.load_keeps (.withLimit limit)
    ⟨p.name, moduleId, p.allUnits.map CodeUnit.withProbes⟩
  exact ⟨hmirror, hlayout, houtput.trans houtput'.symm, hdepth.trans hdepth'.symm, rfl,
    Records.fresh hdeclared fits _⟩

/-- **Flushed coverage is exact.**  An accepted program whose units have rows of their own can be
instrumented with its own map; and whatever a host does with it, on a fresh machine and with a
registry whose limit admits the payload of each unit, there is a session on the plain program with
the same answers, and each report says what that session's log says.  That no table has as many
spans as no store can hold is no restriction, since the table itself is in one. -/
theorem flushes_exact (accepted : p.analyze = .ok coverage)
    (distinct : (p.allUnits.map fun u => u.token.methodIndex).Nodup)
    (fits : ∀ u ∈ p.allUnits, u.spanMap.spans.size ≤ limit)
    (small : ∀ u ∈ p.allUnits, u.spanMap.spans.size < allocationBound)
    (moduleId : ModuleId) (maxDepth : Nat) (heap : Heap) :
    ∃ ip, p.instrument { moduleId := moduleId } coverage = .ok ip ∧
      ∀ (script : List Step), (∀ step ∈ script, step.LoadsNothing) →
        ∀ replies' t, Rig.payloads.Runs (.fresh maxDepth heap (.withLimit limit))
            (.load ip :: script) replies' t →
          ∃ replies s, Rig.observed.Runs (.fresh maxDepth heap {}) (.loadPlain p :: script)
              replies s ∧ List.Forall₂ (Reply.Exact p.allUnits) replies replies' := by
  refine ⟨_, Program.instrument_own accepted moduleId, fun script hscript replies' t hruns => ?_⟩
  cases hruns with
  | step first rest =>
    cases first with
    | load =>
      have hloaded := Session.Exact.load (m := (Session.fresh maxDepth heap ()).machine) accepted
        distinct fits small moduleId rfl (fun _ => rfl) heap
      obtain ⟨replies, s, hobserved, hreplies, -⟩ := hloaded.runs hscript rest
      exact ⟨_, s, .step (.loadPlain _ p) hobserved, .cons .loaded hreplies⟩

end Loading

/-- A flush behind a call, and one more. -/
theorem greeting_flushed :
    ∃ replies' t, Rig.payloads.Runs (.fresh 8 {} (.withLimit 6))
        [.load greetingInstrumented, .call "main" [], .flush, .flush] replies' t ∧
      replies' = [.loaded, .answered (.ok .null) #["hello"],
        .flushed ⟨[⟨1, List.replicate 6 true⟩]⟩, .flushed ⟨[⟨1, List.replicate 6 false⟩]⟩] ∧
      ∃ replies s, Rig.observed.Runs (.fresh 8 {} {})
          [.loadPlain greeting, .call "main" [], .flush, .flush] replies s ∧
        List.Forall₂ (Reply.Exact greeting.allUnits) replies replies' := by
  have hmain : ∀ u ∈ greeting.allUnits, u.spanMap.spans.size = 6 := by
    intro u hu
    rw [List.mem_singleton.1 hu]
    rfl
  obtain ⟨ip, hip, hexact⟩ := flushes_exact greeting_analyze (List.nodup_singleton _)
    (fun u hu => Nat.le_of_eq (hmain u hu))
    (fun u hu => by rw [hmain u hu]; decide) .zero 8 {}
  rw [greeting_instrument] at hip
  cases hip
  have hruns : Rig.payloads.Runs (.fresh 8 {} (.withLimit 6))
      [.load greetingInstrumented, .call "main" [], .flush, .flush] _ _ :=
    .step (.load _ _) (.step (.call 4 rfl) (.step (.flush _) (.step (.flush _) (.done _))))
  refine ⟨_, _, hruns, rfl, hexact [.call "main" [], .flush, .flush] ?_ _ _ hruns⟩
  simp only [List.mem_cons, List.not_mem_nil, or_false, forall_eq_or_imp, forall_eq]
  exact ⟨trivial, trivial, trivial⟩

end SpanCoverage.Host
