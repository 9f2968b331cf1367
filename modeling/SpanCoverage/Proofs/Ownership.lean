import SpanCoverage.Proofs.Exactness
import SpanCoverage.Proofs.Keeping
import SpanCoverage.Proofs.ReadingOrder
import SpanCoverage.Proofs.Sharing

/-!
# Fleets that share a module

All machines of a fleet load the same instrumented program and nothing else.  Whatever they are
called to do, and whenever they are flushed, their payload memory holds what the journal says, and
each report says what the owners of its rows marked.

The main results are:

* `owning_keeps` — the runs of such machines keep the memory as the journal says.
* `Fleet.Owns.does`, `Fleet.Owns.runs` — so does each step of a session, and a whole session.
* `Fleet.owns_session` — so does every session of a fresh fleet, all of it on one program.
-/

namespace SpanCoverage.Host

variable {κ : Type} [DecidableEq κ] {units : List CodeUnit} {moduleId : ModuleId}

/-! ## Machines that hold a program -/

/-- A machine that holds nothing but units of a list with their probes, loaded under a module id. -/
structure Machine.Holds (units : List CodeUnit) (moduleId : ModuleId) (m : Machine) : Prop where
  slots : ∀ token slot, m.slots.get? token = some slot → m.moduleId = moduleId
  units : ∀ token u, m.code.units.get? token = some u →
    (∃ v ∈ units, v.token = token ∧ u = ⟨v.withProbes.unit, v.spanMap.spans.size⟩) ∧
      ∃ slot, m.slots.get? token = some slot

/-- The id under which a machine holds units. -/
theorem Machine.Holds.moduleId_eq {m : Machine} (h : m.Holds units moduleId) {token : MethodToken}
    {u : LoadedUnit} (hu : m.code.units.get? token = some u) : m.moduleId = moduleId := by
  obtain ⟨-, slot, hslot⟩ := h.units token u hu
  exact h.slots token slot hslot

/-! ## Runs -/

/-- The invariant in the course of a run on one of the machines: it entered the units that are
active. -/
structure Owning (units : List CodeUnit) (moduleId : ModuleId) (slots : κ → SlotTable) (k : κ)
    (active : MethodToken → Prop) (s : Journal κ × Memory) : Prop where
  owned : Owned units moduleId slots s.1 s.2
  entered : ∀ token, active token → (k, token) ∈ s.1.entries

section Runs

variable {slots : κ → SlotTable} {k : κ} {m : Machine}

theorem owning_upholds (m : Machine) : (m.journaled k).Upholds (Owning units moduleId slots k) where
  note active event s hevent h := by
    cases event with
    | entered unit depth => exact absurd rfl (hevent unit depth)
    | left | reached | failed => exact h
  back active token s h := ⟨h.owned, fun token ht => h.entered token (.inr ht)⟩

/-- **The runs of a machine that holds the units keep the memory as the journal says.** -/
theorem owning_keeps (hunits : Roster units) (hm : m.Holds units moduleId)
    (hslots : m.slots = slots k)
    {token : MethodToken} {u : LoadedUnit} (hu : m.code.units.get? token = some u) :
    UnitKeeps (Owning units moduleId slots k) (m.journaled k) u := by
  have hid := hm.moduleId_eq hu
  obtain ⟨⟨v, hv, rfl, rfl⟩, slot, hslot⟩ := hm.units token u hu
  refine .armed rfl ?_ ?_
  · intro active depth s h
    refine ⟨h.owned.enter hunits hslots hid hv hslot, ?_⟩
    rintro token (rfl | ht)
    · exact Journal.mem_enter.2 (.inl rfl)
    · exact Journal.mem_enter.2 (.inr (h.entered token ht))
  · intro active scope i hi
    replace hi := Node.ownInstructions_subset _ hi
    rw [(CodeUnit.withProbes_inOrder (hunits.valid v hv)).instructions_eq] at hi
    refine Watch.ignores_invariant.2 fun s h => ?_
    have hentered : (k, v.token) ∈ s.1.entries := h.entered v.token (.inl rfl)
    rcases List.mem_cons.1 hi with rfl | hi
    · have hsame := h.owned.enter hunits hslots hid hv hslot
      rw [Journal.enter, if_pos hentered] at hsame
      exact ⟨hsame, h.entered⟩
    · obtain ⟨span, hspan, rfl⟩ := List.mem_map.1 hi
      exact ⟨h.owned.mark hslots hentered ⟨v, hv, rfl, List.mem_range.1 hspan⟩, h.entered⟩

end Runs

/-! ## Loading -/

section Loading

variable {slots : κ → SlotTable} {k : κ} {j : Journal κ} {memory : Memory}

/-- One more slot for one of the machines changes nothing of what the memory holds. -/
theorem Owned.declare {table : SlotTable}
    (h : Owned units moduleId (Function.update slots k table) j memory) (token : MethodToken) :
    Owned units moduleId (Function.update slots k (table.declare memory token).2.1) j
      (table.declare memory token).2.2 := by
  cases hslot : table.get? token with
  | some slot =>
    rw [SlotTable.declare, hslot]
    exact h
  | none =>
    rw [SlotTable.declare_of_get?_eq_none hslot]
    have hget (e : κ × MethodToken) :
        (Function.update slots k (table.set token memory.slots.size) e.1).get? e.2 =
          if e = (k, token) then some memory.slots.size
          else (Function.update slots k table e.1).get? e.2 := by
      obtain ⟨k', other⟩ := e
      by_cases hk : k' = k
      · subst hk
        simp only [Function.update_self, Assoc.get?_set, Prod.mk.injEq, true_and]
      · simp only [Function.update_of_ne hk, Prod.mk.injEq, hk, false_and, if_false]
    have harray (e : κ × MethodToken) :
        arrayOf? (Function.update slots k (table.set token memory.slots.size) e.1)
            { memory with slots := memory.slots.push none } e.2 =
          arrayOf? (Function.update slots k table e.1) memory e.2 := by
      have hdeclare := arrayOf?_declare table memory token e.2
      rw [SlotTable.declare_of_get?_eq_none hslot] at hdeclare
      by_cases hk : e.1 = k
      · rw [hk, Function.update_self, Function.update_self]
        exact hdeclare
      · have hpush : ({ memory with slots := memory.slots.push none } : Memory).slotArray? =
            memory.slotArray? := funext (SlotTable.slotArray?_push memory)
        rw [Function.update_of_ne hk, Function.update_of_ne hk, arrayOf?, arrayOf?, hpush]
    exact ⟨h.slotted.push hget, h.nodup, h.known, h.size,
      fun k' token' array => by rw [harray (k', token')]; exact h.arrays k' token' array,
      h.fits, h.module, h.table, h.inside, h.cells⟩

/-- One of the units is loaded. -/
theorem Machine.Holds.loadUnit {m : Machine} (hm : m.Holds units moduleId)
    (hid : m.moduleId = moduleId)
    (h : Owned units moduleId (Function.update slots k m.slots) j memory) {u : CodeUnit}
    (hu : u ∈ units) :
    let loaded := m.loadUnit memory u.withProbes
    loaded.1.Holds units moduleId ∧ loaded.1.moduleId = moduleId ∧
      Owned units moduleId (Function.update slots k loaded.1.slots) j loaded.2 := by
  refine ⟨⟨fun _ _ _ => hid, fun token v hv => ?_⟩, hid, h.declare u.token⟩
  show _ ∧ ∃ slot, (m.slots.declare memory u.token).2.1.get? token = some slot
  rw [SlotTable.declare_get?]
  by_cases hsame : token = u.token
  · have hmade : v = ⟨u.withProbes.unit, u.spanMap.spans.size⟩ := by
      rw [hsame] at hv
      exact (Option.some.inj ((Assoc.get?_set_self ..).symm.trans hv)).symm
    rw [if_pos hsame]
    exact ⟨⟨u, hu, hsame.symm, hmade⟩, _, rfl⟩
  · have hold : m.code.units.get? token = some v :=
      (Assoc.get?_set_of_ne _ _ hsame).symm.trans hv
    rw [if_neg hsame]
    exact hm.units token v hold

/-- The units of the list are loaded one after the other. -/
theorem Machine.Holds.loadUnits {m : Machine} (hm : m.Holds units moduleId)
    (hid : m.moduleId = moduleId)
    (h : Owned units moduleId (Function.update slots k m.slots) j memory) {us : List CodeUnit}
    (hus : ∀ u ∈ us, u ∈ units) :
    let loaded := m.loadUnits memory (us.map CodeUnit.withProbes)
    loaded.1.Holds units moduleId ∧
      Owned units moduleId (Function.update slots k loaded.1.slots) j loaded.2 := by
  induction us generalizing m memory with
  | nil => exact ⟨hm, h⟩
  | cons u us ih =>
    simp only [List.mem_cons, forall_eq_or_imp] at hus
    obtain ⟨hnext, hnextId, howned⟩ := hm.loadUnit hid h hus.1
    exact ih hnext hnextId howned hus.2

/-- **Loading the program on one of the machines changes nothing of what the memory holds.** -/
theorem Machine.Holds.load {m : Machine} (hm : m.Holds units moduleId)
    (h : Owned units moduleId (Function.update slots k m.slots) j memory) (name : String) :
    let loaded := m.load memory ⟨name, moduleId, units.map CodeUnit.withProbes⟩
    loaded.1.Holds units moduleId ∧
      Owned units moduleId (Function.update slots k loaded.1.slots) j loaded.2 := by
  intro loaded
  by_cases hid : moduleId = m.moduleId
  · have hloaded : loaded = m.loadUnits memory (units.map CodeUnit.withProbes) := by
      simp only [loaded, Machine.load, if_pos hid]
    rw [hloaded]
    exact hm.loadUnits hid.symm h fun _ => id
  · -- A machine that holds anything has the id, so there is nothing to forget.
    have hslots (token : MethodToken) : m.slots.get? token = none := by
      rw [Option.eq_none_iff_forall_ne_some]
      exact fun slot hslot => hid (hm.slots token slot hslot).symm
    have hcode (token : MethodToken) : m.code.units.get? token = none := by
      rw [Option.eq_none_iff_forall_ne_some]
      exact fun u hu => hid (hm.moduleId_eq hu).symm
    let fresh : Machine := { m with slots := {}, moduleId := moduleId }
    have hfresh : fresh.Holds units moduleId :=
      ⟨fun _ _ _ => rfl, fun token u hu => by rw [hcode] at hu; cases hu⟩
    have hget (e : κ × MethodToken) : (Function.update slots k {} e.1).get? e.2 =
        (Function.update slots k m.slots e.1).get? e.2 := by
      by_cases hk : e.1 = k
      · simp only [hk, Function.update_self]
        exact (hslots e.2).symm
      · simp only [Function.update_of_ne hk]
    have hempty : Owned units moduleId (Function.update slots k fresh.slots) j memory := by
      refine ⟨?_, h.nodup, h.known, h.size, fun k' token array => ?_, h.fits, h.module, h.table,
        h.inside, h.cells⟩
      · exact ⟨fun e slot he => h.slotted.lt_size e slot ((hget e).symm.trans he),
          fun he he' => h.slotted.apart ((hget _).symm.trans he) ((hget _).symm.trans he')⟩
      · rw [← h.arrays, arrayOf?, arrayOf?, ← hget (k', token)]
    have hloaded : loaded = fresh.loadUnits memory (units.map CodeUnit.withProbes) := by
      simp only [loaded, Machine.load, if_neg hid, fresh]
    rw [hloaded]
    have hfreshId : fresh.moduleId = moduleId := rfl
    exact hfresh.loadUnits hfreshId hempty fun _ => id

end Loading

/-! ## Sessions -/

/-- The slots of the machines. -/
def Fleet.slots {σ : Type} (f : Fleet κ σ) (k : κ) : SlotTable := (f.machines k).slots

/-- A fleet of machines that hold the units, with a memory that holds what the journal says. -/
structure Fleet.Owns (units : List CodeUnit) (moduleId : ModuleId)
    (f : Fleet κ (Journal κ × Memory)) : Prop where
  holds : ∀ k, (f.machines k).Holds units moduleId
  owned : Owned units moduleId f.slots f.record.1 f.record.2

/-- A report, if the reply is one, says what the owners of its rows marked; and what was marked is
within the units. -/
def Reply.FromOwners (units : List CodeUnit) : Reply (Journal κ × Report) → Prop
  | .flushed (j, report) => OwnersReport units j report ∧ ∀ k token span,
    (k, token, span) ∈ j.marks → (k, token) ∈ j.entries ∧
      ∃ u ∈ units, u.token = token ∧ span < u.spanMap.spans.size
  | .loaded | .answered .. => True

section Sessions

variable {f : Fleet κ (Journal κ × Memory)} {k : κ} {s' : Session (Journal κ × Memory)}

/-- One machine with other slots among the others. -/
theorem Fleet.slots_put (f : Fleet κ (Journal κ × Memory)) (k : κ)
    (s' : Session (Journal κ × Memory)) :
    (f.put k s').slots = Function.update f.slots k s'.machine.slots := by
  funext k'
  show (Function.update f.machines k s'.machine k').slots = _
  by_cases hk : k' = k
  · subst hk
    rw [Function.update_self, Function.update_self]
  · rw [Function.update_of_ne hk, Function.update_of_ne hk]
    rfl

theorem Fleet.Owns.put (h : f.Owns units moduleId) (hm : s'.machine.Holds units moduleId)
    (howned : Owned units moduleId (Function.update f.slots k s'.machine.slots) s'.record.1
      s'.record.2) : (f.put k s').Owns units moduleId := by
  refine ⟨fun k' => ?_, ?_⟩
  · show (Function.update f.machines k s'.machine k').Holds units moduleId
    by_cases hk : k' = k
    · subst hk
      rw [Function.update_self]
      exact hm
    · rw [Function.update_of_ne hk]
      exact h.holds k'
  · rw [Fleet.slots_put]
    exact howned

/-- A call on one of the machines, also one that has not ended yet. -/
theorem Fleet.Owns.callRun (hunits : Roster units) (h : f.Owns units moduleId) (k : κ)
    (callee : Value) (args : List Value) (fuel : Nat) :
    Owned units moduleId f.slots
      ((Rig.journaled k).callRun (f.session k) callee args fuel (f.session k).world).2.record.1
      ((Rig.journaled k).callRun (f.session k) callee args fuel
        (f.session k).world).2.record.2 := by
  let I := Owning units moduleId f.slots k
  have hnotes : ((f.machines k).journaled k).Upholds I := owning_upholds _
  have hcode : ∀ token u, (f.machines k).code.units.get? token = some u →
      UnitKeeps I ((f.machines k).journaled k) u :=
    fun token u hu => owning_keeps hunits (h.holds k) (rfl : _ = f.slots k) hu
  have hcall := (steps_keep hnotes hcode (fuel + 1)).call (fun _ => False) callee args
  exact (Run.keeps_iff.1 hcall (f.session k).world ⟨h.owned, fun _ => False.elim⟩).owned

theorem Fleet.Owns.apply (hunits : Roster units) (h : f.Owns units moduleId) {callee : Value}
    {args : List Value} {fuel : Nat} {result : Except HostError Value}
    (happly : (Rig.journaled k).apply (f.session k) callee args fuel = some (result, s')) :
    (f.put k s').Owns units moduleId := by
  obtain ⟨outcome, w, hrun, -, rfl⟩ := Rig.apply_some happly
  have hcall := h.callRun hunits k callee args fuel
  rw [hrun] at hcall
  have hm : ((f.session k).after w).machine.Holds units moduleId :=
    ⟨(h.holds k).slots, (h.holds k).units⟩
  refine h.put hm ?_
  have hsame : Function.update f.slots k ((f.session k).after w).machine.slots = f.slots :=
    Function.update_eq_self k _
  rw [hsame]
  exact hcall

/-- **Each step of a session keeps the memory as the journal says.** -/
theorem Fleet.Owns.does (hunits : Roster units) (h : f.Owns units moduleId) {name : String}
    {step : Step}
    (hstep : step = .load ⟨name, moduleId, units.map CodeUnit.withProbes⟩ ∨ step.LoadsNothing)
    {reply : Reply (Journal κ × Report)}
    (hdoes : (Rig.journaled k).Does (f.session k) step reply s') :
    (f.put k s').Owns units moduleId ∧ reply.FromOwners units := by
  have hself : Owned units moduleId (Function.update f.slots k (f.machines k).slots) f.record.1
      f.record.2 := by
    have hsame : Function.update f.slots k (f.machines k).slots = f.slots :=
      Function.update_eq_self k _
    rw [hsame]
    exact h.owned
  cases hdoes with
  | loadPlain p => simp [Step.LoadsNothing] at hstep
  | load p =>
    obtain rfl : p = ⟨name, moduleId, units.map CodeUnit.withProbes⟩ := by
      simpa [Step.LoadsNothing] using hstep
    obtain ⟨hm, howned⟩ := (h.holds k).load hself name
    exact ⟨h.put hm howned, trivial⟩
  | flush => exact ⟨h.put (h.holds k) hself.flush, h.owned.report hunits, h.owned.inside⟩
  | apply fuel happly => exact ⟨h.apply hunits happly, trivial⟩
  | call fuel hcall =>
    rcases Rig.call_some hcall with ⟨token, happly⟩ | ⟨-, rfl⟩
    · exact ⟨h.apply hunits happly, trivial⟩
    · exact ⟨h.put (h.holds k) hself, trivial⟩

/-- **So does a whole session.** -/
theorem Fleet.Owns.runs (hunits : Roster units) {name : String} {script : List (κ × Step)}
    (hscript : ∀ step ∈ script,
      step.2 = .load ⟨name, moduleId, units.map CodeUnit.withProbes⟩ ∨ step.2.LoadsNothing)
    {replies : List (Reply (Journal κ × Report))} {f' : Fleet κ (Journal κ × Memory)}
    (h : f.Owns units moduleId) (hruns : Fleet.Runs Rig.journaled f script replies f') :
    f'.Owns units moduleId ∧ ∀ reply ∈ replies, reply.FromOwners units := by
  induction hruns with
  | done => exact ⟨h, by simp⟩
  | step first rest ih =>
    simp only [List.mem_cons, forall_eq_or_imp] at hscript ⊢
    obtain ⟨hnext, hreply⟩ := h.does hunits hscript.1 first
    obtain ⟨hend, hreplies⟩ := ih hscript.2 hnext
    exact ⟨hend, hreply, hreplies⟩

/-- **The memory of a fresh fleet holds what the empty journal says.** -/
theorem Fleet.owns_fresh {limit : Nat} (fits : ∀ u ∈ units, u.spanMap.spans.size ≤ limit)
    (moduleId : ModuleId) (maxDepth : κ → Nat) (heap : Heap) :
    (Fleet.fresh maxDepth heap ({}, .withLimit limit) :
      Fleet κ (Journal κ × Memory)).Owns units moduleId := by
  refine ⟨fun k => ⟨nofun, nofun⟩,
    ⟨⟨nofun, nofun⟩, .nil, nofun, rfl, ?_, fits, nofun, rfl, nofun, ?_⟩⟩
  · intro k token array
    exact ⟨nofun, nofun⟩
  · intro array k u hu howner
    cases howner

end Sessions

/-- The units of an accepted program. -/
theorem Roster.of_accepted {p : Program} {coverage : CoverageMap}
    (accepted : p.analyze = .ok coverage)
    (small : ∀ u ∈ p.allUnits, u.spanMap.spans.size < allocationBound) : Roster p.allUnits :=
  let ⟨valid, _, tokens⟩ := Program.analyze_ok accepted
  ⟨valid, small, tokens⟩

/-- **A session of a fresh fleet, all of it on one instrumented program, keeps the memory as the
journal says**, and reports what the owners marked. -/
theorem Fleet.owns_session {p : Program} {coverage : CoverageMap} {limit : Nat}
    (accepted : p.analyze = .ok coverage)
    (fits : ∀ u ∈ p.allUnits, u.spanMap.spans.size ≤ limit)
    (small : ∀ u ∈ p.allUnits, u.spanMap.spans.size < allocationBound) {moduleId : ModuleId}
    {ip : InstrumentedProgram} (hip : p.instrument { moduleId := moduleId } coverage = .ok ip)
    {maxDepth : κ → Nat} {heap : Heap} {script : List (κ × Step)}
    (hscript : ∀ step ∈ script, step.2 = .load ip ∨ step.2.LoadsNothing)
    {replies : List (Reply (Journal κ × Report))} {f' : Fleet κ (Journal κ × Memory)}
    (hruns : Fleet.Runs Rig.journaled (.fresh maxDepth heap ({}, .withLimit limit)) script replies
      f') : f'.Owns p.allUnits moduleId ∧ ∀ reply ∈ replies, reply.FromOwners p.allUnits := by
  rw [Program.instrument_own accepted moduleId] at hip
  cases hip
  exact (Fleet.owns_fresh fits moduleId maxDepth heap).runs (Roster.of_accepted accepted small)
    hscript hruns

end SpanCoverage.Host
