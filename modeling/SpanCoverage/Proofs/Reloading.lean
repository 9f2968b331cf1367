import SpanCoverage.Host.Replay
import SpanCoverage.Proofs.Loading
import SpanCoverage.Proofs.Registration

/-!
# Sessions that load again and again

A machine may load programs at any time, under the id it has or under another one, plain ones and
such without probes among them.  Its filled slots are registered all the same, so long as it is the
only one to use the registry.  Their arrays have the declared lengths, but for empty ones that units
without a slot create.

The main results are:

* `Machine.arrayOf?_loadUnits` — loading makes no array and hides none.
* `Machine.Ready.load`, `Machine.Ready.does` — each step of a session leaves the filled slots
  registered.
* `filled_slots_registered` — the same of whole sessions, with what loads and entries do to slots.
* `hollowing_not_registered` — a plain unit that creates a payload can give a declared slot an empty
  array.
-/

namespace SpanCoverage.Host

/-! ## Slots behind a load -/

/-- Loading units makes no array, hides none, and takes no slot away. -/
theorem Machine.loadUnit_slots (m : Machine) (memory : Memory) (v : InstrumentedUnit)
    (token : MethodToken) :
    arrayOf? (m.loadUnit memory v).1.slots (m.loadUnit memory v).2 token =
        arrayOf? m.slots memory token ∧
      ∀ slot, m.slots.get? token = some slot →
        (m.loadUnit memory v).1.slots.get? token = some slot := by
  unfold Machine.loadUnit
  cases v.slot with
  | none => exact ⟨rfl, fun _ => id⟩
  | some d =>
    refine ⟨arrayOf?_declare m.slots memory d.token token, fun slot hslot => ?_⟩
    show (m.slots.declare memory d.token).2.1.get? token = some slot
    cases hdeclared : m.slots.get? d.token with
    | some _ =>
      rw [SlotTable.declare, hdeclared]
      exact hslot
    | none =>
      rw [SlotTable.declare_get?, if_neg]
      · exact hslot
      · rintro rfl
        cases hdeclared.symm.trans hslot

theorem Machine.loadUnits_slots (m : Machine) (memory : Memory) (vs : List InstrumentedUnit)
    (token : MethodToken) :
    arrayOf? (m.loadUnits memory vs).1.slots (m.loadUnits memory vs).2 token =
        arrayOf? m.slots memory token ∧
      ∀ slot, m.slots.get? token = some slot →
        (m.loadUnits memory vs).1.slots.get? token = some slot := by
  induction vs generalizing m memory with
  | nil => exact ⟨rfl, fun _ => id⟩
  | cons v vs ih =>
    obtain ⟨harray, hslot⟩ := m.loadUnit_slots memory v token
    obtain ⟨harrays, hslots⟩ := ih (m.loadUnit memory v).1 (m.loadUnit memory v).2
    exact ⟨harrays.trans harray, fun slot h => hslots slot (hslot slot h)⟩

/-- **A load under the same id keeps every slot, and what is in it.** -/
theorem Machine.load_same (m : Machine) (memory : Memory) {p : InstrumentedProgram}
    (h : p.moduleId = m.moduleId) (token : MethodToken) :
    arrayOf? (m.load memory p).1.slots (m.load memory p).2 token = arrayOf? m.slots memory token ∧
      ∀ slot, m.slots.get? token = some slot →
        (m.load memory p).1.slots.get? token = some slot := by
  have hload : m.load memory p = m.loadUnits memory p.units := by
    simp only [Machine.load, if_pos h]
  rw [hload]
  exact m.loadUnits_slots memory p.units token

/-- **A load under another id leaves all slots empty.** -/
theorem Machine.load_other (m : Machine) (memory : Memory) {p : InstrumentedProgram}
    (h : p.moduleId ≠ m.moduleId) (token : MethodToken) :
    arrayOf? (m.load memory p).1.slots (m.load memory p).2 token = none := by
  have hload : m.load memory p =
      { m with slots := {}, moduleId := p.moduleId }.loadUnits memory p.units := by
    simp only [Machine.load, if_neg h]
  rw [hload]
  exact (Machine.loadUnits_slots _ memory p.units token).1

/-! ## What a machine can load -/

section Loading

variable {declares : ModuleId → PayloadDecl → Prop} {limit : Nat} {m : Machine} {memory : Memory}

/-- A unit that can be loaded without a slot: if it creates a payload, an empty one counts as
declared wherever some payload of its token does. -/
def Slotless (declares : ModuleId → PayloadDecl → Prop) (u : CodeUnit) : Prop :=
  .acquire ∈ u.root.ownInstructions →
    ∀ id length, declares id ⟨u.token, length⟩ → declares id ⟨u.token, 0⟩

/-- A unit that declares its own slot, or is loaded without one. -/
structure Loadable (declares : ModuleId → PayloadDecl → Prop) (id : ModuleId)
    (v : InstrumentedUnit) : Prop where
  slotted : ∀ d, v.slot = some d → d.token = v.unit.token ∧ declares id d
  slotless : v.slot = none → Slotless declares v.unit

/-- A machine whose filled slots are registered, and whose units declare their payloads. -/
structure Machine.Ready (declares : ModuleId → PayloadDecl → Prop) (limit : Nat) (m : Machine)
    (memory : Memory) : Prop where
  registering : Registering (declares m.moduleId) m memory
  limit_eq : memory.registry.limit = limit
  tidy : m.Tidy (declares m.moduleId)

/-- One more slot, empty if it is new. -/
theorem Registering.declare {declared : PayloadDecl → Prop} (h : Registering declared m memory)
    {d : PayloadDecl} (hd : declared d) :
    Registering declared { m with slots := (m.slots.declare memory d.token).2.1 }
      (m.slots.declare memory d.token).2.2 := by
  obtain ⟨harrays, hregistry, -⟩ := SlotTable.declare_keeps m.slots memory d.token
  have harray (token : MethodToken) := arrayOf?_declare m.slots memory d.token token
  refine ⟨SlotTable.slotted_declare h.slotted d.token, ?_, ?_, ?_⟩
  · intro token slot hslot
    replace hslot : (m.slots.declare memory d.token).2.1.get? token = some slot := hslot
    rw [SlotTable.declare_get?] at hslot
    by_cases hsame : token = d.token
    · exact ⟨d.length, hsame ▸ hd⟩
    · rw [if_neg hsame] at hslot
      exact h.known token slot hslot
  · intro token array htoken
    rw [harrays]
    exact h.made token array ((harray token).symm.trans htoken)
  · intro token array htoken
    obtain ⟨hmodule, hget, hlength⟩ := h.filled token array ((harray token).symm.trans htoken)
    refine ⟨?_, ?_, ?_⟩
    · rw [hregistry]
      exact hmodule
    · rw [hregistry]
      exact hget
    · rw [Memory.cells, harrays]
      exact hlength

/-- A unit is loaded that declares its payload, if it creates one and has a slot.  The slots may be
others than before, but not those of other units. -/
theorem Machine.Tidy.insert {declared : PayloadDecl → Prop} (h : m.Tidy declared)
    (slots : SlotTable) {u : CodeUnit} {length : Nat}
    (hslots : ∀ token, token ≠ u.token → slots.get? token = m.slots.get? token)
    (hu : .acquire ∈ u.root.ownInstructions → ∀ slot, slots.get? u.token = some slot →
      declared ⟨u.token, length⟩) : ({ m with slots := slots }.insert u length).Tidy declared := by
  have hunits (token : MethodToken) :
      ({ m with slots := slots }.insert u length).code.units.get? token =
        if token = u.token then some ⟨u, length⟩ else m.code.units.get? token := by
    simp only [Machine.insert, Assoc.get?_set]
  constructor
  · intro token v hv
    rw [hunits] at hv
    by_cases hsame : token = u.token
    · rw [if_pos hsame] at hv
      cases hv
      exact hsame.symm
    · rw [if_neg hsame] at hv
      exact h.own token v hv
  · intro token v hv hacquire slot hslot
    rw [hunits] at hv
    replace hslot : slots.get? token = some slot := hslot
    by_cases hsame : token = u.token
    · rw [if_pos hsame] at hv
      cases hv
      subst hsame
      exact hu hacquire slot hslot
    · rw [if_neg hsame] at hv
      rw [hslots token hsame] at hslot
      exact h.creates token v hv hacquire slot hslot

/-- A unit without a slot is loaded. -/
theorem Machine.Ready.insert (h : m.Ready declares limit memory) {u : CodeUnit}
    (hu : Slotless declares u) : (m.insert u 0).Ready declares limit memory := by
  refine ⟨h.registering.withCode rfl rfl, h.limit_eq,
    h.tidy.insert m.slots (fun _ _ => rfl) fun hacquire slot hslot => ?_⟩
  obtain ⟨length, hdeclared⟩ := h.registering.known u.token slot hslot
  exact hu hacquire _ length hdeclared

/-- A unit is loaded with its slot, or without one. -/
theorem Machine.Ready.loadUnit (h : m.Ready declares limit memory) {v : InstrumentedUnit}
    (hv : Loadable declares m.moduleId v) :
    (m.loadUnit memory v).1.Ready declares limit (m.loadUnit memory v).2 ∧
      (m.loadUnit memory v).1.moduleId = m.moduleId := by
  cases hslot : v.slot with
  | none =>
    have hload : m.loadUnit memory v = (m.insert v.unit 0, memory) := by
      simp only [Machine.loadUnit, InstrumentedUnit.payloadLength, hslot]
    rw [hload]
    exact ⟨h.insert (hv.slotless hslot), rfl⟩
  | some d =>
    obtain ⟨htoken, hdeclares⟩ := hv.slotted d hslot
    have hload : m.loadUnit memory v =
        ({ m with slots := (m.slots.declare memory d.token).2.1 }.insert v.unit d.length,
          (m.slots.declare memory d.token).2.2) := by
      simp only [Machine.loadUnit, InstrumentedUnit.payloadLength, hslot]
    have hnext := h.registering.declare hdeclares
    obtain ⟨-, hregistry, -⟩ := SlotTable.declare_keeps m.slots memory d.token
    have htidy : ({ m with slots := (m.slots.declare memory d.token).2.1 }.insert v.unit
        d.length).Tidy (declares m.moduleId) := by
      refine h.tidy.insert _ (fun token hother => ?_) fun _ _ _ => ?_
      · show (m.slots.declare memory d.token).2.1.get? token = m.slots.get? token
        rw [SlotTable.declare_get?, htoken, if_neg hother]
      · rw [← htoken]
        exact hdeclares
    rw [hload]
    refine ⟨⟨hnext.withCode rfl rfl, ?_, htidy⟩, rfl⟩
    rw [hregistry]
    exact h.limit_eq

theorem Machine.Ready.loadUnits (h : m.Ready declares limit memory) {vs : List InstrumentedUnit}
    (hvs : ∀ v ∈ vs, Loadable declares m.moduleId v) :
    (m.loadUnits memory vs).1.Ready declares limit (m.loadUnits memory vs).2 := by
  induction vs generalizing m memory with
  | nil => exact h
  | cons v vs ih =>
    simp only [List.mem_cons, forall_eq_or_imp] at hvs
    obtain ⟨hnext, hid⟩ := h.loadUnit hvs.1
    have hrest : ∀ w ∈ vs, Loadable declares (m.loadUnit memory v).1.moduleId w := by
      rw [hid]
      exact hvs.2
    exact ih hnext hrest

/-- **Loading an instrumented program leaves the filled slots registered**, under whatever id. -/
theorem Machine.Ready.load (h : m.Ready declares limit memory) {p : InstrumentedProgram}
    (hp : ∀ v ∈ p.units, Loadable declares p.moduleId v) :
    (m.load memory p).1.Ready declares limit (m.load memory p).2 := by
  unfold Machine.load
  by_cases hid : p.moduleId = m.moduleId
  · rw [if_pos hid]
    rw [hid] at hp
    exact h.loadUnits hp
  · rw [if_neg hid]
    have hfresh : Machine.Ready declares limit { m with slots := {}, moduleId := p.moduleId }
        memory :=
      ⟨⟨⟨nofun, nofun⟩, nofun, nofun, nofun⟩, h.limit_eq, h.tidy.own, nofun⟩
    exact hfresh.loadUnits hp

/-- **Loading a plain program leaves them registered.** -/
theorem Machine.Ready.loadPlain (h : m.Ready declares limit memory) {p : Program}
    (hp : ∀ u ∈ p.allUnits, Slotless declares u) : (m.loadPlain p).Ready declares limit memory := by
  unfold Machine.loadPlain
  generalize p.allUnits = units at hp
  induction units generalizing m with
  | nil => exact h
  | cons u units ih =>
    simp only [List.mem_cons, forall_eq_or_imp] at hp
    exact ih (h.insert hp.1) hp.2

end Loading

/-! ## Sessions -/

section Sessions

variable {declares : ModuleId → PayloadDecl → Prop} {limit : Nat} {s s' : Session Memory}

/-- The session with an empty journal. -/
def Session.withJournal (s : Session Memory) : Session (Journal Unit × Memory) :=
  ⟨s.machine, s.heap, ({}, s.record)⟩

/-- **A call leaves the filled slots registered, and fills the slots of the units it enters**, also
while it is still going on. -/
theorem Machine.Ready.callRun (h : s.machine.Ready declares limit s.record)
    (apart : ∀ id, IndexedApart (declares id)) (callee : Value) (args : List Value) (fuel : Nat) :
    Filling (declares s.machine.moduleId) limit s.machine
      ((Rig.journaled ()).callRun s.withJournal callee args fuel s.withJournal.world).2.record := by
  have hcode : ∀ token u, s.machine.code.units.get? token = some u →
      UnitKeeps (fun _ => Filling (declares s.machine.moduleId) limit s.machine)
        (s.machine.journaled ()) u :=
    fun token u hu => filling_keeps h.tidy (apart _) hu
  have hcall := (steps_keep filling_upholds hcode (fuel + 1)).call (fun _ => False) callee args
  exact Run.keeps_iff.1 hcall s.withJournal.world ⟨h.registering, h.limit_eq, nofun⟩

theorem Machine.Ready.apply (h : s.machine.Ready declares limit s.record)
    (apart : ∀ id, IndexedApart (declares id)) {callee : Value} {args : List Value} {fuel : Nat}
    {result : Except HostError Value}
    (happly : Rig.payloads.apply s callee args fuel = some (result, s')) :
    s'.machine.Ready declares limit s'.record := by
  obtain ⟨t, hjournaled, rfl⟩ :=
    (Rig.journaled_apply (k := ()) s.withJournal callee args fuel).of_right happly
  obtain ⟨outcome, w, hrun, -, rfl⟩ := Rig.apply_some hjournaled
  have hcall := h.callRun apart callee args fuel
  rw [hrun] at hcall
  exact ⟨hcall.registering.withCode rfl rfl, hcall.limit_eq, h.tidy.own, h.tidy.creates⟩

/-- What a step loads, a machine can load. -/
def Step.Loadable (declares : ModuleId → PayloadDecl → Prop) : Step → Prop
  | .loadPlain p => ∀ u ∈ p.allUnits, Slotless declares u
  | .load p => ∀ v ∈ p.units, Host.Loadable declares p.moduleId v
  | .call .. | .apply .. | .flush => True

/-- **Each step of a session leaves the filled slots registered.** -/
theorem Machine.Ready.does (h : s.machine.Ready declares limit s.record)
    (apart : ∀ id, IndexedApart (declares id)) {step : Step} (hstep : step.Loadable declares)
    {reply : Reply Report} (hdoes : Rig.payloads.Does s step reply s') :
    s'.machine.Ready declares limit s'.record := by
  cases hdoes with
  | loadPlain p => exact h.loadPlain hstep
  | load p => exact h.load hstep
  | flush =>
    refine ⟨h.registering.flush, ?_, h.tidy⟩
    show (s.record.drainRows s.record.registry.table).2.registry.limit = limit
    rw [(s.record.drainRows_keeps _).2.1]
    exact h.limit_eq
  | apply fuel happly => exact h.apply apart happly
  | call fuel hcall =>
    rcases Rig.call_some hcall with ⟨token, happly⟩ | ⟨-, rfl⟩
    · exact h.apply apart happly
    · exact h

theorem Machine.Ready.runs (h : s.machine.Ready declares limit s.record)
    (apart : ∀ id, IndexedApart (declares id)) {script : List Step}
    (hscript : ∀ step ∈ script, step.Loadable declares) {replies : List (Reply Report)}
    (hruns : Rig.payloads.Runs s script replies s') :
    s'.machine.Ready declares limit s'.record := by
  induction hruns with
  | done => exact h
  | step first rest ih =>
    simp only [List.mem_cons, forall_eq_or_imp] at hscript
    exact ih (h.does apart hscript.1 first) hscript.2

/-- A fresh machine has no slots and no units. -/
theorem Machine.ready_fresh (declares : ModuleId → PayloadDecl → Prop) (limit maxDepth : Nat)
    (heap : Heap) :
    (Session.fresh maxDepth heap (Memory.withLimit limit)).machine.Ready declares limit
      (.withLimit limit) :=
  ⟨⟨⟨nofun, nofun⟩, nofun, nofun, nofun⟩, rfl, nofun, nofun⟩

/-! ## Scripts -/

/-- The slots that the loads of a script declare under a module id. -/
def Declares (script : List Step) (id : ModuleId) (d : PayloadDecl) : Prop :=
  ∃ p, .load p ∈ script ∧ p.moduleId = id ∧ ∃ v ∈ p.units, v.slot = some d

/-- Some load of a script brings in a unit of the token without a slot, and the unit itself creates
a payload. -/
def Hollows (script : List Step) (token : MethodToken) : Prop :=
  ∃ u : CodeUnit, u.token = token ∧ .acquire ∈ u.root.ownInstructions ∧
    ((∃ p, .loadPlain p ∈ script ∧ u ∈ p.allUnits) ∨
      ∃ p, .load p ∈ script ∧ ∃ v ∈ p.units, v.slot = none ∧ v.unit = u)

/-- The payloads that the slots declared under a module id may get: the declared ones, and an empty
one where a unit without a slot creates it. -/
def Creates (script : List Step) (id : ModuleId) (d : PayloadDecl) : Prop :=
  Declares script id d ∨
    d.length = 0 ∧ Hollows script d.token ∧ ∃ length, Declares script id ⟨d.token, length⟩

/-- A script in order: its instrumented programs are made by injection, and slots declared under one
id have indices of their own. -/
structure Orderly (script : List Step) : Prop where
  injected : ∀ p, .load p ∈ script → ∃ (source : Program) (options : InjectionOptions)
    (coverage : CoverageMap), source.instrument options coverage = .ok p
  apart : ∀ id, IndexedApart (Declares script id)

section Creates

variable {script : List Step} {id : ModuleId}

/-- A payload is created for a declared slot only. -/
theorem Creates.exists_declares {d : PayloadDecl} (h : Creates script id d) :
    ∃ length, Declares script id ⟨d.token, length⟩ := by
  rcases h with h | ⟨-, -, h⟩
  · exact ⟨d.length, h⟩
  · exact h

theorem IndexedApart.creates (h : IndexedApart (Declares script id)) :
    IndexedApart (Creates script id) := by
  intro d d' hd hd' hindex
  obtain ⟨length, hdeclared⟩ := hd.exists_declares
  obtain ⟨length', hdeclared'⟩ := hd'.exists_declares
  exact h ⟨d.token, length⟩ ⟨d'.token, length'⟩ hdeclared hdeclared' hindex

/-- A unit that is loaded without a slot creates an empty payload, if any. -/
theorem slotless_of_loaded {u : CodeUnit}
    (hu : (∃ p, .loadPlain p ∈ script ∧ u ∈ p.allUnits) ∨
      ∃ p, .load p ∈ script ∧ ∃ v ∈ p.units, v.slot = none ∧ v.unit = u) :
    Slotless (Creates script) u :=
  fun hacquire _ _ hcreates => .inr ⟨rfl, ⟨u, rfl, hacquire, hu⟩, hcreates.exists_declares⟩

theorem Orderly.loadable (h : Orderly script) :
    ∀ step ∈ script, step.Loadable (Creates script) := by
  intro step hstep
  cases step with
  | loadPlain p => exact fun u hu => slotless_of_loaded (.inl ⟨p, hstep, hu⟩)
  | load p =>
    intro v hv
    obtain ⟨source, options, coverage, hp⟩ := h.injected p hstep
    obtain ⟨u, -, hmade⟩ := Program.exists_injected hp hv
    constructor
    · exact fun d hslot => ⟨(hmade.of_slot hslot).1, .inl ⟨p, hstep, rfl, v, hv, hslot⟩⟩
    · exact fun hslot => slotless_of_loaded (.inr ⟨p, hstep, v, hv, hslot, rfl⟩)
  | call | apply | flush => trivial

end Creates

/-- A unit was given probes by a load of the script, its slot is declared, and its payload is within
the limit. -/
structure Armed (script : List Step) (limit : Nat) (m : Machine) (token : MethodToken)
    (v : InstrumentedUnit) (d : PayloadDecl) : Prop where
  loaded : ∃ p, .load p ∈ script ∧ v ∈ p.units
  probed : v.slot = some d
  current : m.code.units.get? token = some ⟨v.unit, d.length⟩
  declared : ∃ slot, m.slots.get? token = some slot
  limit : d.length ≤ limit
  small : d.length < allocationBound

end Sessions

/-- **The filled slots of a machine are registered**, in every session of a fresh machine and a
fresh registry, with loads under any ids: the registry observes the machine's module and has the
array of each filled slot under its unit's token.  The array has as many cells as the slot declares,
or none at all, and this only if the script has brought in a unit of the token that has no slot and
creates a payload.  A load under the same id keeps every slot and what is in it; a load under
another id leaves all slots empty.  In the course of one more call the slots stay registered, and
every unit entered has its slot filled, if it was given probes, its slot is declared, and its
payload is within the limit. -/
theorem filled_slots_registered {script : List Step} (orderly : Orderly script)
    {limit maxDepth : Nat} {heap : Heap} {replies : List (Reply Report)} {s : Session Memory}
    (hruns : Rig.payloads.Runs (.fresh maxDepth heap (.withLimit limit)) script replies s) :
    SlotsRegistered (Creates script s.machine.moduleId) s.machine s.record ∧
      (∀ p : InstrumentedProgram, p.moduleId = s.machine.moduleId → ∀ token slot,
        s.machine.slots.get? token = some slot →
          (s.machine.load s.record p).1.slots.get? token = some slot ∧
            (s.machine.load s.record p).2.slotArray? slot = s.record.slotArray? slot) ∧
      (∀ p : InstrumentedProgram, p.moduleId ≠ s.machine.moduleId → ∀ token,
        arrayOf? (s.machine.load s.record p).1.slots (s.machine.load s.record p).2 token = none) ∧
      ∀ callee args fuel, ∃ journal,
        let memory := (Rig.payloads.callRun s callee args fuel s.world).2.record
        ((Rig.journaled ()).callRun s.withJournal callee args fuel s.withJournal.world).2.record =
            (journal, memory) ∧
          SlotsRegistered (Creates script s.machine.moduleId) s.machine memory ∧
          ∀ token, ((), token) ∈ journal.entries → ∀ v d, Armed script limit s.machine token v d →
            ∃ array, arrayOf? s.machine.slots memory token = some array := by
  have apart (id : ModuleId) : IndexedApart (Creates script id) := (orderly.apart id).creates
  have hready : s.machine.Ready (Creates script) limit s.record :=
    (Machine.ready_fresh (Creates script) limit maxDepth heap).runs apart orderly.loadable hruns
  refine ⟨hready.registering.filled, fun p hid token slot hslot => ?_,
    fun p hid token => s.machine.load_other s.record hid token, fun callee args fuel => ?_⟩
  · obtain ⟨harray, hkept⟩ := s.machine.load_same s.record hid token
    have hnext := hkept slot hslot
    rw [arrayOf?, arrayOf?, hnext, hslot] at harray
    exact ⟨hnext, harray⟩
  · have hcall := hready.callRun apart callee args fuel
    have hmemory := Rig.journaled_callRun (k := ()) s.withJournal callee args fuel
    refine ⟨_, Prod.ext rfl hmemory, ?_, fun token hentered v d harmed => ?_⟩
    · have hfilled := hcall.registering.filled
      rw [hmemory] at hfilled
      exact hfilled
    · obtain ⟨p, hp, hv⟩ := harmed.loaded
      obtain ⟨source, options, coverage, hsource⟩ := orderly.injected p hp
      obtain ⟨u, -, hmade⟩ := Program.exists_injected hsource hv
      obtain ⟨-, body, hroot⟩ := hmade.of_slot harmed.probed
      obtain ⟨slot, hslot⟩ := harmed.declared
      have hfilled := hcall.entered token hentered _ harmed.current body hroot slot hslot
        harmed.limit harmed.small
      rw [hmemory] at hfilled
      exact hfilled

/-! ## An example -/

/-- The greeting under another id. -/
def greetingAgain : InstrumentedProgram := { greetingInstrumented with moduleId := ⟨1⟩ }

/-- Two loads under different ids with a call behind each of them, and a plain load. -/
def reloading : List Step :=
  [.load greetingInstrumented, .call "main" [], .load greetingAgain, .call "main" [],
    .loadPlain greeting, .call "main" []]

/-- One slot is declared, whatever the id. -/
theorem eq_of_declares {script : List Step}
    (h : ∀ p, .load p ∈ script → p.units = greetingInstrumented.units) {id : ModuleId}
    {d : PayloadDecl} (hd : Declares script id d) : d = ⟨⟨0x06000001⟩, 6⟩ := by
  obtain ⟨p, hp, -, v, hv, hslot⟩ := hd
  rw [h p hp] at hv
  rw [List.mem_singleton.1 hv] at hslot
  exact (Option.some.inj hslot).symm

theorem load_mem_reloading {p : InstrumentedProgram} :
    .load p ∈ reloading ↔ p = greetingInstrumented ∨ p = greetingAgain := by
  simp [reloading]

theorem loadPlain_mem_reloading {p : Program} : .loadPlain p ∈ reloading ↔ p = greeting := by
  simp [reloading]

theorem reloading_units (p : InstrumentedProgram) (h : .load p ∈ reloading) :
    p.units = greetingInstrumented.units := by
  rcases load_mem_reloading.1 h with rfl | rfl <;> rfl

theorem reloading_orderly : Orderly reloading where
  injected p h := by
    rcases load_mem_reloading.1 h with rfl | rfl
    · exact ⟨greeting, {}, greetingMap, greeting_instrument⟩
    · exact ⟨greeting, { moduleId := ⟨1⟩ }, greetingMap, (Program.instrument_eq ..).trans rfl⟩
  apart id d d' hd hd' _ := by
    rw [eq_of_declares reloading_units hd, eq_of_declares reloading_units hd']

/-- No unit without a slot creates a payload. -/
theorem reloading_not_hollows (token : MethodToken) : ¬ Hollows reloading token := by
  rintro ⟨u, -, hacquire, ⟨p, hp, hu⟩ | ⟨p, hp, v, hv, hslot, -⟩⟩
  · rw [loadPlain_mem_reloading.1 hp] at hu
    rw [List.mem_singleton.1 hu] at hacquire
    exact absurd hacquire (by decide)
  · rw [reloading_units p hp] at hv
    rw [List.mem_singleton.1 hv] at hslot
    cases hslot

/-- The slot is filled, and registered under the second id. -/
theorem reloading_registered :
    ∃ replies s, Rig.payloads.Runs (.fresh 8 {} (.withLimit 6)) reloading replies s ∧
      s.machine.moduleId = ⟨1⟩ ∧ arrayOf? s.machine.slots s.record ⟨0x06000001⟩ = some 1 ∧
      Registered (Declares reloading ⟨1⟩) ⟨1⟩ s.record ⟨0x06000001⟩ 1 := by
  have hreplay : (Rig.payloads.replay? 4 (.fresh 8 {} (.withLimit 6)) reloading).map
      (fun (_, s) => (s.machine.moduleId, arrayOf? s.machine.slots s.record ⟨0x06000001⟩)) =
        some (⟨1⟩, some 1) := by
    decide +kernel
  obtain ⟨⟨replies, s⟩, hrun, hends⟩ := Option.map_eq_some_iff.1 hreplay
  obtain ⟨hid, harray⟩ := Prod.mk.inj hends
  have hruns := Rig.runs_of_replay? hrun
  obtain ⟨hmodule, hget, hlength⟩ :=
    (filled_slots_registered reloading_orderly hruns).1 _ _ harray
  rw [hid] at hmodule hlength
  have hdeclared := hlength.resolve_right fun h => reloading_not_hollows _ h.2.1
  exact ⟨replies, s, hruns, hid, harray, hmodule, hget, hdeclared⟩

/-- A plain program with a unit of the same token that creates a payload. -/
def hollow : Program where
  name := "hollow"
  units := [⟨{ token := ⟨0x06000001⟩, name := "main", range := .none }, .acquire⟩]

/-- The greeting is loaded, and then the plain program, which is called. -/
def hollowing : List Step := [.load greetingInstrumented, .loadPlain hollow, .call "main" []]

theorem hollowing_units (p : InstrumentedProgram) (h : .load p ∈ hollowing) :
    p.units = greetingInstrumented.units := by
  obtain rfl : p = greetingInstrumented := by simpa [hollowing] using h
  rfl

/-- The one slot that is declared is filled with an array of no cells. -/
theorem hollowing_not_registered :
    greeting.instrument {} greetingMap = .ok greetingInstrumented ∧
      (∀ id d d', Declares hollowing id d → Declares hollowing id d' → d = d') ∧
      ∃ replies s, Rig.payloads.Runs (.fresh 8 {} (.withLimit 6)) hollowing replies s ∧
        ¬ SlotsRegistered (Declares hollowing s.machine.moduleId) s.machine s.record := by
  have hreplay : (Rig.payloads.replay? 4 (.fresh 8 {} (.withLimit 6)) hollowing).map
      (fun (_, s) => (arrayOf? s.machine.slots s.record ⟨0x06000001⟩, s.record.cells 0)) =
        some (some 0, []) := by
    decide +kernel
  obtain ⟨⟨replies, s⟩, hrun, hends⟩ := Option.map_eq_some_iff.1 hreplay
  obtain ⟨harray, hcells⟩ := Prod.mk.inj hends
  refine ⟨greeting_instrument, ?_, replies, s, Rig.runs_of_replay? hrun, fun h => ?_⟩
  · intro id d d' hd hd'
    rw [eq_of_declares hollowing_units hd, eq_of_declares hollowing_units hd']
  · have hlength := (h _ _ harray).length
    rw [hcells] at hlength
    exact absurd (eq_of_declares hollowing_units hlength) (by decide)

end SpanCoverage.Host
