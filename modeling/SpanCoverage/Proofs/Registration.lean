import SpanCoverage.Proofs.Journal
import SpanCoverage.Proofs.Keeping
import SpanCoverage.Proofs.Records

/-!
# Registered slots

A slot that a machine declares is filled by the first entry of its unit, if the array fits, and the
array is registered under the unit's token.  It stays registered, because no other declared slot has
the same method index, and because only this machine has the registry observe modules: when the
registry starts anew, no slot of the machine is filled.

The main results are:

* `Machine.acquires` — what a unit does at the creation of its payload.
* `Registering.acquire` — the filled slots of a machine stay registered.
* `filling_keeps` — so they do in every run, and an entry fills the slot of its unit.
-/

namespace SpanCoverage.Host

/-! ## Creating payloads -/

/-- What a unit does at the creation of its payload, case by case. -/
inductive Acquires (m : Machine) (token : MethodToken) (length : Nat) (memory : Memory) :
    Memory → Prop
  | undeclared (hslot : m.slots.get? token = none) : Acquires m token length memory memory
  | filled {array : ArrayId} (harray : arrayOf? m.slots memory token = some array) :
    Acquires m token length memory memory
  | unfit {slot : SlotId} (hslot : m.slots.get? token = some slot)
    (hempty : memory.slotArray? slot = none)
    (hunfit : memory.registry.limit < length ∨ allocationBound ≤ length) :
    Acquires m token length memory (memory.observed m.moduleId)
  | fresh {slot : SlotId} (hslot : m.slots.get? token = some slot)
    (hempty : memory.slotArray? slot = none) :
    Acquires m token length memory
      ((memory.observed m.moduleId).filled m.moduleId token slot length)

theorem Machine.acquires (m : Machine) (token : MethodToken) (length : Nat) (memory : Memory) :
    Acquires m token length memory (m.recorder.acquire token length memory) := by
  cases hslot : m.slots.get? token with
  | none =>
    have hnothing : m.recorder.acquire token length memory = memory := by
      simp only [Machine.recorder, hslot]
    rw [hnothing]
    exact .undeclared hslot
  | some slot =>
    cases harray : arrayOf? m.slots memory token with
    | some array =>
      rw [acquire_of_array harray]
      exact .filled harray
    | none =>
      obtain ⟨hempty, hacquire⟩ := acquire_of_slot hslot harray length
      rw [hacquire]
      by_cases hfits : length ≤ memory.registry.limit ∧ length < allocationBound
      · rw [Memory.acquire_fitting memory hempty hfits.1 hfits.2]
        exact .fresh hslot hempty
      · have hunfit : memory.registry.limit < length ∨ allocationBound ≤ length := by omega
        rw [Memory.acquire_unfit memory hempty hunfit]
        exact .unfit hslot hempty hunfit

section Acquire

variable {m : Machine} {memory : Memory} {token : MethodToken} {length : Nat}

/-- The creation of a payload changes no limit. -/
theorem limit_acquire :
    (m.recorder.acquire token length memory).registry.limit = memory.registry.limit := by
  have hcases := m.acquires token length memory
  generalize m.recorder.acquire token length memory = memory' at hcases ⊢
  cases hcases with
  | undeclared | filled => rfl
  | unfit | fresh => exact Memory.limit_observe _ _

/-- An array stays in its slot. -/
theorem arrayOf?_acquire_of_some (hslotted : Slotted m.slots.get? memory) {other : MethodToken}
    {array : ArrayId} (h : arrayOf? m.slots memory other = some array) :
    arrayOf? m.slots (m.recorder.acquire token length memory) other = some array := by
  have hcases := m.acquires token length memory
  generalize m.recorder.acquire token length memory = memory' at hcases ⊢
  cases hcases with
  | undeclared | filled => exact h
  | unfit => exact h
  | @fresh slot hslot hempty =>
    have hother : m.slots.get? other ≠ some slot := by
      intro hsame
      rw [arrayOf?, hsame] at h
      cases hempty.symm.trans h
    have hlt : slot < (memory.observed m.moduleId).slots.size := hslotted.lt_size token slot hslot
    rw [arrayOf?_fill hlt rfl, if_neg hother]
    exact h

/-- A declared slot is filled behind the creation of a payload that fits. -/
theorem exists_arrayOf?_acquire (hslotted : Slotted m.slots.get? memory) {slot : SlotId}
    (hslot : m.slots.get? token = some slot) (hlimit : length ≤ memory.registry.limit)
    (hbound : length < allocationBound) :
    ∃ array, arrayOf? m.slots (m.recorder.acquire token length memory) token = some array := by
  have hcases := m.acquires token length memory
  generalize m.recorder.acquire token length memory = memory' at hcases ⊢
  cases hcases with
  | undeclared hnone => cases hnone.symm.trans hslot
  | filled harray => exact ⟨_, harray⟩
  | unfit _ _ hunfit => omega
  | @fresh slot' hslot' _ =>
    have hlt : slot' < (memory.observed m.moduleId).slots.size :=
      hslotted.lt_size token slot' hslot'
    refine ⟨memory.arrays.size, ?_⟩
    rw [arrayOf?_fill hlt rfl, if_pos hslot']
    rfl

end Acquire

/-! ## Registered arrays -/

/-- An array is registered for a unit: the registry observes the module and has the array under the
unit's token, and the array has the length declared for it. -/
structure Registered (declared : PayloadDecl → Prop) (moduleId : ModuleId) (memory : Memory)
    (token : MethodToken) (array : ArrayId) : Prop where
  module : memory.registry.module? = some moduleId
  registered : memory.registry.get? token = some array
  length : declared ⟨token, (memory.cells array).length⟩

/-- The filled slots of a machine are registered. -/
def SlotsRegistered (declared : PayloadDecl → Prop) (m : Machine) (memory : Memory) : Prop :=
  ∀ token array, arrayOf? m.slots memory token = some array →
    Registered declared m.moduleId memory token array

/-- Tokens that differ have indices of their own. -/
def IndexedApart (declared : PayloadDecl → Prop) : Prop :=
  ∀ d d', declared d → declared d' → d.token.methodIndex = d'.token.methodIndex →
    d.token = d'.token

/-- The slots of a machine are declared, each is one unit's own, and those that are filled are
registered. -/
structure Registering (declared : PayloadDecl → Prop) (m : Machine) (memory : Memory) : Prop where
  slotted : Slotted m.slots.get? memory
  known : ∀ token slot, m.slots.get? token = some slot → ∃ length, declared ⟨token, length⟩
  made : ∀ token array, arrayOf? m.slots memory token = some array → array < memory.arrays.size
  filled : SlotsRegistered declared m memory

section Registering

variable {declared : PayloadDecl → Prop} {m : Machine} {memory memory' : Memory}

/-- What counts are slots, registry and the lengths of the arrays. -/
theorem Registering.congr (h : Registering declared m memory)
    (hslots : memory'.slots = memory.slots)
    (hregistry : memory'.registry = memory.registry)
    (hsize : memory'.arrays.size = memory.arrays.size)
    (hcells : ∀ array, (memory'.cells array).length = (memory.cells array).length) :
    Registering declared m memory' := by
  have harray : arrayOf? m.slots memory' = arrayOf? m.slots memory := by
    funext token
    have hslot : memory'.slotArray? = memory.slotArray? := by
      funext slot
      exact congrArg (fun slots => slots.getD slot none) hslots
    rw [arrayOf?, arrayOf?, hslot]
  refine ⟨⟨?_, h.slotted.apart⟩, h.known, ?_, ?_⟩
  · rw [hslots]
    exact h.slotted.lt_size
  · rw [harray, hsize]
    exact h.made
  · intro token array htoken
    rw [harray] at htoken
    obtain ⟨hmodule, hget, hlength⟩ := h.filled token array htoken
    rw [← hregistry] at hmodule hget
    rw [← hcells] at hlength
    exact ⟨hmodule, hget, hlength⟩

/-- The code of a machine does not count. -/
theorem Registering.withCode (h : Registering declared m memory) {m' : Machine}
    (hslots : m'.slots = m.slots) (hid : m'.moduleId = m.moduleId) :
    Registering declared m' memory := by
  obtain ⟨hslotted, hknown, hmade, hfilled⟩ := h
  rw [← hslots] at hslotted hknown hmade
  unfold SlotsRegistered at hfilled
  rw [← hslots, ← hid] at hfilled
  exact ⟨hslotted, hknown, hmade, hfilled⟩

/-- Where the registry has to start anew, no slot is filled. -/
theorem Registering.observed (h : Registering declared m memory) :
    Registering declared m (memory.observed m.moduleId) := by
  by_cases hmodule : memory.registry.module? = some m.moduleId
  · have hsame : memory.observed m.moduleId = memory := by
      rw [Memory.observed, Memory.observe_of_module hmodule]
    rw [hsame]
    exact h
  · have hnone (token : MethodToken) (array : ArrayId)
        (harray : arrayOf? m.slots (memory.observed m.moduleId) token = some array) : False :=
      hmodule (h.filled token array harray).module
    exact ⟨⟨h.slotted.lt_size, h.slotted.apart⟩, h.known,
      fun token array harray => (hnone token array harray).elim,
      fun token array harray => (hnone token array harray).elim⟩

/-- Filling a slot registers its array, and takes no row from another slot. -/
theorem Registering.fill (h : Registering declared m memory) (apart : IndexedApart declared)
    {token : MethodToken} {slot : SlotId} {length : Nat} (hslot : m.slots.get? token = some slot)
    (hdeclared : declared ⟨token, length⟩) :
    Registering declared m (memory.filled m.moduleId token slot length) := by
  have harray (other : MethodToken) :
      arrayOf? m.slots (memory.filled m.moduleId token slot length) other =
        if m.slots.get? other = some slot then some memory.arrays.size
        else arrayOf? m.slots memory other :=
    arrayOf?_fill (h.slotted.lt_size token slot hslot) rfl m.slots other
  have hcells (array : ArrayId) :
      (memory.filled m.moduleId token slot length).cells array =
        if array = memory.arrays.size then List.replicate length false else memory.cells array :=
    Memory.getD_push _
  have hget (other : MethodToken) :
      (memory.filled m.moduleId token slot length).registry.get? other =
        if other.methodIndex = token.methodIndex then some memory.arrays.size
        else memory.registry.get? other :=
    Registry.find?_insertRow _
  refine ⟨⟨fun other slot' hother => ?_, h.slotted.apart⟩, h.known, ?_, ?_⟩
  · show slot' < (memory.slots.setIfInBounds slot _).size
    rw [Array.size_setIfInBounds]
    exact h.slotted.lt_size other slot' hother
  · intro other array hother
    show array < (memory.arrays.push _).size
    rw [Array.size_push]
    rw [harray] at hother
    by_cases hsame : m.slots.get? other = some slot
    · rw [if_pos hsame] at hother
      cases hother
      exact Nat.lt_succ_self _
    · rw [if_neg hsame] at hother
      exact Nat.lt_succ_of_lt (h.made other array hother)
  · intro other array hother
    rw [harray] at hother
    by_cases hsame : m.slots.get? other = some slot
    · rw [if_pos hsame] at hother
      cases hother
      cases h.slotted.apart hsame hslot
      refine ⟨rfl, ?_, ?_⟩
      · rw [hget, if_pos rfl]
      · rw [hcells, if_pos rfl, List.length_replicate]
        exact hdeclared
    · rw [if_neg hsame] at hother
      obtain ⟨-, hregistered, hlength⟩ := h.filled other array hother
      have hindex : other.methodIndex ≠ token.methodIndex := by
        intro hindex
        obtain rfl : other = token := apart _ _ hlength hdeclared hindex
        exact hsame hslot
      have hold : array ≠ memory.arrays.size := Nat.ne_of_lt (h.made other array hother)
      refine ⟨rfl, ?_, ?_⟩
      · rw [hget, if_neg hindex]
        exact hregistered
      · rw [hcells, if_neg hold]
        exact hlength

/-- **The filled slots of a machine stay registered** when a unit creates its payload. -/
theorem Registering.acquire (h : Registering declared m memory) (apart : IndexedApart declared)
    {token : MethodToken} {length : Nat}
    (hdeclared : ∀ slot, m.slots.get? token = some slot → declared ⟨token, length⟩) :
    Registering declared m (m.recorder.acquire token length memory) := by
  have hcases := m.acquires token length memory
  generalize m.recorder.acquire token length memory = memory' at hcases ⊢
  cases hcases with
  | undeclared | filled => exact h
  | unfit => exact h.observed
  | fresh hslot => exact h.observed.fill apart hslot (hdeclared _ hslot)

/-- A visit changes a cell and nothing else. -/
theorem Registering.mark (h : Registering declared m memory) (array : ArrayId) (span : Nat) :
    Registering declared m (memory.mark array span) := by
  refine h.congr rfl rfl (Memory.size_mark ..) fun other => ?_
  rw [Memory.cells_mark]
  by_cases hsame : other = array
  · rw [if_pos hsame, hsame, List.length_set]
  · rw [if_neg hsame]

/-- A flush changes cells and nothing else. -/
theorem Registering.flush (h : Registering declared m memory) :
    Registering declared m memory.flush.2 := by
  obtain ⟨hslots, hregistry, hsize⟩ := memory.drainRows_keeps memory.registry.table
  exact h.congr hslots hregistry hsize (memory.length_cells_drainRows memory.registry.table)

end Registering

/-! ## Runs -/

/-- The invariant of a machine's runs: filled slots are registered, the registry has its limit, and
each unit that was entered has its slot filled, if it creates a payload, has a slot, and the payload
fits. -/
structure Filling (declared : PayloadDecl → Prop) (limit : Nat) (m : Machine)
    (s : Journal Unit × Memory) : Prop where
  registering : Registering declared m s.2
  limit_eq : s.2.registry.limit = limit
  entered : ∀ token, ((), token) ∈ s.1.entries → ∀ u, m.code.units.get? token = some u →
    ∀ body, u.unit.root = .seq (.acquire :: body) → ∀ slot, m.slots.get? token = some slot →
      u.payloadLength ≤ limit → u.payloadLength < allocationBound →
        ∃ array, arrayOf? m.slots s.2 token = some array

/-- Loaded units stand under their own tokens, and those that create a payload and have a slot
declare it.  What is created in the units nested in a unit does not count. -/
structure Machine.Tidy (declared : PayloadDecl → Prop) (m : Machine) : Prop where
  own : ∀ token u, m.code.units.get? token = some u → u.unit.token = token
  creates : ∀ token u, m.code.units.get? token = some u → .acquire ∈ u.unit.root.ownInstructions →
    ∀ slot, m.slots.get? token = some slot → declared ⟨token, u.payloadLength⟩

section Filling

variable {declared : PayloadDecl → Prop} {limit : Nat} {m : Machine} {s : Journal Unit × Memory}

/-- The creation of a payload keeps the invariant. -/
theorem Filling.acquire (h : Filling declared limit m s) (apart : IndexedApart declared)
    {token : MethodToken} {length : Nat}
    (hdeclared : ∀ slot, m.slots.get? token = some slot → declared ⟨token, length⟩) :
    Filling declared limit m (s.1, m.recorder.acquire token length s.2) := by
  refine ⟨h.registering.acquire apart hdeclared, limit_acquire.trans h.limit_eq, ?_⟩
  intro other hother u hu body hroot slot hslot hlimit hbound
  obtain ⟨array, harray⟩ := h.entered other hother u hu body hroot slot hslot hlimit hbound
  exact ⟨array, arrayOf?_acquire_of_some h.registering.slotted harray⟩

/-- So does a visit. -/
theorem Filling.mark (h : Filling declared limit m s) (token : MethodToken) (span : Nat) :
    Filling declared limit m (s.1.mark () token span, m.recorder.mark token span s.2) := by
  cases harray : arrayOf? m.slots s.2 token with
  | none =>
    rw [mark_of_none harray]
    exact ⟨h.registering, h.limit_eq, h.entered⟩
  | some array =>
    rw [mark_of_array harray]
    exact ⟨h.registering.mark array span, h.limit_eq, h.entered⟩

/-- So does the entry of a unit, if the unit's slot is filled behind it. -/
theorem Filling.enter (h : Filling declared limit m s) {token : MethodToken}
    (hfilled : ∀ u, m.code.units.get? token = some u →
      ∀ body, u.unit.root = .seq (.acquire :: body) → ∀ slot, m.slots.get? token = some slot →
        u.payloadLength ≤ limit → u.payloadLength < allocationBound →
          ∃ array, arrayOf? m.slots s.2 token = some array) :
    Filling declared limit m (s.1.enter () token, s.2) := by
  refine ⟨h.registering, h.limit_eq, fun other hother => ?_⟩
  rcases Journal.mem_enter.1 hother with hsame | hother
  · cases hsame
    exact hfilled
  · exact h.entered other hother

theorem filling_upholds :
    (m.journaled ()).Upholds fun _ => Filling declared limit m where
  note active event s hevent h := by
    cases event with
    | entered unit depth => exact absurd rfl (hevent unit depth)
    | left | reached | failed => exact h
  back _ _ _ h := h

/-- **Every run keeps the filled slots registered, and fills the slots of the units it enters.** -/
theorem filling_keeps (hm : m.Tidy declared) (apart : IndexedApart declared)
    {token : MethodToken} {u : LoadedUnit} (hu : m.code.units.get? token = some u) :
    UnitKeeps (fun _ => Filling declared limit m) (m.journaled ()) u := by
  obtain rfl := hm.own token u hu
  have hcode (scope : Scope) : Performs (Filling declared limit m) (m.journaled ())
      ⟨u.unit.token, scope, u.payloadLength⟩ u.unit.root.ownInstructions := by
    intro i hi
    refine Watch.ignores_invariant.2 fun s h => ?_
    cases i with
    | acquire => exact h.acquire apart (hm.creates _ u hu hi)
    | mark span => exact h.mark u.unit.token span
  by_cases harmed : ∃ body, u.unit.root = .seq (.acquire :: body)
  · obtain ⟨body, hroot⟩ := harmed
    have hacquire : .acquire ∈ u.unit.root.ownInstructions := by
      rw [hroot]
      exact List.mem_cons_self
    refine .armed hroot (fun _ depth s h => ?_) fun _ => hcode
    have hdeclared := hm.creates _ u hu hacquire
    refine (h.acquire apart hdeclared).enter fun v hv _ _ slot hslot hlimit hbound => ?_
    cases hu.symm.trans hv
    rw [← h.limit_eq] at hlimit
    exact exists_arrayOf?_acquire h.registering.slotted hslot hlimit hbound
  · refine .bare (fun _ depth s h => h.enter fun v hv body hroot => ?_) fun _ => hcode
    cases hu.symm.trans hv
    exact absurd ⟨body, hroot⟩ harmed

end Filling

end SpanCoverage.Host
