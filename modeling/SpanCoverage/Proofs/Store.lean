import SpanCoverage.Payload.Memory

/-!
# What payload memory does

Every operation on payload memory is described by what it does to the cells of each array, to each
slot, and to the table of the registry.

The main results are:

* `Memory.cells_mark`, `Memory.cells_drain` — a visit and a drain change one array only.
* `Memory.acquire_eq` — filling an empty slot makes one array, and enters it at its place in the
  table.
* `Memory.acquire_fitting`, `Memory.acquire_unfit` — what filling a slot does to a registry that may
  have observed another module before.
* `Registry.pairwise_insertRow`, `Registry.find?_insertRow` — the table stays in order, and changes
  at one index only.
* `SlotTable.Declared.declare` — units get slots of their own, one after the other.
* `Memory.drainRows_eq` — a flush reports every row and clears it.
-/

namespace SpanCoverage

namespace Memory

/-! ## Arrays -/

section Arrays

variable (m : Memory)

/-- The cells of an array that are replaced by others. -/
theorem cells_modify (array other : ArrayId) (f : List Bool → List Bool) (hf : f [] = []) :
    ({ m with arrays := m.arrays.modify array f } : Memory).cells other =
      if other = array then f (m.cells array) else m.cells other := by
  simp only [cells, Array.getD_eq_getD_getElem?, Array.getElem?_modify]
  by_cases h : other = array
  · subst h
    rw [if_pos rfl, if_pos rfl]
    cases m.arrays[other]? with
    | none => exact hf.symm
    | some cells => rfl
  · rw [if_neg h, if_neg (Ne.symm h)]

/-- A visit changes the cells of its array only. -/
theorem cells_mark (array other : ArrayId) (index : Nat) :
    (m.mark array index).cells other =
      if other = array then (m.cells array).set index true else m.cells other :=
  m.cells_modify array other _ rfl

/-- A drain clears the cells of its array only. -/
theorem cells_drain (array other : ArrayId) :
    (m.drain array).2.cells other =
      if other = array then List.replicate (m.cells array).length false else m.cells other :=
  m.cells_modify array other _ rfl

@[simp] theorem size_mark (array : ArrayId) (index : Nat) :
    (m.mark array index).arrays.size = m.arrays.size :=
  Array.size_modify ..

end Arrays

/-! ## Slots and registry -/

/-- What a registry becomes when it observes a module, if it has observed no other, and an array is
entered. -/
theorem register_observe {r : Registry} {module : ModuleId}
    (h : ∀ g, r.current = some g → g.module = module) (token : MethodToken) (array : ArrayId) :
    (r.observe module).register token array =
      { r with current := some ⟨module, Registry.insertRow token.methodIndex array r.table⟩ } := by
  obtain ⟨limit, current⟩ := r
  cases current with
  | none => rfl
  | some g =>
    obtain rfl := h g rfl
    have hobserve : (⟨limit, some g⟩ : Registry).observe g.module = ⟨limit, some g⟩ :=
      if_pos rfl
    rw [hobserve]
    rfl

theorem limit_observe (r : Registry) (module : ModuleId) : (r.observe module).limit = r.limit := by
  unfold Registry.observe
  by_cases h : r.module? = some module
  · rw [if_pos h]
  · rw [if_neg h]

/-- The memory with a slot filled by a fresh array, which is also entered in the registry. -/
def filled (m : Memory) (module : ModuleId) (token : MethodToken) (slot : SlotId) (length : Nat) :
    Memory where
  arrays := m.arrays.push (List.replicate length false)
  slots := m.slots.setIfInBounds slot (some m.arrays.size)
  registry := { m.registry with
    current := some ⟨module,
      Registry.insertRow token.methodIndex m.arrays.size m.registry.table⟩ }

/-- **Filling an empty slot makes one array**, with no cell visited, and enters it in the registry,
if the array fits and the registry has observed no other module. -/
theorem acquire_eq (m : Memory) {module : ModuleId} {token : MethodToken} {slot : SlotId}
    {length : Nat} (hslot : m.slotArray? slot = none) (hlimit : length ≤ m.registry.limit)
    (hbound : length < allocationBound)
    (hmodule : ∀ g, m.registry.current = some g → g.module = module) :
    m.acquire module token slot length = m.filled module token slot length := by
  have hfresh : freshCells length (m.registry.observe module).limit =
      .ok (List.replicate length false) := by
    rw [limit_observe, freshCells, if_neg (by omega), if_neg (by omega)]
  have hempty : m.slots.getD slot none = none := hslot
  rw [filled, ← register_observe hmodule]
  simp only [acquire, slotArray?, hempty, hfresh, newArray, install]

/-- The memory behind observing a module. -/
def observed (m : Memory) (module : ModuleId) : Memory :=
  { m with registry := m.registry.observe module }

theorem observe_of_module {r : Registry} {module : ModuleId} (h : r.module? = some module) :
    r.observe module = r :=
  if_pos h

@[simp] theorem module?_observe (r : Registry) (module : ModuleId) :
    (r.observe module).module? = some module := by
  by_cases h : r.module? = some module
  · rw [observe_of_module h]
    exact h
  · rw [Registry.observe, if_neg h]
    rfl

/-- Observing a module first makes no difference to the call of a unit. -/
theorem acquire_observed (m : Memory) (module : ModuleId) (token : MethodToken) (slot : SlotId)
    (length : Nat) :
    (m.observed module).acquire module token slot length = m.acquire module token slot length := by
  simp only [acquire, observed, observe_of_module (module?_observe m.registry module)]

/-- Filling an empty slot with an array that fits, whatever the registry observed before. -/
theorem acquire_fitting (m : Memory) {module : ModuleId} {token : MethodToken} {slot : SlotId}
    {length : Nat} (hslot : m.slotArray? slot = none) (hlimit : length ≤ m.registry.limit)
    (hbound : length < allocationBound) :
    m.acquire module token slot length =
      (m.observed module).filled module token slot length := by
  have hmodule (g : Generation) (hg : (m.observed module).registry.current = some g) :
      g.module = module := by
    have hobserved := module?_observe m.registry module
    have hcurrent : (m.registry.observe module).current = some g := hg
    rw [Registry.module?, hcurrent] at hobserved
    exact Option.some.inj hobserved
  rw [← acquire_observed]
  refine acquire_eq _ hslot ?_ hbound hmodule
  rw [observed, limit_observe]
  exact hlimit

/-- An array that does not fit is not made; the module is observed all the same. -/
theorem acquire_unfit (m : Memory) {module : ModuleId} {token : MethodToken} {slot : SlotId}
    {length : Nat} (hslot : m.slotArray? slot = none)
    (h : m.registry.limit < length ∨ allocationBound ≤ length) :
    m.acquire module token slot length = m.observed module := by
  have hfresh : ∃ error, freshCells length (m.registry.observe module).limit = .error error := by
    rw [limit_observe, freshCells]
    by_cases hlimit : m.registry.limit < length
    · exact ⟨_, if_pos hlimit⟩
    · rw [if_neg hlimit, if_pos (h.resolve_left hlimit)]
      exact ⟨_, rfl⟩
  obtain ⟨error, herror⟩ := hfresh
  have hempty : m.slots.getD slot none = none := hslot
  simp only [acquire, slotArray?, hempty, herror, observed]

/-- The slots behind filling one of them. -/
theorem getD_setIfInBounds {slots : Array (Option ArrayId)} {slot other : SlotId}
    (h : slot < slots.size) (array : ArrayId) :
    (slots.setIfInBounds slot (some array)).getD other none =
      if other = slot then some array else slots.getD other none := by
  simp only [Array.getD_eq_getD_getElem?, Array.getElem?_setIfInBounds]
  by_cases hs : slot = other
  · subst hs
    rw [if_pos rfl, if_pos rfl, if_pos h]
    rfl
  · rw [if_neg hs, if_neg (Ne.symm hs)]

/-- The cells behind making one more array. -/
theorem getD_push {arrays : Array (List Bool)} {other : ArrayId} (cells : List Bool) :
    (arrays.push cells).getD other [] =
      if other = arrays.size then cells else arrays.getD other [] := by
  simp only [Array.getD_eq_getD_getElem?, Array.getElem?_push]
  by_cases h : other = arrays.size
  · rw [if_pos h, if_pos h]
    rfl
  · rw [if_neg h, if_neg h]

end Memory

/-! ## Tables -/

namespace Registry

variable {index : UInt32} {array : ArrayId} {rows : List (UInt32 × ArrayId)}

/-- The rows of a table behind entering one at an index that has none. -/
theorem mem_insertRow (h : ∀ row ∈ rows, row.1 ≠ index) (row : UInt32 × ArrayId) :
    row ∈ insertRow index array rows ↔ row = (index, array) ∨ row ∈ rows := by
  induction rows with
  | nil => simp [insertRow]
  | cons first rows ih =>
    obtain ⟨i, a⟩ := first
    simp only [List.mem_cons, forall_eq_or_imp] at h
    simp only [insertRow]
    by_cases hlt : index < i
    · rw [if_pos hlt]
      simp only [List.mem_cons]
    · rw [if_neg hlt, if_neg (Ne.symm h.1)]
      simp only [List.mem_cons, ih h.2]
      constructor
      · rintro (hrow | hrow | hrow)
        · exact .inr (.inl hrow)
        · exact .inl hrow
        · exact .inr (.inr hrow)
      · rintro (hrow | hrow | hrow)
        · exact .inr (.inl hrow)
        · exact .inl hrow
        · exact .inr (.inr hrow)

/-- Entering a row adds no other row. -/
theorem eq_or_mem_of_mem_insertRow {row : UInt32 × ArrayId} (h : row ∈ insertRow index array rows) :
    row = (index, array) ∨ row ∈ rows := by
  induction rows with
  | nil => exact .inl (List.mem_singleton.1 h)
  | cons first rows ih =>
    obtain ⟨i, a⟩ := first
    simp only [insertRow] at h
    by_cases hlt : index < i
    · rw [if_pos hlt] at h
      exact List.mem_cons.1 h
    · by_cases hsame : index = i
      · rw [if_neg hlt, if_pos hsame] at h
        exact (List.mem_cons.1 h).imp_right (List.mem_cons_of_mem _)
      · rw [if_neg hlt, if_neg hsame] at h
        rcases List.mem_cons.1 h with rfl | h
        · exact .inr List.mem_cons_self
        · exact (ih h).imp_right (List.mem_cons_of_mem _)

/-- **The table stays in order.** -/
theorem pairwise_insertRow (h : rows.Pairwise fun a b => a.1 < b.1) :
    (insertRow index array rows).Pairwise fun a b => a.1 < b.1 := by
  induction rows with
  | nil => exact List.pairwise_singleton _ _
  | cons first rows ih =>
    obtain ⟨i, a⟩ := first
    have hrest := List.pairwise_cons.1 h
    simp only [insertRow]
    by_cases hlt : index < i
    · rw [if_pos hlt]
      refine List.pairwise_cons.2 ⟨fun row hrow => ?_, h⟩
      rcases List.mem_cons.1 hrow with rfl | hrow
      · exact hlt
      · exact UInt32.lt_trans hlt (hrest.1 row hrow)
    · by_cases hsame : index = i
      · subst hsame
        rw [if_neg hlt, if_pos rfl]
        exact List.pairwise_cons.2 hrest
      · rw [if_neg hlt, if_neg hsame]
        refine List.pairwise_cons.2 ⟨fun row hrow => ?_, ih hrest.2⟩
        rcases eq_or_mem_of_mem_insertRow hrow with rfl | hrow
        · exact UInt32.lt_of_le_of_ne (UInt32.not_lt.1 hlt) (Ne.symm hsame)
        · exact hrest.1 row hrow

/-- The row found at an index behind entering one. -/
theorem find?_insertRow (key : UInt32) :
    Assoc.find? key (insertRow index array rows) =
      if key = index then some array else Assoc.find? key rows := by
  induction rows with
  | nil => simp [insertRow, Assoc.find?, eq_comm]
  | cons first rows ih =>
    obtain ⟨i, a⟩ := first
    simp only [insertRow]
    by_cases hlt : index < i
    · rw [if_pos hlt]
      simp [Assoc.find?, eq_comm]
    · rw [if_neg hlt]
      by_cases hsame : index = i
      · subst hsame
        by_cases hkey : key = index
        · simp [Assoc.find?, hkey]
        · simp [Assoc.find?, hkey, Ne.symm hkey]
      · rw [if_neg hsame]
        by_cases hkey : key = i
        · subst hkey
          simp [Assoc.find?, Ne.symm hsame]
        · simp [Assoc.find?, ih, Ne.symm hkey]

/-- In a table in order every row is the one that is found at its index. -/
theorem find?_eq_some_iff (h : rows.Pairwise fun a b => a.1 < b.1) {key : UInt32} :
    Assoc.find? key rows = some array ↔ (key, array) ∈ rows := by
  induction rows with
  | nil => simp [Assoc.find?]
  | cons first rows ih =>
    obtain ⟨i, a⟩ := first
    obtain ⟨hfirst, hrest⟩ := List.pairwise_cons.1 h
    rw [List.mem_cons, Assoc.find?]
    by_cases hkey : i = key
    · subst hkey
      rw [if_pos rfl]
      constructor
      · rintro ⟨rfl⟩
        exact .inl rfl
      · rintro (hsame | hmem)
        · cases hsame
          rfl
        · exact absurd (hfirst _ hmem) (UInt32.lt_irrefl _)
    · rw [if_neg hkey, ih hrest]
      refine ⟨.inr, ?_⟩
      rintro (hsame | hmem)
      · cases hsame
        exact absurd rfl hkey
      · exact hmem

end Registry

/-! ## Declarations -/

/-- The state of slots and store while nothing but declarations has happened: the tokens have slots
of their own, no slot is filled, and the registry has observed no module. -/
structure SlotTable.Declared (limit : Nat) (tokens : List MethodToken) (slots : SlotTable)
    (memory : Memory) : Prop where
  slot : ∀ token ∈ tokens, ∃ slot, slots.get? token = some slot
  slot_lt : ∀ token slot, slots.get? token = some slot → slot < memory.slots.size
  apart : ∀ {token token' slot}, slots.get? token = some slot → slots.get? token' = some slot →
    token = token'
  empty : ∀ slot, memory.slotArray? slot = none
  unused : memory.registry = { limit := limit }

/-- Where one key gets a value that no key had, keys with one value are still one key. -/
theorem eq_of_update {κ α : Type} [DecidableEq κ] {get get' : κ → Option α} {key : κ} {value : α}
    {allowed : κ → Prop}
    (hget : ∀ other, get' other = if other = key then some value else get other)
    (hnew : ∀ other, allowed other → get other ≠ some value)
    (hapart : ∀ a b v, allowed a → allowed b → get a = some v → get b = some v → a = b)
    {a b : κ} {v : α} (ha : allowed a) (hb : allowed b) (hav : get' a = some v)
    (hbv : get' b = some v) : a = b := by
  rw [hget] at hav hbv
  by_cases hak : a = key <;> by_cases hbk : b = key
  · exact hak.trans hbk.symm
  · rw [if_pos hak] at hav
    rw [if_neg hbk, ← hav] at hbv
    exact absurd hbv (hnew b hb)
  · rw [if_pos hbk] at hbv
    rw [if_neg hak, ← hbv] at hav
    exact absurd hav (hnew a ha)
  · rw [if_neg hak] at hav
    rw [if_neg hbk] at hbv
    exact hapart a b v ha hb hav hbv

/-- Keys that have slots of their own in a store. -/
structure Slotted {ι : Type} (get : ι → Option SlotId) (memory : Memory) : Prop where
  lt_size : ∀ i slot, get i = some slot → slot < memory.slots.size
  apart : ∀ {i i' slot}, get i = some slot → get i' = some slot → i = i'

/-- One more slot, for a key that may have had another one. -/
theorem Slotted.push {ι : Type} [DecidableEq ι] {get get' : ι → Option SlotId} {memory : Memory}
    (h : Slotted get memory) {key : ι}
    (hget : ∀ i, get' i = if i = key then some memory.slots.size else get i) :
    Slotted get' { memory with slots := memory.slots.push none } := by
  refine ⟨fun i slot hi => ?_, fun {i i' slot} hi hi' => ?_⟩
  · show slot < (memory.slots.push none).size
    rw [Array.size_push]
    rw [hget] at hi
    by_cases hkey : i = key
    · rw [if_pos hkey] at hi
      cases hi
      exact Nat.lt_succ_self _
    · rw [if_neg hkey] at hi
      exact Nat.lt_succ_of_lt (h.lt_size i slot hi)
  · -- The new slot is none of those that the keys had.
    have hnew (i : ι) (_ : True) : get i ≠ some memory.slots.size :=
      fun hi => Nat.lt_irrefl _ (h.lt_size i _ hi)
    exact eq_of_update hget hnew (fun _ _ _ _ _ => h.apart) trivial trivial hi hi'

namespace SlotTable

variable {limit : Nat} {tokens : List MethodToken} {slots : SlotTable} {memory : Memory}

theorem declare_of_get?_eq_none {token : MethodToken} (h : slots.get? token = none) :
    slots.declare memory token =
      (memory.slots.size, slots.set token memory.slots.size,
        { memory with slots := memory.slots.push none }) := by
  rw [declare, h]
  rfl

/-- A declaration gives one token its slot. -/
theorem declare_get? (slots : SlotTable) (memory : Memory) (token other : MethodToken) :
    (slots.declare memory token).2.1.get? other =
      if other = token then some (slots.declare memory token).1 else slots.get? other := by
  cases hslot : slots.get? token with
  | some slot =>
    rw [declare, hslot]
    by_cases hsame : other = token
    · rw [if_pos hsame, hsame]
      exact hslot
    · rw [if_neg hsame]
  | none =>
    rw [declare_of_get?_eq_none hslot]
    exact slots.get?_set token other _

/-- One more slot is empty, and shows in no other one. -/
theorem slotArray?_push (memory : Memory) (slot : SlotId) :
    ({ memory with slots := memory.slots.push none } : Memory).slotArray? slot =
      memory.slotArray? slot := by
  show (memory.slots.push none).getD slot none = memory.slots.getD slot none
  simp only [Array.getD_eq_getD_getElem?, Array.getElem?_push]
  by_cases hlast : slot = memory.slots.size
  · rw [if_pos hlast, hlast, Array.getElem?_eq_none (Nat.le_refl _)]
    rfl
  · rw [if_neg hlast]

/-- A declaration makes slots and nothing else. -/
theorem declare_keeps (slots : SlotTable) (memory : Memory) (token : MethodToken) :
    (slots.declare memory token).2.2.arrays = memory.arrays ∧
      (slots.declare memory token).2.2.registry = memory.registry ∧
      ∀ slot, (slots.declare memory token).2.2.slotArray? slot = memory.slotArray? slot := by
  cases hslot : slots.get? token with
  | some slot =>
    rw [declare, hslot]
    exact ⟨rfl, rfl, fun _ => rfl⟩
  | none =>
    rw [declare_of_get?_eq_none hslot]
    exact ⟨rfl, rfl, slotArray?_push memory⟩

theorem slotted_declare (h : Slotted slots.get? memory) (token : MethodToken) :
    Slotted (slots.declare memory token).2.1.get? (slots.declare memory token).2.2 := by
  cases hslot : slots.get? token with
  | some slot =>
    rw [declare, hslot]
    exact h
  | none =>
    rw [declare_of_get?_eq_none hslot]
    exact h.push fun other => slots.get?_set token other memory.slots.size

/-- **One more token gets a slot of its own.** -/
theorem Declared.declare (h : Declared limit tokens slots memory) (token : MethodToken) :
    Declared limit (token :: tokens) (slots.declare memory token).2.1
      (slots.declare memory token).2.2 := by
  have hslotted : Slotted slots.get? memory := ⟨h.slot_lt, h.apart⟩
  have hnext := slotted_declare hslotted token
  obtain ⟨-, hregistry, hempty⟩ := declare_keeps slots memory token
  refine ⟨?_, hnext.lt_size, hnext.apart, fun slot => (hempty slot).trans (h.empty slot),
    hregistry.trans h.unused⟩
  intro other hother
  rw [declare_get?]
  by_cases hsame : other = token
  · exact ⟨_, if_pos hsame⟩
  · rw [if_neg hsame]
    exact h.slot other ((List.mem_cons.1 hother).resolve_left hsame)

end SlotTable

/-! ## Flushes -/

namespace Memory

/-- Draining the rows of a table changes the cells of the arrays in it, and nothing else. -/
theorem drainRows_keeps (m : Memory) (rows : List (UInt32 × ArrayId)) :
    (m.drainRows rows).2.slots = m.slots ∧ (m.drainRows rows).2.registry = m.registry ∧
      (m.drainRows rows).2.arrays.size = m.arrays.size := by
  induction rows generalizing m with
  | nil => exact ⟨rfl, rfl, rfl⟩
  | cons row rows ih =>
    obtain ⟨hslots, hregistry, hsize⟩ := ih (m.drain row.2).2
    exact ⟨hslots, hregistry, hsize.trans (Array.size_modify ..)⟩

/-- Draining changes no array's length. -/
theorem length_cells_drainRows (m : Memory) (rows : List (UInt32 × ArrayId)) (array : ArrayId) :
    ((m.drainRows rows).2.cells array).length = (m.cells array).length := by
  induction rows generalizing m with
  | nil => rfl
  | cons row rows ih =>
    refine (ih (m.drain row.2).2).trans ?_
    rw [cells_drain]
    by_cases hsame : array = row.2
    · rw [if_pos hsame, hsame, List.length_replicate]
    · rw [if_neg hsame]

/-- **Draining the rows of a table reports and clears each array**, if none comes twice. -/
theorem drainRows_eq {rows : List (UInt32 × ArrayId)} (h : (rows.map Prod.snd).Nodup)
    (m : Memory) :
    (m.drainRows rows).1 = rows.map (fun row => ⟨row.1, m.cells row.2⟩) ∧
      ∀ array, (m.drainRows rows).2.cells array =
        if array ∈ rows.map Prod.snd then List.replicate (m.cells array).length false
        else m.cells array := by
  induction rows generalizing m with
  | nil => exact ⟨rfl, fun array => (if_neg (by simp)).symm⟩
  | cons row rows ih =>
    obtain ⟨index, first⟩ := row
    rw [List.map_cons, List.nodup_cons] at h
    obtain ⟨hrows, hcells⟩ := ih h.2 (m.drain first).2
    constructor
    · show ⟨index, m.cells first⟩ :: ((m.drain first).2.drainRows rows).1 = _
      rw [hrows, List.map_cons]
      refine congrArg _ (List.map_congr_left fun row hrow => ?_)
      have hne : row.2 ≠ first := by
        rintro rfl
        exact h.1 (List.mem_map.2 ⟨row, hrow, rfl⟩)
      rw [cells_drain, if_neg hne]
    · intro array
      show ((m.drain first).2.drainRows rows).2.cells array = _
      rw [hcells, cells_drain]
      simp only [List.map_cons, List.mem_cons]
      by_cases hfirst : array = first
      · subst hfirst
        rw [if_neg h.1, if_pos rfl, if_pos (.inl rfl)]
      · simp only [hfirst, if_false, false_or]

end Memory

end SpanCoverage
