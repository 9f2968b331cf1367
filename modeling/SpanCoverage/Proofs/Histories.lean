import SpanCoverage.Payload.History
import SpanCoverage.Proofs.Store

/-!
# What a history of payload memory keeps

Each call on payload memory is described by what it does to the registry, to the slots and to the
cells of each array.  A call changes the registry only if it is a request, never empties a slot, and
changes no array's length.  From this follows what holds behind every history.

The main results are:

* `Memory.acquire_refused`, `Memory.acquire_granted` — a request that is refused has the registry
  observe a module and no more; any other one fills its slot.
* `Memory.touches` — what a call does to the cells of one array.
* `Memory.Tidy.step`, `Memory.Keeps.step` — what a call preserves.
* `Memory.History.tidy`, `Memory.History.keeps` — what holds behind every history.
-/

namespace SpanCoverage

/-- Entering an array that stands in no row leaves each array in one row. -/
theorem Registry.nodup_insertRow {index : UInt32} {array : ArrayId}
    {rows : List (UInt32 × ArrayId)} (h : (rows.map Prod.snd).Nodup)
    (hnew : array ∉ rows.map Prod.snd) : ((insertRow index array rows).map Prod.snd).Nodup := by
  induction rows with
  | nil => exact List.pairwise_singleton _ _
  | cons first rows ih =>
    obtain ⟨i, a⟩ := first
    rw [List.map_cons, List.nodup_cons] at h
    obtain ⟨hfirst, hrows⟩ := h
    rw [List.map_cons, List.mem_cons, not_or] at hnew
    obtain ⟨hne, hnew⟩ := hnew
    simp only [insertRow]
    by_cases hlt : index < i
    · rw [if_pos hlt, List.map_cons, List.nodup_cons, List.map_cons, List.mem_cons, List.nodup_cons]
      exact ⟨not_or.2 ⟨hne, hnew⟩, hfirst, hrows⟩
    · by_cases hsame : index = i
      · rw [if_neg hlt, if_pos hsame, List.map_cons, List.nodup_cons]
        exact ⟨hnew, hrows⟩
      · rw [if_neg hlt, if_neg hsame, List.map_cons, List.nodup_cons]
        refine ⟨fun hmem => ?_, ih hrows hnew⟩
        obtain ⟨row, hrow, hrowa⟩ := List.mem_map.1 hmem
        rcases eq_or_mem_of_mem_insertRow hrow with rfl | hrow
        · exact hne hrowa
        · exact hfirst (List.mem_map.2 ⟨row, hrow, hrowa⟩)

namespace Memory

variable {m : Memory} {op : MemoryOp} {r : Request} {slot : SlotId} {array : ArrayId}

/-! ## Requests -/

/-- The slot of a request is filled, or the array asked for does not fit. -/
def Refuses (m : Memory) (r : Request) : Prop :=
  (∃ array, m.slotArray? r.slot = some array) ∨ m.registry.limit < r.length ∨
    allocationBound ≤ r.length

/-- **A request that is refused changes nothing**, but the registry observes its module. -/
theorem acquire_refused (h : m.Refuses r) : m.step (.acquire r) = m.observed r.module := by
  cases hslot : m.slotArray? r.slot with
  | none =>
    refine m.acquire_unfit hslot (h.resolve_left ?_)
    rintro ⟨array, hfilled⟩
    cases hslot.symm.trans hfilled
  | some array =>
    have hfilled : m.slots.getD r.slot none = some array := hslot
    simp only [step, acquire, slotArray?, hfilled, observed]

/-- **A request that is not refused fills its slot** with a new array, which is registered. -/
theorem acquire_granted (h : ¬ m.Refuses r) : m.slotArray? r.slot = none ∧
    m.step (.acquire r) = (m.observed r.module).filled r.module r.token r.slot r.length := by
  obtain ⟨hempty, hunfit⟩ := not_or.1 h
  have hslot : m.slotArray? r.slot = none :=
    Option.eq_none_iff_forall_ne_some.2 fun array hfilled => hempty ⟨array, hfilled⟩
  exact ⟨hslot, m.acquire_fitting hslot (by omega) (by omega)⟩

theorem cells_filled (m : Memory) (module : ModuleId) (token : MethodToken) (slot : SlotId)
    (length : Nat) (other : ArrayId) :
    (m.filled module token slot length).cells other =
      if other = m.arrays.size then List.replicate length false else m.cells other :=
  getD_push _

theorem slotArray?_filled (hslot : slot < m.slots.size) (module : ModuleId) (token : MethodToken)
    (length : Nat) (other : SlotId) :
    (m.filled module token slot length).slotArray? other =
      if other = slot then some m.arrays.size else m.slotArray? other :=
  getD_setIfInBounds hslot _

/-! ## Slots and registry behind a call -/

theorem eq_replicate_of_freshCells {length limit : Nat} {cells : List Bool}
    (h : freshCells length limit = .ok cells) : cells = List.replicate length false := by
  unfold freshCells at h
  by_cases hlimit : limit < length
  · rw [if_pos hlimit] at h
    cases h
  · by_cases hbound : allocationBound ≤ length
    · rw [if_neg hlimit, if_pos hbound] at h
      cases h
    · rw [if_neg hlimit, if_neg hbound] at h
      cases h
      rfl

theorem install_of_filled {other : ArrayId} (h : m.slotArray? slot = some other) :
    m.install slot array = m := by
  rw [install, h]

theorem install_of_empty (h : m.slotArray? slot = none) :
    m.install slot array = { m with slots := m.slots.setIfInBounds slot (some array) } := by
  rw [install, h]

/-- Filling a slot by hand changes neither arrays nor registry. -/
theorem install_keeps : (m.install slot array).arrays = m.arrays ∧
    (m.install slot array).registry = m.registry := by
  cases hslot : m.slotArray? slot with
  | some other =>
    rw [install_of_filled hslot]
    exact ⟨rfl, rfl⟩
  | none =>
    rw [install_of_empty hslot]
    exact ⟨rfl, rfl⟩

/-- A call that is no request leaves the registry as it is. -/
theorem registry_step (h : op.module? = none) : (m.step op).registry = m.registry := by
  cases op with
  | acquire r => cases h
  | newSlot | mark | drain => rfl
  | newArray length limit =>
    rw [step]
    cases freshCells length limit <;> rfl
  | install slot array => exact install_keeps.2
  | flush => exact (m.drainRows_keeps m.registry.table).2.1

theorem limit_step : (m.step op).registry.limit = m.registry.limit := by
  cases op with
  | acquire r =>
    by_cases hrefuses : m.Refuses r
    · rw [acquire_refused hrefuses]
      exact limit_observe _ _
    · rw [(acquire_granted hrefuses).2]
      exact limit_observe _ _
  | newSlot | newArray | install | mark | drain | flush => rw [registry_step rfl]

/-- The registry observes the module that a call is for. -/
theorem module?_step :
    (m.step op).registry.module? = op.module?.or m.registry.module? := by
  cases op with
  | acquire r =>
    by_cases hrefuses : m.Refuses r
    · rw [acquire_refused hrefuses]
      exact module?_observe _ _
    · rw [(acquire_granted hrefuses).2]
      rfl
  | newSlot | newArray | install | mark | drain | flush =>
    rw [registry_step rfl]
    rfl

/-- No call takes an array away. -/
theorem size_step : m.arrays.size ≤ (m.step op).arrays.size := by
  cases op with
  | newSlot => exact Nat.le_refl _
  | newArray length limit =>
    rw [step]
    cases freshCells length limit with
    | error => exact Nat.le_refl _
    | ok cells =>
      show m.arrays.size ≤ (m.arrays.push cells).size
      rw [Array.size_push]
      exact Nat.le_succ _
  | acquire r =>
    by_cases hrefuses : m.Refuses r
    · rw [acquire_refused hrefuses]
      exact Nat.le_refl _
    · rw [(acquire_granted hrefuses).2]
      show m.arrays.size ≤ (m.arrays.push _).size
      rw [Array.size_push]
      exact Nat.le_succ _
  | install slot array => exact Nat.le_of_eq (congrArg Array.size install_keeps.1.symm)
  | mark array index => exact Nat.le_of_eq (m.size_mark array index).symm
  | drain array => exact Nat.le_of_eq Array.size_modify.symm
  | flush => exact Nat.le_of_eq (m.drainRows_keeps m.registry.table).2.2.symm

/-- **A filled slot keeps its array.** -/
theorem slotArray?_step (offered : m.Offers op) (h : m.slotArray? slot = some array) :
    (m.step op).slotArray? slot = some array := by
  cases op with
  | newSlot => exact (SlotTable.slotArray?_push m slot).trans h
  | newArray length limit =>
    rw [step]
    cases freshCells length limit <;> exact h
  | acquire r =>
    by_cases hrefuses : m.Refuses r
    · rw [acquire_refused hrefuses]
      exact h
    · obtain ⟨hempty, hgranted⟩ := acquire_granted hrefuses
      have hother : slot ≠ r.slot := by
        rintro rfl
        cases hempty.symm.trans h
      have hslot : r.slot < (m.observed r.module).slots.size := offered
      rw [hgranted, slotArray?_filled hslot, if_neg hother]
      exact h
  | install other new =>
    show (m.install other new).slotArray? slot = some array
    cases hother : m.slotArray? other with
    | some _ =>
      rw [install_of_filled hother]
      exact h
    | none =>
      have hne : slot ≠ other := by
        rintro rfl
        cases hother.symm.trans h
      rw [install_of_empty hother]
      exact ((getD_setIfInBounds offered.1 new).trans (if_neg hne)).trans h
  | mark | drain => exact h
  | flush =>
    have hslots : m.flush.2.slots = m.slots := (m.drainRows_keeps m.registry.table).1
    exact (congrArg (fun slots => slots.getD slot none) hslots).trans h

/-! ## Registries in order -/

/-- The table is in order, and each array in it exists and stands in one row. -/
structure Tidy (m : Memory) : Prop where
  ordered : m.registry.table.Pairwise fun a b => a.1 < b.1
  apart : (m.registry.table.map Prod.snd).Nodup
  made : ∀ array ∈ m.registry.table.map Prod.snd, array < m.arrays.size

theorem Tidy.congr {m' : Memory} (h : m.Tidy) (hregistry : m'.registry = m.registry)
    (hsize : m.arrays.size ≤ m'.arrays.size) : m'.Tidy := by
  refine ⟨?_, ?_, ?_⟩
  · rw [hregistry]
    exact h.ordered
  · rw [hregistry]
    exact h.apart
  · rw [hregistry]
    exact fun array harray => Nat.lt_of_lt_of_le (h.made array harray) hsize

theorem table_observe_of_ne {registry : Registry} {module : ModuleId}
    (h : registry.module? ≠ some module) : (registry.observe module).table = [] := by
  rw [Registry.observe, if_neg h]
  rfl

theorem Tidy.observed (h : m.Tidy) (module : ModuleId) : (m.observed module).Tidy := by
  by_cases hmodule : m.registry.module? = some module
  · exact h.congr (observe_of_module hmodule) (Nat.le_refl _)
  · have htable : (m.observed module).registry.table = [] := table_observe_of_ne hmodule
    refine ⟨?_, ?_, ?_⟩
    · rw [htable]
      exact .nil
    · rw [htable]
      exact .nil
    · rw [htable]
      exact fun _ hnone => (List.not_mem_nil hnone).elim

/-- The array that fills a slot is none of those in the table. -/
theorem Tidy.filled (h : m.Tidy) (module : ModuleId) (token : MethodToken) (slot : SlotId)
    (length : Nat) : (m.filled module token slot length).Tidy := by
  have hnew : m.arrays.size ∉ m.registry.table.map Prod.snd :=
    fun hmem => Nat.lt_irrefl _ (h.made _ hmem)
  refine ⟨Registry.pairwise_insertRow h.ordered, Registry.nodup_insertRow h.apart hnew, ?_⟩
  intro array harray
  show array < (m.arrays.push _).size
  rw [Array.size_push]
  obtain ⟨row, hrow, rfl⟩ := List.mem_map.1 harray
  rcases Registry.eq_or_mem_of_mem_insertRow hrow with rfl | hrow
  · exact Nat.lt_succ_self _
  · exact Nat.lt_succ_of_lt (h.made row.2 (List.mem_map.2 ⟨row, hrow, rfl⟩))

/-- **A call leaves the table in order.** -/
theorem Tidy.step (h : m.Tidy) (op : MemoryOp) : (m.step op).Tidy := by
  cases op with
  | acquire r =>
    by_cases hrefuses : m.Refuses r
    · rw [acquire_refused hrefuses]
      exact h.observed r.module
    · rw [(acquire_granted hrefuses).2]
      exact (h.observed r.module).filled r.module r.token r.slot r.length
  | newSlot | newArray | install | mark | drain | flush =>
    exact h.congr (registry_step rfl) size_step

/-! ## Cells behind a call -/

/-- The call clears an array: it drains this array, or it is a flush while the array stands in the
table. -/
def Event.Clears (array : ArrayId) (e : Event) : Prop :=
  match e.op with
  | .drain other => array = other
  | .flush => array ∈ e.found.registry.table.map Prod.snd
  | .newSlot | .newArray .. | .acquire _ | .install .. | .mark .. => False

/-- The call visits a cell of an array. -/
def Event.Marks (array : ArrayId) (index : Nat) (e : Event) : Prop := e.op = .mark array index

/-- What a call does to the cells of one array, case by case. -/
inductive Touches (m : Memory) (array : ArrayId) (op : MemoryOp) : List Bool → Prop
  | marked {index : Nat} (hmark : op = .mark array index) :
    Touches m array op ((m.cells array).set index true)
  | cleared (hclear : Event.Clears array ⟨m, op⟩) :
    Touches m array op (List.replicate (m.cells array).length false)
  | made {length : Nat} (hnew : m.arrays.size ≤ array) :
    Touches m array op (List.replicate length false)
  | kept (hmark : ∀ index, op ≠ .mark array index) (hclear : ¬ Event.Clears array ⟨m, op⟩) :
    Touches m array op (m.cells array)

/-- **A call visits a cell of an array, or clears it, or makes it, or leaves its cells alone.** -/
theorem touches (h : m.Tidy) (op : MemoryOp) (array : ArrayId) :
    Touches m array op ((m.step op).cells array) := by
  cases op with
  | newSlot => exact .kept nofun id
  | newArray length limit =>
    rw [step]
    cases hfresh : freshCells length limit with
    | error => exact .kept nofun id
    | ok cells =>
      have hcells : (m.newArray cells).2.cells array =
          if array = m.arrays.size then cells else m.cells array := getD_push cells
      rw [hcells, eq_replicate_of_freshCells hfresh]
      by_cases hnew : array = m.arrays.size
      · rw [if_pos hnew]
        exact .made (Nat.le_of_eq hnew.symm)
      · rw [if_neg hnew]
        exact .kept nofun id
  | acquire r =>
    by_cases hrefuses : m.Refuses r
    · rw [acquire_refused hrefuses]
      exact .kept nofun id
    · rw [(acquire_granted hrefuses).2, cells_filled]
      by_cases hnew : array = (m.observed r.module).arrays.size
      · rw [if_pos hnew]
        exact .made (Nat.le_of_eq hnew.symm)
      · rw [if_neg hnew]
        exact .kept nofun id
  | install slot other =>
    have hcells : (m.step (.install slot other)).cells array = m.cells array :=
      congrArg (fun arrays => arrays.getD array []) install_keeps.1
    rw [hcells]
    exact .kept nofun id
  | mark other index =>
    rw [step, cells_mark]
    by_cases hsame : array = other
    · subst hsame
      rw [if_pos rfl]
      exact .marked rfl
    · rw [if_neg hsame]
      refine .kept ?_ id
      rintro index' ⟨⟩
      exact hsame rfl
  | drain other =>
    rw [step, cells_drain]
    by_cases hsame : array = other
    · subst hsame
      rw [if_pos rfl]
      exact .cleared rfl
    · rw [if_neg hsame]
      exact .kept nofun hsame
  | flush =>
    have hcells : (m.step .flush).cells array =
        if array ∈ m.registry.table.map Prod.snd then List.replicate (m.cells array).length false
        else m.cells array := (drainRows_eq h.apart m).2 array
    rw [hcells]
    by_cases hmem : array ∈ m.registry.table.map Prod.snd
    · rw [if_pos hmem]
      exact .cleared hmem
    · rw [if_neg hmem]
      exact .kept nofun hmem

/-- No call changes the length of an array. -/
theorem length_cells_step (h : m.Tidy) (harray : array < m.arrays.size) :
    ((m.step op).cells array).length = (m.cells array).length := by
  have hcases := touches h op array
  generalize (m.step op).cells array = cells at hcases ⊢
  cases hcases with
  | marked => exact List.length_set
  | cleared => exact List.length_replicate
  | made hnew => exact absurd harray (Nat.not_lt.2 hnew)
  | kept => rfl

/-! ## Histories -/

/-- What a memory has of an earlier one: its arrays, with their lengths, and the content of its
slots. -/
structure Keeps (m m' : Memory) : Prop where
  size : m.arrays.size ≤ m'.arrays.size
  length : ∀ array < m.arrays.size, (m'.cells array).length = (m.cells array).length
  filled : ∀ slot array, m.slotArray? slot = some array → m'.slotArray? slot = some array

theorem Keeps.trans {m' m'' : Memory} (h : m.Keeps m') (h' : m'.Keeps m'') : m.Keeps m'' where
  size := Nat.le_trans h.size h'.size
  length array harray :=
    (h'.length array (Nat.lt_of_lt_of_le harray h.size)).trans (h.length array harray)
  filled slot array hfilled := h'.filled slot array (h.filled slot array hfilled)

/-- **A call keeps the content of slots and the lengths of arrays.** -/
theorem Keeps.step (h : m.Tidy) (offered : m.Offers op) : m.Keeps (m.step op) where
  size := size_step
  length _ harray := length_cells_step h harray
  filled _ _ hfilled := slotArray?_step offered hfilled

namespace History

variable {limit : Nat} {past : List Event}

/-- **The table is in order behind every history.** -/
theorem tidy (h : History limit past m) : m.Tidy := by
  induction h with
  | start => exact ⟨.nil, .nil, fun _ hnone => (List.not_mem_nil hnone).elim⟩
  | step before offered ih => exact ih.step _

theorem limit_eq (h : History limit past m) : m.registry.limit = limit := by
  induction h with
  | start => rfl
  | step before offered ih => exact limit_step.trans ih

/-- **What a call found is still there**: it was offered what it named, and all that is kept. -/
theorem keeps (h : History limit past m) {e : Event} (he : e ∈ past) :
    e.found.Offers e.op ∧ e.found.Keeps m := by
  induction h with
  | start => exact (List.not_mem_nil he).elim
  | step before offered ih =>
    have hstep := Keeps.step before.tidy offered
    rcases List.mem_cons.1 he with rfl | he
    · exact ⟨offered, hstep⟩
    · obtain ⟨hoffers, hkeeps⟩ := ih he
      exact ⟨hoffers, hkeeps.trans hstep⟩

end History

end Memory

end SpanCoverage
