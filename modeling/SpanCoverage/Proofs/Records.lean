import SpanCoverage.Host.Machine
import SpanCoverage.Proofs.Placement
import SpanCoverage.Proofs.Splicing
import SpanCoverage.Proofs.Store

/-!
# What payloads record

A plain run under observation leaves a log, and the same run of the instrumented units leaves
payload memory.  `Records` relates the two: a unit has an array exactly if it was entered, the array
has one cell for each span, and a cell is set exactly if the point of its span was reached since the
last flush.

The main results are:

* `Records.enter`, `Records.reach` — an entry with the creation of the payload, and a point with the
  mark of its probe, keep the relation.
* `records_tracks` — so does everything that a run does.
* `Records.exact`, `Records.flush` — a flush reports what the log says, and behind it the relation
  holds for the next window.
-/

namespace SpanCoverage.Host

/-! ## The relation -/

/-- A unit was entered at least once. -/
def Log.Entered (log : Log) (token : MethodToken) : Prop :=
  ∃ depth, .entered token depth ∈ log.events

/-- Whether the point of a span was reached since the last flush. -/
def Log.visited (log : Log) (token : MethodToken) (s : Span) : Bool :=
  decide (.reached token s.site s.kind ∈ log.window)

/-- The array in a unit's slot. -/
def arrayOf? (slots : SlotTable) (memory : Memory) (token : MethodToken) : Option ArrayId :=
  (slots.get? token).bind memory.slotArray?

/-- Valid units whose rows are all different, each with a slot of its own, and none with more spans
than any store could hold. -/
structure Layout (units : List CodeUnit) (slots : SlotTable) : Prop where
  valid : ∀ u ∈ units, u.defects = []
  small : ∀ u ∈ units, u.spanMap.spans.size < allocationBound
  distinct : (units.map fun u => u.token.methodIndex).Nodup
  slot : ∀ u ∈ units, ∃ slot, slots.get? u.token = some slot
  apart : ∀ {token token' slot}, slots.get? token = some slot → slots.get? token' = some slot →
    token = token'

theorem Layout.eq_of_index {units : List CodeUnit} {slots : SlotTable} (h : Layout units slots)
    {u v : CodeUnit} (hu : u ∈ units) (hv : v ∈ units)
    (huv : u.token.methodIndex = v.token.methodIndex) : u = v :=
  List.inj_on_of_nodup_map h.distinct hu hv huv

theorem Layout.eq_of_token {units : List CodeUnit} {slots : SlotTable} (h : Layout units slots)
    {u v : CodeUnit} (hu : u ∈ units) (hv : v ∈ units) (huv : u.token = v.token) : u = v :=
  h.eq_of_index hu hv (congrArg MethodToken.methodIndex huv)

/-- The payload memory holds what the log says of the units. -/
structure Records (units : List CodeUnit) (slots : SlotTable) (moduleId : ModuleId) (log : Log)
    (memory : Memory) : Prop where
  slot_lt : ∀ u ∈ units, ∀ slot, slots.get? u.token = some slot → slot < memory.slots.size
  fits : ∀ u ∈ units, u.spanMap.spans.size ≤ memory.registry.limit
  /-- Points are reached in units that were entered. -/
  inside : ∀ token site kind, .reached token site kind ∈ log.window → log.Entered token
  entered : ∀ u ∈ units,
    (∃ array, arrayOf? slots memory u.token = some array) ↔ log.Entered u.token
  cells : ∀ u ∈ units, ∀ array, arrayOf? slots memory u.token = some array →
    array < memory.arrays.size ∧
      memory.cells array = u.spanMap.spans.spans.map (log.visited u.token)
  own : ∀ u ∈ units, ∀ v ∈ units, ∀ array, arrayOf? slots memory u.token = some array →
    arrayOf? slots memory v.token = some array → u.token = v.token
  module : ∀ g, memory.registry.current = some g → g.module = moduleId
  ordered : memory.registry.table.Pairwise fun a b => a.1 < b.1
  rows : ∀ row, row ∈ memory.registry.table ↔
    ∃ u ∈ units, u.token.methodIndex = row.1 ∧ arrayOf? slots memory u.token = some row.2

/-! ## Events -/

theorem Log.entered_note {log : Log} {token : MethodToken} (event : Event)
    (h : log.Entered token) : (log.note event).Entered token := by
  obtain ⟨depth, hmem⟩ := h
  exact ⟨depth, List.mem_append_left _ hmem⟩

/-- Only the entry of a unit makes it entered. -/
theorem Log.entered_note_iff {log : Log} {token : MethodToken} {event : Event}
    (h : ∀ depth, event ≠ .entered token depth) :
    (log.note event).Entered token ↔ log.Entered token := by
  refine ⟨?_, entered_note event⟩
  rintro ⟨depth, hmem⟩
  rcases List.mem_append.1 hmem with hmem | hmem
  · exact ⟨depth, hmem⟩
  · exact absurd (List.mem_singleton.1 hmem).symm (h depth)

/-- What one more event does to the visits of a unit. -/
theorem Log.visited_note (log : Log) (token : MethodToken) (event : Event) (s : Span) :
    (log.note event).visited token s =
      (log.visited token s || decide (event = .reached token s.site s.kind)) := by
  simp only [visited, note, List.mem_append, List.mem_singleton, Bool.decide_or, eq_comm]

theorem Log.inside_note {log : Log} {event : Event}
    (hlog : ∀ token site kind, .reached token site kind ∈ log.window → log.Entered token)
    (hevent : ∀ token site kind, event = .reached token site kind → log.Entered token)
    (token : MethodToken) (site : Nat) (kind : SpanKind)
    (h : .reached token site kind ∈ (log.note event).window) : (log.note event).Entered token := by
  rcases List.mem_append.1 h with h | h
  · exact entered_note event (hlog token site kind h)
  · exact entered_note event (hevent token site kind (List.mem_singleton.1 h).symm)

section Records

variable {units : List CodeUnit} {slots : SlotTable} {moduleId : ModuleId} {log log' : Log}
  {memory memory' : Memory}

/-- A step that enters no unit: it leaves slots and registry as they are, and changes the cells as
the visits change. -/
theorem Records.step (h : Records units slots moduleId log memory)
    (hslots : memory'.slots = memory.slots) (hregistry : memory'.registry = memory.registry)
    (hsize : memory'.arrays.size = memory.arrays.size)
    (hentered : ∀ token, log'.Entered token ↔ log.Entered token)
    (hinside : ∀ token site kind, .reached token site kind ∈ log'.window → log'.Entered token)
    (hcells : ∀ u ∈ units, ∀ array, arrayOf? slots memory u.token = some array →
      memory'.cells array = u.spanMap.spans.spans.map (log'.visited u.token)) :
    Records units slots moduleId log' memory' := by
  have harray : arrayOf? slots memory' = arrayOf? slots memory := by
    have hslot : memory'.slotArray? = memory.slotArray? := by
      funext slot
      simp only [Memory.slotArray?, hslots]
    funext token
    rw [arrayOf?, arrayOf?, hslot]
  refine ⟨?_, ?_, hinside, ?_, ?_, ?_, ?_, ?_, ?_⟩
  · rw [hslots]
    exact h.slot_lt
  · rw [hregistry]
    exact h.fits
  · intro u hu
    rw [harray, hentered]
    exact h.entered u hu
  · intro u hu array hmem
    rw [harray] at hmem
    rw [hsize]
    exact ⟨(h.cells u hu array hmem).1, hcells u hu array hmem⟩
  · rw [harray]
    exact h.own
  · rw [hregistry]
    exact h.module
  · rw [hregistry]
    exact h.ordered
  · rw [hregistry, harray]
    exact h.rows

/-- Events that are neither an entry nor a point change nothing. -/
theorem Records.note (h : Records units slots moduleId log memory) {event : Event}
    (hentry : ∀ token depth, event ≠ .entered token depth)
    (hpoint : ∀ token site kind, event ≠ .reached token site kind) :
    Records units slots moduleId (log.note event) memory := by
  refine h.step rfl rfl rfl (fun token => Log.entered_note_iff (hentry token)) ?_ ?_
  · exact Log.inside_note h.inside fun token site kind he => absurd he (hpoint token site kind)
  · intro u hu array harray
    rw [(h.cells u hu array harray).2]
    refine List.map_congr_left fun s _ => ?_
    rw [Log.visited_note, decide_eq_false (hpoint _ _ _), Bool.or_false]

/-! ## Points -/

/-- The placement of the probes of a token's unit, if one of the units has the token. -/
def placeOf (units : List CodeUnit) (token : MethodToken) : Placement :=
  match units.find? (·.token == token) with
  | some u => u.spanMap.spans.placement
  | none => .none

theorem placeOf_eq (hl : Layout units slots) {u : CodeUnit} (hu : u ∈ units) :
    placeOf units u.token = u.spanMap.spans.placement := by
  have hfound : units.find? (·.token == u.token) = some u := by
    cases hfind : units.find? (·.token == u.token) with
    | none => exact absurd (List.find?_eq_none.1 hfind u hu) (by simp)
    | some v =>
      have hv : v.token = u.token := by simpa using List.find?_some hfind
      rw [hl.eq_of_token (List.mem_of_find?_eq_some hfind) hu hv]
  rw [placeOf, hfound]

/-- What reaching a point does to the visits of a unit: they change at the point's span only. -/
theorem Log.visited_reached (log : Log) (token other : MethodToken) (site : Nat) (kind : SpanKind)
    (s : Span) :
    (log.note (.reached token site kind)).visited other s =
      (log.visited other s || decide (token = other ∧ s.key = (site, kind))) := by
  rw [visited_note]
  refine congrArg _ (decide_eq_decide.2 ⟨?_, ?_⟩)
  · intro he
    cases he
    exact ⟨rfl, rfl⟩
  · rintro ⟨rfl, hkey⟩
    cases hkey
    rfl

/-- A point is reached, and the cells change as the visits change. -/
theorem Records.reached (h : Records units slots moduleId log memory) {token : MethodToken}
    {site : Nat} {kind : SpanKind} (hentered : log.Entered token)
    (hslots : memory'.slots = memory.slots) (hregistry : memory'.registry = memory.registry)
    (hsize : memory'.arrays.size = memory.arrays.size)
    (hcells : ∀ u ∈ units, ∀ array, arrayOf? slots memory u.token = some array →
      memory'.cells array = u.spanMap.spans.spans.map fun s =>
        log.visited u.token s || decide (token = u.token ∧ s.key = (site, kind))) :
    Records units slots moduleId (log.note (.reached token site kind)) memory' := by
  refine h.step hslots hregistry hsize (fun _ => Log.entered_note_iff (by simp)) ?_ ?_
  · exact Log.inside_note h.inside fun _ _ _ he => by cases he; exact hentered
  · intro u hu array harray
    rw [hcells u hu array harray]
    exact List.map_congr_left fun s _ => (log.visited_reached token u.token site kind s).symm

/-- A point without a span is reached, and nothing is marked. -/
theorem Records.reach_unplaced (h : Records units slots moduleId log memory) {token : MethodToken}
    {site : Nat} {kind : SpanKind} (hentered : log.Entered token)
    (hnone : ∀ u ∈ units, token = u.token → ∀ s ∈ u.spanMap.spans.spans, s.key ≠ (site, kind)) :
    Records units slots moduleId (log.note (.reached token site kind)) memory := by
  refine h.reached hentered rfl rfl rfl fun u hu array harray => ?_
  rw [(h.cells u hu array harray).2]
  refine List.map_congr_left fun s hs => ?_
  rw [decide_eq_false fun he => hnone u hu he.1 s hs he.2, Bool.or_false]

/-- The point of a span is reached, and the span's cell is marked. -/
theorem Records.reach_placed (hl : Layout units slots)
    (h : Records units slots moduleId log memory) {u : CodeUnit} (hu : u ∈ units) {s₀ : Span}
    (hs₀ : s₀ ∈ u.spanMap.spans.spans) {array : ArrayId}
    (harray : arrayOf? slots memory u.token = some array) {site : Nat} {kind : SpanKind}
    (hkey : s₀.key = (site, kind)) :
    Records units slots moduleId (log.note (.reached u.token site kind))
      (memory.mark array s₀.index) := by
  have hentered := (h.entered u hu).1 ⟨array, harray⟩
  refine h.reached hentered rfl rfl (Memory.size_mark ..) fun v hv other hother => ?_
  rw [Memory.cells_mark]
  by_cases hsame : other = array
  · subst hsame
    have huv := hl.eq_of_token hu hv (h.own u hu v hv _ harray hother)
    subst huv
    rw [if_pos rfl, (h.cells u hu _ harray).2,
      SpanTable.set_map (CodeUnit.distinct_spans (hl.valid u hu)) hs₀, hkey]
    simp only [true_and]
  · have hne : u.token ≠ v.token := by
      intro huv
      rw [← huv, harray] at hother
      exact hsame (Option.some.inj hother).symm
    rw [if_neg hsame, (h.cells v hv other hother).2]
    refine List.map_congr_left fun s _ => ?_
    rw [decide_eq_false fun he => hne he.1, Bool.or_false]

/-- A mark goes to the array of its unit. -/
theorem mark_of_array {m : Machine} {token : MethodToken} {array : ArrayId}
    (h : arrayOf? m.slots memory token = some array) (span : Nat) :
    m.recorder.mark token span memory = memory.mark array span := by
  unfold arrayOf? at h
  simp only [Machine.recorder, h]

/-- A unit without an array records no mark. -/
theorem mark_of_none {m : Machine} {token : MethodToken}
    (h : arrayOf? m.slots memory token = none) (span : Nat) :
    m.recorder.mark token span memory = memory := by
  unfold arrayOf? at h
  simp only [Machine.recorder, h]

/-- **A point and the mark of its probe keep the relation**, in a unit that was entered. -/
theorem Records.reach {m : Machine} (hl : Layout units m.slots)
    (h : Records units m.slots m.moduleId log memory) {token : MethodToken}
    (hentered : log.Entered token) (site : Nat) (kind : SpanKind) :
    Records units m.slots m.moduleId (log.note (.reached token site kind))
      (m.recorder.markAt token (placeOf units token site kind) memory) := by
  by_cases hunit : ∃ u ∈ units, u.token = token
  · obtain ⟨u, hu, rfl⟩ := hunit
    rw [placeOf_eq hl hu]
    have hplaced := @SpanTable.placement_eq_some_iff _
      (CodeUnit.distinct_spans (hl.valid u hu)) site kind
    cases hspan : u.spanMap.spans.placement site kind with
    | none =>
      refine h.reach_unplaced hentered fun v hv huv s hs hkey => ?_
      rw [← hl.eq_of_token hu hv huv] at hs
      rw [hplaced.2 ⟨s, hs, hkey, rfl⟩] at hspan
      cases hspan
    | some index =>
      obtain ⟨s₀, hs₀, hkey, rfl⟩ := hplaced.1 hspan
      obtain ⟨array, harray⟩ := (h.entered u hu).2 hentered
      have hmark : m.recorder.markAt u.token (some s₀.index) memory =
          memory.mark array s₀.index := mark_of_array harray s₀.index
      rw [hmark]
      exact h.reach_placed hl hu hs₀ harray hkey
  · have hnone : placeOf units token = .none := by
      rw [placeOf, List.find?_eq_none.2]
      intro u hu hsame
      exact hunit ⟨u, hu, by simpa using hsame⟩
    rw [hnone]
    exact h.reach_unplaced hentered fun u hu hsame => absurd ⟨u, hu, hsame.symm⟩ hunit

/-! ## Entries -/

/-- A unit with an array creates no other one. -/
theorem acquire_of_array {m : Machine} {token : MethodToken} {array : ArrayId}
    (h : arrayOf? m.slots memory token = some array) (length : Nat) :
    m.recorder.acquire token length memory = memory := by
  obtain ⟨slot, hslot, hfilled⟩ := Option.bind_eq_some_iff.1 h
  simp only [Machine.recorder, hslot, hfilled]

/-- A unit whose slot is empty asks for an array. -/
theorem acquire_of_slot {m : Machine} {token : MethodToken} {slot : SlotId}
    (hslot : m.slots.get? token = some slot) (h : arrayOf? m.slots memory token = none)
    (length : Nat) :
    memory.slotArray? slot = none ∧
      m.recorder.acquire token length memory = memory.acquire m.moduleId token slot length := by
  have hempty : memory.slotArray? slot = none := by
    rw [arrayOf?, hslot] at h
    exact h
  exact ⟨hempty, by simp only [Machine.recorder, hslot, hempty]⟩

/-- The arrays of a table's units behind filling a slot, which need not be one of the table's. -/
theorem arrayOf?_fill {slot : SlotId} {array : ArrayId} (hlt : slot < memory.slots.size)
    (hmemory : memory'.slots = memory.slots.setIfInBounds slot (some array)) (slots : SlotTable)
    (other : MethodToken) :
    arrayOf? slots memory' other =
      if slots.get? other = some slot then some array else arrayOf? slots memory other := by
  unfold arrayOf?
  cases hother : slots.get? other with
  | none => exact (if_neg nofun).symm
  | some slot' =>
    show memory'.slots.getD slot' none =
      if some slot' = some slot then some array else memory.slots.getD slot' none
    rw [hmemory, Memory.getD_setIfInBounds hlt]
    simp only [Option.some.injEq]

/-- A declaration makes no array and hides none. -/
theorem arrayOf?_declare (slots : SlotTable) (memory : Memory) (token other : MethodToken) :
    arrayOf? (slots.declare memory token).2.1 (slots.declare memory token).2.2 other =
      arrayOf? slots memory other := by
  cases hslot : slots.get? token with
  | some slot =>
    rw [SlotTable.declare, hslot]
  | none =>
    have hpush : ({ memory with slots := memory.slots.push none } : Memory).slotArray? =
        memory.slotArray? := funext (SlotTable.slotArray?_push memory)
    rw [SlotTable.declare_of_get?_eq_none hslot, arrayOf?, arrayOf?, hpush, Assoc.get?_set]
    by_cases hsame : other = token
    · rw [if_pos hsame, hsame, hslot]
      show memory.slots.getD memory.slots.size none = none
      rw [Array.getD_eq_getD_getElem?, Array.getElem?_eq_none (Nat.le_refl _)]
      rfl
    · rw [if_neg hsame]

/-- The arrays of all units behind filling the slot of one. -/
theorem arrayOf?_set (hl : Layout units slots) {token : MethodToken} {slot : SlotId}
    (hslot : slots.get? token = some slot) (hlt : slot < memory.slots.size)
    (hmemory : memory'.slots = memory.slots.setIfInBounds slot (some memory.arrays.size))
    (other : MethodToken) :
    arrayOf? slots memory' other =
      if other = token then some memory.arrays.size else arrayOf? slots memory other := by
  have hsame : slots.get? other = some slot ↔ other = token := by
    constructor
    · exact fun hother => hl.apart hother hslot
    · rintro rfl
      exact hslot
  simp only [arrayOf?_fill hlt hmemory, hsame]

/-- A unit without an array was not entered, so no point of it was reached. -/
theorem Records.map_visited_eq_replicate (h : Records units slots moduleId log memory)
    {u : CodeUnit} (hu : u ∈ units) (hnone : arrayOf? slots memory u.token = none) :
    u.spanMap.spans.spans.map (log.visited u.token) =
      List.replicate u.spanMap.spans.size false := by
  refine List.eq_replicate_iff.2 ⟨List.length_map .., fun b hb => ?_⟩
  obtain ⟨s, -, rfl⟩ := List.mem_map.1 hb
  refine decide_eq_false fun hreached => ?_
  obtain ⟨array, harray⟩ := (h.entered u hu).2 (h.inside _ _ _ hreached)
  rw [hnone] at harray
  cases harray

/-- A unit without an array has no row. -/
theorem Records.index_ne (hl : Layout units slots) (h : Records units slots moduleId log memory)
    {u : CodeUnit} (hu : u ∈ units) (hnone : arrayOf? slots memory u.token = none) :
    ∀ row ∈ memory.registry.table, row.1 ≠ u.token.methodIndex := by
  intro row hrow hindex
  obtain ⟨v, hv, hvrow, harray⟩ := (h.rows row).1 hrow
  rw [hl.eq_of_index hv hu (hvrow.trans hindex), hnone] at harray
  cases harray

/-- One more array, for one token, is none of those that the other units have. -/
theorem Records.own_filled (h : Records units slots moduleId log memory) {token : MethodToken}
    {get : MethodToken → Option ArrayId} (hget : ∀ other, get other =
      if other = token then some memory.arrays.size else arrayOf? slots memory other) :
    ∀ v ∈ units, ∀ w ∈ units, ∀ array, get v.token = some array → get w.token = some array →
      v.token = w.token := by
  have hnew : ∀ other, (∃ v ∈ units, v.token = other) →
      arrayOf? slots memory other ≠ some memory.arrays.size := by
    rintro _ ⟨v, hv, rfl⟩ hmem
    exact Nat.lt_irrefl _ (h.cells v hv _ hmem).1
  have hown : ∀ a b array, (∃ v ∈ units, v.token = a) → (∃ w ∈ units, w.token = b) →
      arrayOf? slots memory a = some array → arrayOf? slots memory b = some array → a = b := by
    rintro _ _ array ⟨v, hv, rfl⟩ ⟨w, hw, rfl⟩
    exact h.own v hv w hw array
  intro v hv w hw array
  exact eq_of_update hget hnew hown ⟨v, hv, rfl⟩ ⟨w, hw, rfl⟩

/-- The rows behind one more array are those of the units with arrays. -/
theorem Records.rows_filled (hl : Layout units slots) (h : Records units slots moduleId log memory)
    {u : CodeUnit} (hu : u ∈ units) (hnone : arrayOf? slots memory u.token = none)
    {get : MethodToken → Option ArrayId} (hget : ∀ other, get other =
      if other = u.token then some memory.arrays.size else arrayOf? slots memory other)
    (row : UInt32 × ArrayId) :
    row ∈ Registry.insertRow u.token.methodIndex memory.arrays.size memory.registry.table ↔
      ∃ v ∈ units, v.token.methodIndex = row.1 ∧ get v.token = some row.2 := by
  rw [Registry.mem_insertRow (h.index_ne hl hu hnone)]
  constructor
  · rintro (rfl | hrow)
    · exact ⟨u, hu, rfl, (hget _).trans (if_pos rfl)⟩
    · obtain ⟨v, hv, hindex, hmem⟩ := (h.rows row).1 hrow
      have hne : v.token ≠ u.token := by
        intro hsame
        rw [hsame, hnone] at hmem
        cases hmem
      exact ⟨v, hv, hindex, ((hget _).trans (if_neg hne)).trans hmem⟩
  · rintro ⟨v, hv, hindex, hmem⟩
    rw [hget] at hmem
    by_cases hsame : v.token = u.token
    · rw [if_pos hsame] at hmem
      have hindex' := hindex.symm.trans (congrArg MethodToken.methodIndex hsame)
      exact .inl (Prod.ext hindex' (Option.some.inj hmem).symm)
    · rw [if_neg hsame] at hmem
      exact .inr ((h.rows row).2 ⟨v, hv, hindex, hmem⟩)

/-- The first entry of a unit fills its slot with an array of its own, and adds its row. -/
theorem Records.fill (hl : Layout units slots) (h : Records units slots moduleId log memory)
    {u : CodeUnit} (hu : u ∈ units) {slot : SlotId} (hslot : slots.get? u.token = some slot)
    (hlt : slot < memory.slots.size) (hnone : arrayOf? slots memory u.token = none)
    (hentered : ∀ token, log'.Entered token ↔ log.Entered token ∨ token = u.token)
    (hinside : ∀ token site kind, .reached token site kind ∈ log'.window → log'.Entered token)
    (hvisit : ∀ v : CodeUnit, log'.visited v.token = log.visited v.token) :
    Records units slots moduleId log'
      (memory.filled moduleId u.token slot u.spanMap.spans.size) := by
  have harray : ∀ other, arrayOf? slots
      (memory.filled moduleId u.token slot u.spanMap.spans.size) other =
        if other = u.token then some memory.arrays.size else arrayOf? slots memory other :=
    arrayOf?_set hl hslot hlt rfl
  refine ⟨?_, h.fits, hinside, ?_, ?_, h.own_filled harray, ?_, ?_,
    h.rows_filled hl hu hnone harray⟩
  · intro v hv slot' hslot'
    show slot' < (memory.slots.setIfInBounds slot _).size
    rw [Array.size_setIfInBounds]
    exact h.slot_lt v hv slot' hslot'
  · intro v hv
    rw [harray, hentered]
    by_cases hsame : v.token = u.token
    · rw [if_pos hsame]
      exact ⟨fun _ => .inr hsame, fun _ => ⟨_, rfl⟩⟩
    · rw [if_neg hsame, or_iff_left hsame]
      exact h.entered v hv
  · intro v hv array hmem
    rw [harray] at hmem
    show array < (memory.arrays.push _).size ∧ (memory.arrays.push _).getD array [] = _
    rw [Array.size_push, Memory.getD_push, hvisit]
    by_cases hsame : v.token = u.token
    · rw [if_pos hsame] at hmem
      cases hmem
      rw [hl.eq_of_token hv hu hsame, h.map_visited_eq_replicate hu hnone, if_pos rfl]
      exact ⟨Nat.lt_succ_self _, rfl⟩
    · rw [if_neg hsame] at hmem
      obtain ⟨hold, hcells⟩ := h.cells v hv array hmem
      rw [if_neg (Nat.ne_of_lt hold)]
      exact ⟨Nat.lt_succ_of_lt hold, hcells⟩
  · rintro g hg
    cases hg
    rfl
  · exact Registry.pairwise_insertRow h.ordered

/-- **The entry of a unit and the creation of its payload keep the relation.** -/
theorem Records.enter {m : Machine} (hl : Layout units m.slots)
    (h : Records units m.slots m.moduleId log memory) {u : CodeUnit} (hu : u ∈ units)
    (depth : Nat) :
    Records units m.slots m.moduleId (log.note (.entered u.token depth))
      (m.recorder.acquire u.token u.spanMap.spans.size memory) := by
  have hentered (token : MethodToken) :
      (log.note (.entered u.token depth)).Entered token ↔ log.Entered token ∨ token = u.token := by
    constructor
    · rintro ⟨depth', hmem⟩
      rcases List.mem_append.1 hmem with hmem | hmem
      · exact .inl ⟨depth', hmem⟩
      · cases List.mem_singleton.1 hmem
        exact .inr rfl
    · rintro (hold | rfl)
      · exact Log.entered_note _ hold
      · exact ⟨depth, List.mem_append_right _ (List.mem_singleton.2 rfl)⟩
  have hinside : ∀ token site kind,
      .reached token site kind ∈ (log.note (.entered u.token depth)).window →
        (log.note (.entered u.token depth)).Entered token :=
    Log.inside_note h.inside fun _ _ _ he => by cases he
  have hvisit (v : CodeUnit) : (log.note (.entered u.token depth)).visited v.token =
      log.visited v.token := by
    funext s
    rw [Log.visited_note, decide_eq_false (by simp), Bool.or_false]
  obtain ⟨slot, hslot⟩ := hl.slot u hu
  have hlt := h.slot_lt u hu slot hslot
  cases harray : arrayOf? m.slots memory u.token with
  | some array =>
    rw [acquire_of_array harray]
    refine h.step rfl rfl rfl (fun token => ?_) hinside fun v hv other hother => ?_
    · rw [hentered]
      refine ⟨?_, .inl⟩
      rintro (hold | rfl)
      · exact hold
      · exact (h.entered u hu).1 ⟨array, harray⟩
    · rw [hvisit]
      exact (h.cells v hv other hother).2
  | none =>
    obtain ⟨hempty, hacquire⟩ := acquire_of_slot hslot harray u.spanMap.spans.size
    rw [hacquire, Memory.acquire_eq memory hempty (h.fits u hu) (hl.small u hu) h.module]
    exact h.fill hl hu hslot hlt harray hentered hinside hvisit

/-! ## Runs -/

/-- The relation in the course of a run: the active units were entered, so they have arrays. -/
structure Recording (units : List CodeUnit) (slots : SlotTable) (moduleId : ModuleId)
    (active : MethodToken → Prop) (log : Log) (memory : Memory) : Prop where
  records : Records units slots moduleId log memory
  entered : ∀ token, active token → log.Entered token

theorem Recording.note {active : MethodToken → Prop} {event : Event}
    (h : Recording units slots moduleId active log memory)
    (hentry : ∀ token depth, event ≠ .entered token depth)
    (hpoint : ∀ token site kind, event ≠ .reached token site kind) :
    Recording units slots moduleId active (log.note event) memory :=
  ⟨h.records.note hentry hpoint, fun token ht => Log.entered_note event (h.entered token ht)⟩

/-- **Whatever a run does keeps the relation**, in every unit that is active. -/
theorem records_tracks {m : Machine} (hl : Layout units m.slots) :
    TracksAll (Recording units m.slots m.moduleId) .log m.recorder (placeOf units) where
  tracks _ :=
    { silent := fun _ _ _ h => h
      failed := fun _ _ _ h => h.note (by simp) (by simp)
      left := fun _ _ _ _ h => h.note (by simp) (by simp)
      point := fun unit site kind _ _ ha _ h =>
        ⟨h.records.reach hl (h.entered unit ha) site kind,
          fun token ht => Log.entered_note _ (h.entered token ht)⟩ }
  back _ _ _ _ h := ⟨h.records, fun token ht => h.entered token (.inr ht)⟩

/-- The entry of a unit with all that the spliced unit does at it: the creation of the payload, and
then the mark of the entry's probe. -/
theorem Recording.enter {m : Machine} (hl : Layout units m.slots) {active : MethodToken → Prop}
    (h : Recording units m.slots m.moduleId active log memory) {u : CodeUnit} (hu : u ∈ units)
    (depth : Nat) :
    Recording units m.slots m.moduleId (Also active u.token)
      (Recorder.log.note (.reached u.token 0 .entry)
        (Recorder.log.note (.entered u.token depth) log))
      (m.recorder.markAt u.token (placeOf units u.token 0 .entry)
        (m.recorder.acquire u.token u.spanMap.spans.size memory)) := by
  have hentered : (log.note (.entered u.token depth)).Entered u.token :=
    ⟨depth, List.mem_append_right _ (List.mem_singleton.2 rfl)⟩
  refine ⟨(h.records.enter hl hu depth).reach hl hentered 0 .entry, ?_⟩
  rintro token (rfl | ht)
  · exact Log.entered_note _ hentered
  · exact Log.entered_note _ (Log.entered_note _ (h.entered token ht))

/-! ## Flushes -/

/-- A report that says of each unit what the log says: there is a row for each unit that was ever
entered, and it has one cell for each span, set if the point of the span was reached since the last
flush. -/
structure ExactReport (units : List CodeUnit) (log : Log) (report : Report) : Prop where
  increasing : report.rows.Pairwise fun a b => a.index < b.index
  owned : ∀ row ∈ report.rows, ∃ u ∈ units, row.index = u.token.methodIndex
  entered : ∀ u ∈ units,
    (∃ row ∈ report.rows, row.index = u.token.methodIndex) ↔ log.Entered u.token
  hits : ∀ u ∈ units, ∀ row ∈ report.rows, row.index = u.token.methodIndex →
    row.hits = u.spanMap.spans.spans.map (log.visited u.token)

/-- No array stands in two rows of the registry. -/
theorem Records.nodup_arrays (h : Records units slots moduleId log memory) :
    (memory.registry.table.map Prod.snd).Nodup := by
  refine List.pairwise_map.2 (h.ordered.imp_of_mem fun {a b} ha hb hlt hsame => ?_)
  obtain ⟨u, hu, hindex, harray⟩ := (h.rows a).1 ha
  obtain ⟨v, hv, hindex', harray'⟩ := (h.rows b).1 hb
  rw [hsame] at harray
  have htoken := h.own u hu v hv _ harray harray'
  rw [← hindex, ← hindex', htoken] at hlt
  exact UInt32.lt_irrefl _ hlt

/-- A flush reports the rows of the registry, each with the cells of its array. -/
theorem Records.flush_rows (h : Records units slots moduleId log memory) :
    memory.flush.1.rows =
      memory.registry.table.map fun row => ⟨row.1, memory.cells row.2⟩ :=
  (Memory.drainRows_eq h.nodup_arrays memory).1

/-- **A flush reports what the log says.** -/
theorem Records.exact (hl : Layout units slots) (h : Records units slots moduleId log memory) :
    ExactReport units log memory.flush.1 := by
  refine ⟨?_, ?_, ?_, ?_⟩
  · rw [h.flush_rows]
    exact List.pairwise_map.2 h.ordered
  · rw [h.flush_rows]
    intro row hrow
    obtain ⟨entry, hentry, rfl⟩ := List.mem_map.1 hrow
    obtain ⟨u, hu, hindex, -⟩ := (h.rows entry).1 hentry
    exact ⟨u, hu, hindex.symm⟩
  · rw [h.flush_rows]
    intro u hu
    rw [← h.entered u hu]
    constructor
    · rintro ⟨row, hrow, hindex⟩
      obtain ⟨entry, hentry, rfl⟩ := List.mem_map.1 hrow
      obtain ⟨v, hv, hindex', harray⟩ := (h.rows entry).1 hentry
      rw [hl.eq_of_index hv hu (hindex'.trans hindex)] at harray
      exact ⟨entry.2, harray⟩
    · rintro ⟨array, harray⟩
      have hentry := (h.rows (u.token.methodIndex, array)).2 ⟨u, hu, rfl, harray⟩
      exact ⟨_, List.mem_map_of_mem hentry, rfl⟩
  · rw [h.flush_rows]
    intro u hu row hrow hindex
    obtain ⟨entry, hentry, rfl⟩ := List.mem_map.1 hrow
    obtain ⟨v, hv, hindex', harray⟩ := (h.rows entry).1 hentry
    rw [hl.eq_of_index hv hu (hindex'.trans hindex)] at harray
    exact (h.cells u hu _ harray).2

/-- **Behind a flush the relation holds for the next window.** -/
theorem Records.flush (h : Records units slots moduleId log memory) :
    Records units slots moduleId { log with window := [] } memory.flush.2 := by
  obtain ⟨hslots, hregistry, hsize⟩ := memory.drainRows_keeps memory.registry.table
  refine h.step hslots hregistry hsize (fun _ => Iff.rfl) (fun _ _ _ hmem => by cases hmem) ?_
  intro u hu array harray
  have hrow := (h.rows (u.token.methodIndex, array)).2 ⟨u, hu, rfl, harray⟩
  show (memory.drainRows memory.registry.table).2.cells array = _
  rw [(Memory.drainRows_eq h.nodup_arrays memory).2, if_pos (List.mem_map_of_mem hrow),
    (h.cells u hu array harray).2, List.length_map]
  refine (List.eq_replicate_iff.2 ⟨List.length_map .., fun b hb => ?_⟩).symm
  obtain ⟨s, -, rfl⟩ := List.mem_map.1 hb
  exact decide_eq_false (List.not_mem_nil)

end Records

end SpanCoverage.Host
