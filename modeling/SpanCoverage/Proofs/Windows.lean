import Mathlib.Data.List.Forall2
import SpanCoverage.Proofs.Histories

/-!
# Windows

The window of an array is the time since a drain or a flush cleared it last, or since it was made.
Whatever the callers of a registry did, a cell is set if and only if it was visited in the window of
its array.  So this is what a flush reports, of each registered array once, and the flush starts new
windows for these arrays and for no other one.

The main results are:

* `Memory.isMarked_step` — what a call does to one cell.
* `Memory.History.isMarked_iff` — a cell is set iff it was visited in the window.
* `Memory.History.flush_reports_window` — what a flush reports and clears.
-/

namespace SpanCoverage.Memory

/-! ## Cells -/

theorem getD_set_eq_true {cells : List Bool} {index other : Nat} :
    (cells.set other true).getD index false = true ↔
      other = index ∧ index < cells.length ∨ cells.getD index false = true := by
  rw [List.getD_eq_getElem?_getD, List.getD_eq_getElem?_getD, List.getElem?_set]
  by_cases hsame : other = index
  · subst hsame
    by_cases hlt : other < cells.length <;> simp [hlt]
  · simp [hsame]

theorem not_getD_replicate_false {length index : Nat} :
    ¬ (List.replicate length false).getD index false = true := by
  rw [List.getD_eq_getElem?_getD, List.getElem?_replicate]
  by_cases hlt : index < length <;> simp [hlt]

variable {m : Memory} {array : ArrayId} {index : Nat}

/-- An array that was not made has no cells. -/
theorem cells_eq_nil (h : m.arrays.size ≤ array) : m.cells array = [] := by
  rw [cells, Array.getD_eq_getD_getElem?, Array.getElem?_eq_none h]
  rfl

/-- **A call sets the cell that it visits, and unsets those that it clears.** -/
theorem isMarked_step (h : m.Tidy) (op : MemoryOp) (array : ArrayId) (index : Nat) :
    (m.step op).isMarked array index = true ↔
      Event.Marks array index ⟨m, op⟩ ∧ index < (m.cells array).length ∨
        ¬ Event.Clears array ⟨m, op⟩ ∧ m.isMarked array index = true := by
  have hcases := touches h op array
  unfold isMarked
  generalize (m.step op).cells array = cells at hcases ⊢
  cases hcases with
  | @marked visited hmark =>
    subst hmark
    have hmarks : Event.Marks array index ⟨m, .mark array visited⟩ ↔ visited = index := by
      simp only [Event.Marks, MemoryOp.mark.injEq, true_and]
    have hkept : ¬ Event.Clears array ⟨m, .mark array visited⟩ := id
    rw [getD_set_eq_true, hmarks, and_iff_right hkept]
  | cleared hclear =>
    have hmarks : ¬ Event.Marks array index ⟨m, op⟩ := by
      rintro ⟨⟩
      exact hclear
    rw [iff_false_intro not_getD_replicate_false, false_iff, not_or]
    exact ⟨fun hvisit => hmarks hvisit.1, fun hold => hold.1 hclear⟩
  | made hnew =>
    rw [iff_false_intro not_getD_replicate_false, false_iff, cells_eq_nil hnew]
    rintro (⟨-, hlt⟩ | ⟨-, hset⟩)
    · exact Nat.not_lt_zero _ hlt
    · cases hset
  | kept hmark hclear =>
    rw [and_iff_right hclear, or_iff_right fun hvisit => hmark index hvisit.1]

/-! ## Histories -/

namespace History

variable {limit : Nat} {past : List Event}

/-- What was visited exists. -/
theorem lt_size_of_since {q : Event → Prop} (h : History limit past m)
    (hsince : Since (Event.Marks array index) q past) : array < m.arrays.size := by
  obtain ⟨e, he, hmark⟩ := hsince.exists_mem
  obtain ⟨hoffers, hkeeps⟩ := h.keeps he
  rw [hmark] at hoffers
  exact Nat.lt_of_lt_of_le hoffers hkeeps.size

/-- **A cell is set if and only if it was visited in the window of its array.** -/
theorem isMarked_iff (h : History limit past m) :
    m.isMarked array index = true ↔ index < (m.cells array).length ∧
      Since (Event.Marks array index) (Event.Clears array) past := by
  induction h with
  | start =>
    rw [and_iff_right_of_imp fun hsince => (not_since_nil hsince).elim]
    exact iff_of_false nofun not_since_nil
  | @step past m op before offered ih =>
    have hlength (harray : array < m.arrays.size) :
        index < ((m.step op).cells array).length ↔ index < (m.cells array).length := by
      rw [length_cells_step before.tidy harray]
    rw [isMarked_step before.tidy, ih, since_cons]
    constructor
    · rintro (⟨hmark, hlt⟩ | ⟨hclear, hlt, hsince⟩)
      · have harray : array < m.arrays.size := by
          cases hmark
          exact offered
        exact ⟨(hlength harray).2 hlt, .inl hmark⟩
      · exact ⟨(hlength (before.lt_size_of_since hsince)).2 hlt, .inr ⟨hclear, hsince⟩⟩
    · rintro ⟨hlt, hmark | ⟨hclear, hsince⟩⟩
      · have harray : array < m.arrays.size := by
          cases hmark
          exact offered
        exact .inl ⟨hmark, (hlength harray).1 hlt⟩
      · exact .inr ⟨hclear, (hlength (before.lt_size_of_since hsince)).1 hlt, hsince⟩

end History

/-! ## Flushes -/

/-- A row reports a registered array: it has the array's index and length, and those cells are true
that were visited in the array's window. -/
structure RowTells (past : List Event) (m : Memory) (row : ReportRow) (entry : UInt32 × ArrayId) :
    Prop where
  index : row.index = entry.1
  length : row.hits.length = (m.cells entry.2).length
  hits : ∀ i, row.hits[i]? = some true ↔ i < row.hits.length ∧
    Since (Event.Marks entry.2 i) (Event.Clears entry.2) past

/-- What a flush reports and what it leaves.  There is one row for each entry of the table, in
order.  Behind the flush the registered arrays are cleared, the others are as they were, and so are
slots and registry; one more flush reports the same rows without a visit. -/
structure FlushTells (past : List Event) (m : Memory) : Prop where
  increasing : m.flush.1.rows.Pairwise fun a b => a.index < b.index
  rows : List.Forall₂ (RowTells past m) m.flush.1.rows m.registry.table
  cleared : ∀ array ∈ m.registry.table.map Prod.snd,
    m.flush.2.cells array = List.replicate (m.cells array).length false
  others : ∀ array, array ∉ m.registry.table.map Prod.snd →
    m.flush.2.cells array = m.cells array
  size : m.flush.2.arrays.size = m.arrays.size
  slots : m.flush.2.slots = m.slots
  registry : m.flush.2.registry = m.registry
  again : m.flush.2.flush.1.rows =
    m.flush.1.rows.map fun row => ⟨row.index, List.replicate row.hits.length false⟩

/-- A flush reports the rows of the table, each with the cells of its array. -/
theorem Tidy.rows_flush (h : m.Tidy) :
    m.flush.1.rows = m.registry.table.map fun entry => ⟨entry.1, m.cells entry.2⟩ :=
  (drainRows_eq h.apart m).1

/-- A flush clears the arrays of the table. -/
theorem Tidy.cells_flush (h : m.Tidy) (array : ArrayId) :
    m.flush.2.cells array =
      if array ∈ m.registry.table.map Prod.snd then List.replicate (m.cells array).length false
      else m.cells array :=
  (drainRows_eq h.apart m).2 array

/-- **A flush reports the visits of each registered array's window**, whatever the callers of the
registry did before, and clears the registered arrays and nothing else. -/
theorem History.flush_reports_window {limit : Nat} {past : List Event} (h : History limit past m) :
    FlushTells past m := by
  have htidy := h.tidy
  obtain ⟨hslots, hregistry, hsize⟩ := m.drainRows_keeps m.registry.table
  have hflushed : m.flush.2.Tidy := htidy.step .flush
  have hcleared (array : ArrayId) (harray : array ∈ m.registry.table.map Prod.snd) :
      m.flush.2.cells array = List.replicate (m.cells array).length false := by
    rw [htidy.cells_flush, if_pos harray]
  refine ⟨?_, ?_, hcleared, fun array harray => ?_, hsize, hslots, hregistry, ?_⟩
  · rw [htidy.rows_flush]
    exact List.pairwise_map.2 htidy.ordered
  · rw [htidy.rows_flush, List.forall₂_map_left_iff, List.forall₂_same]
    refine fun entry _ => ⟨rfl, rfl, fun i => ?_⟩
    rw [← h.isMarked_iff, isMarked, List.getD_eq_getElem?_getD]
    cases (m.cells entry.2)[i]? <;> simp
  · rw [htidy.cells_flush, if_neg harray]
  · have htable : m.flush.2.registry.table = m.registry.table := congrArg Registry.table hregistry
    rw [hflushed.rows_flush, htable, htidy.rows_flush, List.map_map]
    refine List.map_congr_left fun entry hentry => ?_
    rw [hcleared entry.2 (List.mem_map.2 ⟨entry, hentry, rfl⟩)]
    rfl

/-- Calls for the arrays of three units, one of them of a module that the registry forgets.  One
visit is drained, and one is behind the last cell. -/
def visits : List MemoryOp :=
  [.newSlot, .newSlot, .newSlot, .newArray 3 9, .acquire ⟨⟨0xA⟩, .ofRow 7, 2, 1⟩,
    .acquire ⟨⟨0xB⟩, .ofRow 5, 0, 1⟩, .acquire ⟨⟨0xB⟩, .ofRow 1, 1, 2⟩, .install 0 0,
    .mark 3 1, .drain 3, .mark 3 0, .mark 2 0, .mark 1 0, .mark 3 9]

/-- The flush behind these calls, and what it tells. -/
theorem visits_flushed : ∃ past m, History 8 past m ∧
    m.flush.1.rows = [⟨1, [true, false]⟩, ⟨5, [true]⟩] ∧ FlushTells past m := by
  have hrun : (history? 8 visits.reverse).map (fun h => h.2.flush.1.rows) =
      some [⟨1, [true, false]⟩, ⟨5, [true]⟩] := by decide
  obtain ⟨⟨past, m⟩, hhistory, hrows⟩ := Option.map_eq_some_iff.1 hrun
  have h : History 8 past m := history_of_history? hhistory
  exact ⟨past, m, h, hrows, h.flush_reports_window⟩

end SpanCoverage.Memory
