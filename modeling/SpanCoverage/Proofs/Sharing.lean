import Mathlib.Data.List.Induction
import Mathlib.Data.List.Nodup
import SpanCoverage.Proofs.Journal
import SpanCoverage.Proofs.Records

/-!
# Payloads of several machines

Machines that run the same instrumented units share one payload memory.  Each of them has a slot of
its own for a unit, and its first entry into the unit makes an array, which takes over the row of
the unit's method index.  So the arrays are numbered as the first entries are, and the row of an
index belongs to the machine and the unit that came last: its **owner**.

The main results are:

* `find?_tableOf` — the registry holds the array of the owner under each index.
* `Owned.enter`, `Owned.mark` — entries and marks keep slots, arrays and registry as the journal
  says.
* `Owned.report`, `Owned.flush` — a flush reports for each index what the owner marked.
-/

namespace SpanCoverage.Host

variable {κ : Type}

/-- The members of a list with one more at its end, by their places. -/
theorem getElem?_concat_eq_some {α : Type} {l : List α} {a b : α} {i : Nat} :
    (l ++ [a])[i]? = some b ↔ l[i]? = some b ∨ (i = l.length ∧ a = b) := by
  rw [List.getElem?_append]
  by_cases h : i < l.length
  · rw [if_pos h]
    exact ⟨.inl, fun h' => h'.resolve_right fun h' => absurd h'.1 (Nat.ne_of_lt h)⟩
  · have hnone : l[i]? = none := List.getElem?_eq_none (Nat.le_of_not_lt h)
    rw [if_neg h, hnone, List.getElem?_singleton]
    by_cases hi : i = l.length
    · simp [hi]
    · rw [if_neg (by omega)]
      simp [hi]

/-! ## Owners of rows -/

section Owners

variable {entries : List (κ × MethodToken)} {e : κ × MethodToken} {index : UInt32}

/-- The rows of the registry behind first entries, where the array of an entry is named by the place
of the entry. -/
def tableOf (entries : List (κ × MethodToken)) : List (UInt32 × ArrayId) :=
  entries.zipIdx.foldl (fun rows e => Registry.insertRow e.1.2.methodIndex e.2 rows) []

/-- The machine and the unit that own the row of a method index: those of the last entry with this
index. -/
def ownerOf (entries : List (κ × MethodToken)) (index : UInt32) : Option (κ × MethodToken) :=
  (entries.filter fun e => e.2.methodIndex == index).getLast?

theorem tableOf_append : tableOf (entries ++ [e]) =
    Registry.insertRow e.2.methodIndex entries.length (tableOf entries) := by
  simp [tableOf, List.zipIdx_append]

theorem ownerOf_append : ownerOf (entries ++ [e]) index =
    if index = e.2.methodIndex then some e else ownerOf entries index := by
  by_cases h : index = e.2.methodIndex
  · simp [ownerOf, List.filter_append, h]
  · simp [ownerOf, List.filter_append, h, Ne.symm h]

/-- An owner entered a unit of the index. -/
theorem of_ownerOf (h : ownerOf entries index = some e) :
    e ∈ entries ∧ e.2.methodIndex = index := by
  have hmem := List.mem_of_getLast? h
  rw [List.mem_filter] at hmem
  exact ⟨hmem.1, by simpa using hmem.2⟩

/-- The index of an entry has an owner. -/
theorem exists_ownerOf (h : e ∈ entries) : ∃ o, ownerOf entries e.2.methodIndex = some o := by
  have hmem : e ∈ entries.filter fun e' => e'.2.methodIndex == e.2.methodIndex :=
    List.mem_filter.2 ⟨h, by simp⟩
  exact Option.isSome_iff_exists.1 (List.getLast?_isSome.2 (List.ne_nil_of_mem hmem))

theorem pairwise_tableOf (entries : List (κ × MethodToken)) :
    (tableOf entries).Pairwise fun a b => a.1 < b.1 := by
  induction entries using List.reverseRecOn with
  | nil => exact .nil
  | append_singleton entries e ih =>
    rw [tableOf_append]
    exact Registry.pairwise_insertRow ih

/-- **The registry holds the array of the owner under each index.** -/
theorem find?_tableOf (h : entries.Nodup) (array : ArrayId) :
    Assoc.find? index (tableOf entries) = some array ↔
      ∃ e, entries[array]? = some e ∧ ownerOf entries index = some e := by
  induction entries using List.reverseRecOn with
  | nil => simp [tableOf, Assoc.find?]
  | append_singleton entries e ih =>
    have hnew : e ∉ entries := fun he => (List.nodup_append.1 h).2.2 e he e (by simp) rfl
    rw [tableOf_append, Registry.find?_insertRow, ownerOf_append]
    simp only [getElem?_concat_eq_some]
    by_cases hindex : index = e.2.methodIndex
    · rw [if_pos hindex, if_pos hindex]
      constructor
      · rintro ⟨rfl⟩
        exact ⟨e, .inr ⟨rfl, rfl⟩, rfl⟩
      · rintro ⟨_, hget | ⟨rfl, -⟩, ⟨rfl⟩⟩
        · exact absurd (List.mem_of_getElem? hget) hnew
        · rfl
    · rw [if_neg hindex, if_neg hindex, ih (List.nodup_append.1 h).1]
      refine exists_congr fun e' => and_congr_left fun howner => ?_
      refine ⟨.inl, fun hget => hget.resolve_right ?_⟩
      rintro ⟨-, rfl⟩
      exact hnew (of_ownerOf howner).1

/-- A row of the registry holds the array of the owner of its index. -/
theorem mem_tableOf (h : entries.Nodup) (row : UInt32 × ArrayId) :
    row ∈ tableOf entries ↔
      ∃ e, entries[row.2]? = some e ∧ ownerOf entries row.1 = some e := by
  rw [← find?_tableOf h, Registry.find?_eq_some_iff (pairwise_tableOf entries)]

/-- There is a row for each index that was entered. -/
theorem mem_indices_tableOf (h : entries.Nodup) :
    index ∈ (tableOf entries).map Prod.fst ↔ index ∈ entries.map fun e => e.2.methodIndex := by
  rw [List.mem_map, List.mem_map]
  constructor
  · rintro ⟨row, hrow, rfl⟩
    obtain ⟨e, -, howner⟩ := (mem_tableOf h row).1 hrow
    exact ⟨e, of_ownerOf howner⟩
  · rintro ⟨e, he, rfl⟩
    obtain ⟨o, howner⟩ := exists_ownerOf he
    obtain ⟨array, hget⟩ := List.mem_iff_getElem?.1 (of_ownerOf howner).1
    exact ⟨(e.2.methodIndex, array), (mem_tableOf h _).2 ⟨o, hget, howner⟩, rfl⟩

/-- No array stands in two rows of the registry. -/
theorem nodup_tableOf (h : entries.Nodup) : ((tableOf entries).map Prod.snd).Nodup := by
  refine List.pairwise_map.2 ((pairwise_tableOf entries).imp_of_mem fun {a b} ha hb hlt hsame => ?_)
  obtain ⟨e, hget, howner⟩ := (mem_tableOf h a).1 ha
  obtain ⟨e', hget', howner'⟩ := (mem_tableOf h b).1 hb
  rw [hsame, hget'] at hget
  cases hget
  rw [← (of_ownerOf howner).2, (of_ownerOf howner').2] at hlt
  exact UInt32.lt_irrefl _ hlt

/-- Everybody who entered a unit owns its row exactly if no two entries are of one index. -/
theorem owners_iff_nodup (h : entries.Nodup) :
    (∀ e ∈ entries, ownerOf entries e.2.methodIndex = some e) ↔
      (entries.map fun e => e.2.methodIndex).Nodup := by
  rw [List.nodup_map_iff_inj_on h]
  constructor
  · intro howner e he e' he' hindex
    have hsame := howner e he
    rw [hindex, howner e' he'] at hsame
    exact (Option.some.inj hsame).symm
  · intro hinj e he
    obtain ⟨o, howner⟩ := exists_ownerOf he
    rw [howner, hinj o (of_ownerOf howner).1 e he (of_ownerOf howner).2]

end Owners

/-! ## The shared memory -/

/-- What a machine marked of a unit since the last flush, span by span. -/
def Journal.hits [DecidableEq κ] (j : Journal κ) (k : κ) (u : CodeUnit) : List Bool :=
  (List.range u.spanMap.spans.size).map fun span => decide ((k, u.token, span) ∈ j.marks)

/-- Valid units with tokens of their own, none with more spans than any store could hold. -/
structure Roster (units : List CodeUnit) : Prop where
  valid : ∀ u ∈ units, u.defects = []
  small : ∀ u ∈ units, u.spanMap.spans.size < allocationBound
  tokens : (units.map fun u => u.token).Nodup

theorem Roster.eq_of_token {units : List CodeUnit} (h : Roster units) {u v : CodeUnit}
    (hu : u ∈ units) (hv : v ∈ units) (huv : u.token = v.token) : u = v :=
  List.inj_on_of_nodup_map h.tokens hu hv huv

/-- The payload memory of machines with the slots given holds what the journal says: there is one
array for each entry of the journal, at the entry's place; the registry has the rows of the owners;
and the owners' arrays hold what they marked. -/
structure Owned [DecidableEq κ] (units : List CodeUnit) (moduleId : ModuleId)
    (slots : κ → SlotTable) (j : Journal κ) (memory : Memory) : Prop where
  slotted : Slotted (fun e : κ × MethodToken => (slots e.1).get? e.2) memory
  nodup : j.entries.Nodup
  known : ∀ e ∈ j.entries, ∃ u ∈ units, u.token = e.2
  size : memory.arrays.size = j.entries.length
  arrays : ∀ k token array, arrayOf? (slots k) memory token = some array ↔
    j.entries[array]? = some (k, token)
  fits : ∀ u ∈ units, u.spanMap.spans.size ≤ memory.registry.limit
  module : ∀ g, memory.registry.current = some g → g.module = moduleId
  table : memory.registry.table = tableOf j.entries
  inside : ∀ k token span, (k, token, span) ∈ j.marks →
    (k, token) ∈ j.entries ∧ ∃ u ∈ units, u.token = token ∧ span < u.spanMap.spans.size
  cells : ∀ array k, ∀ u ∈ units, ownerOf j.entries u.token.methodIndex = some (k, u.token) →
    j.entries[array]? = some (k, u.token) → memory.cells array = j.hits k u

section Owned

variable [DecidableEq κ] {units : List CodeUnit} {moduleId : ModuleId} {slots : κ → SlotTable}
  {j : Journal κ} {memory : Memory} {k : κ}

theorem Owned.slot_lt (h : Owned units moduleId slots j memory) {token : MethodToken}
    {slot : SlotId} (hslot : (slots k).get? token = some slot) : slot < memory.slots.size :=
  h.slotted.lt_size (k, token) slot hslot

theorem Owned.apart (h : Owned units moduleId slots j memory) {k' : κ} {token token' : MethodToken}
    {slot : SlotId} (hslot : (slots k).get? token = some slot)
    (hslot' : (slots k').get? token' = some slot) : (k, token) = (k', token') :=
  @Slotted.apart _ _ _ h.slotted (k, token) (k', token') slot hslot hslot'

/-- **The registry has a machine's array of a unit exactly if the machine owns the row.** -/
theorem Owned.registered_iff (h : Owned units moduleId slots j memory) {token : MethodToken}
    {array : ArrayId} (harray : arrayOf? (slots k) memory token = some array) :
    memory.registry.get? token = some array ↔
      ownerOf j.entries token.methodIndex = some (k, token) := by
  have hget : j.entries[array]? = some (k, token) := (h.arrays k token array).1 harray
  rw [Registry.get?, h.table, find?_tableOf h.nodup, hget]
  constructor
  · rintro ⟨e, ⟨rfl⟩, howner⟩
    exact howner
  · exact fun howner => ⟨_, rfl, howner⟩

/-! ### Entries -/

/-- What a machine has not entered, it has not marked. -/
theorem Owned.hits_eq_replicate (h : Owned units moduleId slots j memory) {u : CodeUnit}
    (hnew : (k, u.token) ∉ j.entries) :
    j.hits k u = List.replicate u.spanMap.spans.size false := by
  refine List.eq_replicate_iff.2 ⟨by simp [Journal.hits], fun b hb => ?_⟩
  obtain ⟨span, -, rfl⟩ := List.mem_map.1 hb
  exact decide_eq_false fun hmark => hnew (h.inside _ _ _ hmark).1

/-- The first entry of a machine into a unit makes an array, which takes over the row. -/
theorem Owned.fill (hunits : Roster units) (h : Owned units moduleId slots j memory)
    {u : CodeUnit} (hu : u ∈ units) {slot : SlotId} (hslot : (slots k).get? u.token = some slot)
    (hnew : (k, u.token) ∉ j.entries) :
    Owned units moduleId slots { j with entries := j.entries ++ [(k, u.token)] }
      (memory.filled moduleId u.token slot u.spanMap.spans.size) := by
  have hcells (array : ArrayId) :
      (memory.filled moduleId u.token slot u.spanMap.spans.size).cells array =
        if array = j.entries.length then List.replicate u.spanMap.spans.size false
        else memory.cells array := by
    rw [← h.size]
    exact Memory.getD_push _
  refine ⟨⟨?_, h.slotted.apart⟩, ?_, ?_, ?_, ?_, h.fits, ?_, ?_, ?_, ?_⟩
  · intro e slot' hslot'
    show slot' < (memory.slots.setIfInBounds slot _).size
    rw [Array.size_setIfInBounds]
    exact h.slotted.lt_size e slot' hslot'
  · refine List.nodup_append.2 ⟨h.nodup, List.nodup_singleton _, ?_⟩
    rintro e he e' he' rfl
    exact hnew (List.mem_singleton.1 he' ▸ he)
  · intro e he
    rcases List.mem_append.1 he with he | he
    · exact h.known e he
    · exact ⟨u, hu, by rw [List.mem_singleton.1 he]⟩
  · show (memory.arrays.push _).size = _
    rw [Array.size_push, h.size, List.length_append, List.length_singleton]
  · intro k' token array
    rw [arrayOf?_fill (h.slot_lt hslot) rfl, getElem?_concat_eq_some]
    by_cases hsame : (slots k').get? token = some slot
    · rw [if_pos hsame, h.size, Option.some.injEq, h.apart hsame hslot]
      refine ⟨fun he => .inr ⟨he.symm, rfl⟩, ?_⟩
      rintro (hget | ⟨rfl, -⟩)
      · exact absurd (List.mem_of_getElem? hget) hnew
      · rfl
    · rw [if_neg hsame, h.arrays]
      refine ⟨.inl, fun hget => hget.resolve_right ?_⟩
      rintro ⟨-, he⟩
      cases he
      exact hsame hslot
  · rintro g hg
    cases hg
    rfl
  · show Registry.insertRow _ memory.arrays.size memory.registry.table = _
    rw [h.table, h.size, tableOf_append]
  · intro k' token span hmark
    obtain ⟨hentered, hspan⟩ := h.inside k' token span hmark
    exact ⟨List.mem_append_left _ hentered, hspan⟩
  · intro array k' v hv howner hget
    rw [hcells]
    rw [ownerOf_append] at howner
    rcases getElem?_concat_eq_some.1 hget with hget | ⟨rfl, he⟩
    · have hlt : array < j.entries.length := (List.getElem?_eq_some_iff.1 hget).1
      rw [if_neg (Nat.ne_of_lt hlt)]
      by_cases hindex : v.token.methodIndex = u.token.methodIndex
      · rw [if_pos hindex] at howner
        rw [← Option.some.inj howner] at hget
        exact absurd (List.mem_of_getElem? hget) hnew
      · rw [if_neg hindex] at howner
        exact h.cells array k' v hv howner hget
    · obtain ⟨rfl, htoken⟩ := Prod.mk.inj he
      rw [if_pos rfl, ← hunits.eq_of_token hu hv htoken]
      exact (h.hits_eq_replicate hnew).symm

/-- **The entry of a unit and the creation of its payload keep the memory as the journal says.** -/
theorem Owned.enter (hunits : Roster units) (h : Owned units moduleId slots j memory)
    {m : Machine} (hslots : m.slots = slots k) (hid : m.moduleId = moduleId) {u : CodeUnit}
    (hu : u ∈ units) {slot : SlotId} (hslot : m.slots.get? u.token = some slot) :
    Owned units moduleId slots (j.enter k u.token)
      (m.recorder.acquire u.token u.spanMap.spans.size memory) := by
  subst hid
  cases harray : arrayOf? m.slots memory u.token with
  | some array =>
    have hentered : (k, u.token) ∈ j.entries := by
      rw [hslots, h.arrays] at harray
      exact List.mem_of_getElem? harray
    rw [acquire_of_array harray, Journal.enter, if_pos hentered]
    exact h
  | none =>
    have hnew : (k, u.token) ∉ j.entries := by
      intro hentered
      obtain ⟨array, hget⟩ := List.mem_iff_getElem?.1 hentered
      rw [hslots, (h.arrays k u.token array).2 hget] at harray
      cases harray
    obtain ⟨hempty, hacquire⟩ := acquire_of_slot hslot harray u.spanMap.spans.size
    rw [hacquire, Memory.acquire_eq memory hempty (h.fits u hu) (hunits.small u hu) h.module,
      Journal.enter, if_neg hnew]
    exact h.fill hunits hu (hslots ▸ hslot) hnew

/-! ### Marks -/

theorem Journal.hits_mark_self (j : Journal κ) (k : κ) (u : CodeUnit) (span : Nat) :
    (j.mark k u.token span).hits k u = (j.hits k u).set span true := by
  refine List.ext_getElem (by simp [hits]) fun i hi _ => ?_
  rw [List.getElem_set]
  simp only [hits, mark, List.getElem_map, List.getElem_range, List.mem_append,
    List.mem_singleton, Prod.mk.injEq, true_and, Bool.decide_or]
  by_cases hsame : span = i
  · simp [hsame]
  · simp [hsame, Ne.symm hsame]

theorem Journal.hits_mark_of_ne (j : Journal κ) {k k' : κ} {token : MethodToken} {u : CodeUnit}
    (h : (k', u.token) ≠ (k, token)) (span : Nat) :
    (j.mark k token span).hits k' u = j.hits k' u := by
  refine List.map_congr_left fun i _ => decide_eq_decide.2 ?_
  refine ⟨fun hmem => (List.mem_append.1 hmem).resolve_right fun hnew => h ?_,
    List.mem_append_left _⟩
  cases List.mem_singleton.1 hnew
  rfl

/-- **A mark in a unit that was entered keeps the memory as the journal says.** -/
theorem Owned.mark (h : Owned units moduleId slots j memory) {m : Machine}
    (hslots : m.slots = slots k) {token : MethodToken} (hentered : (k, token) ∈ j.entries)
    {span : Nat} (hspan : ∃ u ∈ units, u.token = token ∧ span < u.spanMap.spans.size) :
    Owned units moduleId slots (j.mark k token span) (m.recorder.mark token span memory) := by
  obtain ⟨array, hget⟩ := List.mem_iff_getElem?.1 hentered
  have harray := (h.arrays k token array).2 hget
  rw [← hslots] at harray
  rw [mark_of_array harray]
  refine ⟨⟨h.slotted.lt_size, h.slotted.apart⟩, h.nodup, h.known,
    (Memory.size_mark ..).trans h.size, h.arrays, h.fits, h.module, h.table, ?_, ?_⟩
  · intro k' token' span' hmem
    rcases List.mem_append.1 hmem with hmem | hmem
    · exact h.inside k' token' span' hmem
    · cases List.mem_singleton.1 hmem
      exact ⟨hentered, hspan⟩
  · intro other k' u hu howner hother
    rw [Memory.cells_mark]
    by_cases hsame : other = array
    · subst hsame
      obtain ⟨rfl, rfl⟩ := Prod.mk.inj (Option.some.inj (hother.symm.trans hget))
      rw [if_pos rfl, Journal.hits_mark_self, h.cells other k' u hu howner hother]
    · have hne : (k', u.token) ≠ (k, token) := by
        intro he
        rw [he] at hother
        have hlt : other < j.entries.length := (List.getElem?_eq_some_iff.1 hother).1
        exact hsame ((List.getElem?_inj hlt h.nodup).1 (hother.trans hget.symm))
      rw [if_neg hsame, Journal.hits_mark_of_ne j hne, h.cells other k' u hu howner hother]

/-! ### Flushes -/

/-- A report that says for each method index what the owner of its row marked. -/
structure OwnersReport (units : List CodeUnit) (j : Journal κ) (report : Report) : Prop where
  increasing : report.rows.Pairwise fun a b => a.index < b.index
  indices : ∀ index, index ∈ report.rows.map ReportRow.index ↔
    index ∈ j.entries.map fun e => e.2.methodIndex
  rows : ∀ row, row ∈ report.rows ↔
    ∃ k, ∃ u ∈ units, ownerOf j.entries row.index = some (k, u.token) ∧ row.hits = j.hits k u

theorem Owned.flush_rows (h : Owned units moduleId slots j memory) :
    memory.flush.1.rows = (tableOf j.entries).map fun row => ⟨row.1, memory.cells row.2⟩ := by
  have hdrain := (Memory.drainRows_eq (nodup_tableOf h.nodup) memory).1
  show (memory.drainRows memory.registry.table).1 = _
  rw [h.table, hdrain]

/-- A row of the registry, with the owner and the cells of its array. -/
theorem Owned.row (h : Owned units moduleId slots j memory) {index : UInt32} {array : ArrayId}
    (hrow : (index, array) ∈ tableOf j.entries) :
    ∃ k, ∃ u ∈ units, ownerOf j.entries index = some (k, u.token) ∧
      j.entries[array]? = some (k, u.token) ∧ memory.cells array = j.hits k u := by
  obtain ⟨⟨k, token⟩, hget, howner⟩ := (mem_tableOf h.nodup _).1 hrow
  obtain ⟨u, hu, rfl⟩ := h.known _ (List.mem_of_getElem? hget)
  have hindex : u.token.methodIndex = index := (of_ownerOf howner).2
  exact ⟨k, u, hu, howner, hget, h.cells array k u hu (by rw [hindex]; exact howner) hget⟩

/-- **A flush reports for each method index what the owner of its row marked.** -/
theorem Owned.report (hunits : Roster units) (h : Owned units moduleId slots j memory) :
    OwnersReport units j memory.flush.1 := by
  refine ⟨?_, fun index => ?_, fun row => ?_⟩
  · rw [h.flush_rows]
    exact List.pairwise_map.2 (pairwise_tableOf j.entries)
  · rw [h.flush_rows, List.map_map]
    exact mem_indices_tableOf h.nodup
  · rw [h.flush_rows, List.mem_map]
    constructor
    · rintro ⟨⟨index, array⟩, hrow, rfl⟩
      obtain ⟨k, u, hu, howner, -, hcells⟩ := h.row hrow
      exact ⟨k, u, hu, howner, hcells⟩
    · obtain ⟨index, hits⟩ := row
      rintro ⟨k, u, hu, howner, hhits⟩
      obtain ⟨array, hget⟩ := List.mem_iff_getElem?.1 (of_ownerOf howner).1
      have hrow : (index, array) ∈ tableOf j.entries :=
        (mem_tableOf h.nodup _).2 ⟨_, hget, howner⟩
      obtain ⟨k', v, hv, howner', -, hcells⟩ := h.row hrow
      obtain ⟨rfl, htoken⟩ := Prod.mk.inj (Option.some.inj (howner.symm.trans howner'))
      obtain rfl := hunits.eq_of_token hu hv htoken
      exact ⟨_, hrow, by rw [hcells]; exact congrArg _ hhits.symm⟩

/-- **Behind a flush the memory holds what the journal says of the next window.** -/
theorem Owned.flush (h : Owned units moduleId slots j memory) :
    Owned units moduleId slots { j with marks := [] } memory.flush.2 := by
  obtain ⟨hslots, hregistry, hsize⟩ := memory.drainRows_keeps memory.registry.table
  have harray (t : SlotTable) (token : MethodToken) :
      arrayOf? t memory.flush.2 token = arrayOf? t memory token := by
    have hslot : memory.flush.2.slotArray? = memory.slotArray? := by
      funext slot
      exact congrArg (fun slots => slots.getD slot none) hslots
    rw [arrayOf?, arrayOf?, hslot]
  refine ⟨⟨?_, h.slotted.apart⟩, h.nodup, h.known, hsize.trans h.size, ?_, ?_, ?_, ?_, by simp, ?_⟩
  · intro e slot hslot
    show slot < (memory.drainRows memory.registry.table).2.slots.size
    rw [hslots]
    exact h.slotted.lt_size e slot hslot
  · intro k token array
    rw [harray]
    exact h.arrays k token array
  · show ∀ u ∈ units, _ ≤ (memory.drainRows memory.registry.table).2.registry.limit
    rw [hregistry]
    exact h.fits
  · show ∀ g, (memory.drainRows memory.registry.table).2.registry.current = some g → _
    rw [hregistry]
    exact h.module
  · show (memory.drainRows memory.registry.table).2.registry.table = _
    rw [hregistry]
    exact h.table
  · intro array k u hu howner hget
    have hrow : (u.token.methodIndex, array) ∈ tableOf j.entries :=
      (mem_tableOf h.nodup _).2 ⟨_, hget, howner⟩
    have hdrain := (Memory.drainRows_eq (nodup_tableOf h.nodup) memory).2 array
    show (memory.drainRows memory.registry.table).2.cells array = _
    rw [h.table, hdrain, if_pos (List.mem_map_of_mem hrow), h.cells array k u hu howner hget]
    refine (List.eq_replicate_iff.2 ⟨by simp [Journal.hits], fun b hb => ?_⟩).symm
    obtain ⟨span, -, rfl⟩ := List.mem_map.1 hb
    exact decide_eq_false List.not_mem_nil

end Owned

end SpanCoverage.Host
