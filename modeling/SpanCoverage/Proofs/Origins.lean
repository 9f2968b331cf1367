import Mathlib.Data.List.Nodup
import SpanCoverage.Proofs.Histories

/-!
# Origins of registered arrays

An array comes into the table of a registry when a request fills its slot.  It leaves the table when
a request for another module makes the registry start anew, or when a request with the same method
index fills another slot.  Nothing else that the callers of a registry do enters an array or removes
one, so the table is known from the history alone.

The main results are:

* `Memory.find?_acquire` — what a request does to the table.
* `Memory.History.stands` — what holds as long as an array is in the table.
* `Memory.History.find?_iff` — an array is in the table iff a request has put it there and no other
  one has removed it since.
* `Memory.History.entries_origin` — all that a history says of registry and slots.
-/

namespace SpanCoverage.Memory

variable {m : Memory} {op : MemoryOp} {r : Request} {array : ArrayId} {past : List Event}

/-! ## Entering and removing -/

/-- The call is a request that fills its slot with an array. -/
structure Event.Fills (r : Request) (array : ArrayId) (e : Event) : Prop where
  asked : e.op = .acquire r
  empty : e.found.slotArray? r.slot = none
  filled : e.left.slotArray? r.slot = some array

/-- The call removes what a request has entered: it is a request for another module, or one that
fills its slot and has the same method index. -/
def Event.Displaces (r : Request) (e : Event) : Prop :=
  ∃ other, e.op = .acquire other ∧
    (other.module ≠ r.module ∨
      other.token.methodIndex = r.token.methodIndex ∧ ∃ array, e.Fills other array)

/-- A request has filled its slot with an array, and no call has removed the entry since. -/
def Entered (past : List Event) (r : Request) (array : ArrayId) : Prop :=
  Since (Event.Fills r array) (Event.Displaces r) past

/-- A request fills its slot if it is not refused, and the array is a new one. -/
theorem fills_iff (offered : m.Offers (.acquire r)) {other : Request} :
    Event.Fills other array ⟨m, .acquire r⟩ ↔
      ¬ m.Refuses r ∧ other = r ∧ array = m.arrays.size := by
  have hslot : r.slot < (m.observed r.module).slots.size := offered
  constructor
  · rintro ⟨hasked, hempty, hfilled⟩
    cases hasked
    have hrefuses : ¬ m.Refuses r := by
      intro hrefuses
      have hsame : (m.step (.acquire r)).slotArray? r.slot = some array := hfilled
      rw [acquire_refused hrefuses] at hsame
      cases hempty.symm.trans hsame
    have harray : (m.step (.acquire r)).slotArray? r.slot = some array := hfilled
    rw [(acquire_granted hrefuses).2, slotArray?_filled hslot, if_pos rfl] at harray
    exact ⟨hrefuses, rfl, (Option.some.inj harray).symm⟩
  · rintro ⟨hrefuses, rfl, rfl⟩
    obtain ⟨hempty, hgranted⟩ := acquire_granted hrefuses
    refine ⟨rfl, hempty, ?_⟩
    show (m.step (.acquire other)).slotArray? other.slot = some m.arrays.size
    rw [hgranted, slotArray?_filled hslot, if_pos rfl]
    rfl

theorem displaces_iff (offered : m.Offers (.acquire r)) {other : Request} :
    Event.Displaces other ⟨m, .acquire r⟩ ↔
      r.module ≠ other.module ∨
        ¬ m.Refuses r ∧ r.token.methodIndex = other.token.methodIndex := by
  constructor
  · rintro ⟨asked, hasked, hmodule | ⟨hindex, array, hfills⟩⟩
    · cases hasked
      exact .inl hmodule
    · cases hasked
      exact .inr ⟨((fills_iff offered).1 hfills).1, hindex⟩
  · rintro (hmodule | ⟨hrefuses, hindex⟩)
    · exact ⟨r, rfl, .inl hmodule⟩
    · exact ⟨r, rfl, .inr ⟨hindex, _, (fills_iff offered).2 ⟨hrefuses, rfl, rfl⟩⟩⟩

/-- What is entered behind a request. -/
theorem entered_acquire (offered : m.Offers (.acquire r)) {other : Request} :
    Entered (⟨m, .acquire r⟩ :: past) other array ↔
      (¬ m.Refuses r ∧ other = r ∧ array = m.arrays.size) ∨
        (r.module = other.module ∧
          (m.Refuses r ∨ r.token.methodIndex ≠ other.token.methodIndex)) ∧
          Entered past other array := by
  rw [Entered, since_cons, fills_iff offered, displaces_iff offered, not_or, not_not, not_and_or,
    not_not]
  rfl

/-- A call that is no request enters nothing and removes nothing. -/
theorem entered_step (h : op.module? = none) :
    Entered (⟨m, op⟩ :: past) r array ↔ Entered past r array := by
  have hno (other : Request) : op ≠ .acquire other := by
    rintro rfl
    cases h
  have hfills : ¬ Event.Fills r array ⟨m, op⟩ := fun hfills => hno r hfills.asked
  have hdisplaces : ¬ Event.Displaces r ⟨m, op⟩ := fun ⟨other, hasked, _⟩ => hno other hasked
  rw [Entered, since_cons, or_iff_right hfills, and_iff_right hdisplaces]
  rfl

/-! ## The table behind a request -/

theorem find?_observe {registry : Registry} {module : ModuleId} {key : UInt32} :
    Assoc.find? key (registry.observe module).table = some array ↔
      registry.module? = some module ∧ Assoc.find? key registry.table = some array := by
  by_cases hmodule : registry.module? = some module
  · rw [observe_of_module hmodule, and_iff_right hmodule]
  · rw [table_observe_of_ne hmodule]
    exact iff_of_false nofun fun h => hmodule h.1

/-- **A request keeps the entries of its module**, except for one that it replaces. -/
theorem find?_acquire {key : UInt32} :
    Assoc.find? key (m.step (.acquire r)).registry.table = some array ↔
      (¬ m.Refuses r ∧ key = r.token.methodIndex ∧ array = m.arrays.size) ∨
        (m.registry.module? = some r.module ∧ (m.Refuses r ∨ key ≠ r.token.methodIndex)) ∧
          Assoc.find? key m.registry.table = some array := by
  by_cases hrefuses : m.Refuses r
  · rw [acquire_refused hrefuses]
    show Assoc.find? key (m.registry.observe r.module).table = some array ↔ _
    rw [find?_observe]
    simp only [hrefuses, not_true_eq_false, false_and, false_or, true_or, and_true]
  · have htable : (m.step (.acquire r)).registry.table =
        Registry.insertRow r.token.methodIndex m.arrays.size
          (m.registry.observe r.module).table := by
      rw [(acquire_granted hrefuses).2]
      rfl
    rw [htable, Registry.find?_insertRow]
    by_cases hkey : key = r.token.methodIndex
    · rw [if_pos hkey]
      simp only [hrefuses, hkey, ne_eq, not_true_eq_false, not_false_eq_true, true_and, or_self,
        and_false, false_and, or_false, Option.some.injEq, eq_comm]
    · rw [if_neg hkey, find?_observe]
      simp only [hrefuses, hkey, ne_eq, not_false_eq_true, false_and, and_false, false_or,
        or_true, and_true]

/-! ## Histories -/

/-- What holds of an array that a request has entered: the registry observes the module of the
request, the array has the length asked for, and it is in the slot. -/
structure Stands (m : Memory) (r : Request) (array : ArrayId) : Prop where
  module : m.registry.module? = some r.module
  made : array < m.arrays.size
  length : (m.cells array).length = r.length
  slot : m.slotArray? r.slot = some array

/-- A request that fills its slot makes its array stand. -/
theorem stands_of_granted (offered : m.Offers (.acquire r)) (h : ¬ m.Refuses r) :
    (m.step (.acquire r)).Stands r m.arrays.size := by
  have hslot : r.slot < (m.observed r.module).slots.size := offered
  rw [(acquire_granted h).2]
  refine ⟨rfl, ?_, ?_, ?_⟩
  · show m.arrays.size < (m.arrays.push _).size
    rw [Array.size_push]
    exact Nat.lt_succ_self _
  · exact (congrArg List.length ((cells_filled ..).trans (if_pos rfl))).trans List.length_replicate
  · rw [slotArray?_filled hslot, if_pos rfl]
    rfl

/-- It stands until a request for another module. -/
theorem Stands.step (h : m.Stands r array) (htidy : m.Tidy) (offered : m.Offers op)
    (hmodule : ∀ module, op.module? = some module → module = r.module) :
    (m.step op).Stands r array := by
  have hkeeps := Keeps.step htidy offered
  refine ⟨?_, Nat.lt_of_lt_of_le h.made hkeeps.size, (hkeeps.length array h.made).trans h.length,
    hkeeps.filled r.slot array h.slot⟩
  rw [module?_step]
  cases hop : op.module? with
  | none => exact h.module
  | some module => rw [hmodule module hop, Option.some_or]

namespace History

variable {limit : Nat}

/-- **What a request has entered stands** until it is removed. -/
theorem stands (h : History limit past m) (hentered : Entered past r array) :
    m.Stands r array := by
  induction h with
  | start => exact (not_since_nil hentered).elim
  | @step past m op before offered ih =>
    cases op with
    | acquire asked =>
      rcases (entered_acquire offered).1 hentered with
        ⟨hrefuses, rfl, rfl⟩ | ⟨⟨hmodule, -⟩, hentered⟩
      · exact stands_of_granted offered hrefuses
      · refine (ih hentered).step before.tidy offered ?_
        rintro module ⟨⟩
        exact hmodule
    | newSlot | newArray | install | mark | drain | flush =>
      exact (ih ((entered_step rfl).1 hentered)).step before.tidy offered nofun

/-- **An array is in the table if and only if a request has entered it** and no call has removed the
entry since. -/
theorem find?_iff (h : History limit past m) {key : UInt32} :
    Assoc.find? key m.registry.table = some array ↔
      ∃ r : Request, r.token.methodIndex = key ∧ Entered past r array := by
  induction h with
  | start => exact iff_of_false nofun fun ⟨_, _, hentered⟩ => not_since_nil hentered
  | @step past m op before offered ih =>
    cases op with
    | acquire asked =>
      rw [find?_acquire, ih]
      constructor
      · rintro (⟨hrefuses, rfl, rfl⟩ | ⟨⟨hmodule, hkey⟩, r, rfl, hentered⟩)
        · exact ⟨asked, rfl, (entered_acquire offered).2 (.inl ⟨hrefuses, rfl, rfl⟩)⟩
        · -- The registry observes the module of whatever is entered, so this is the request's.
          have hsame : asked.module = r.module :=
            Option.some.inj (hmodule.symm.trans (before.stands hentered).module)
          exact ⟨r, rfl, (entered_acquire offered).2
            (.inr ⟨⟨hsame, hkey.imp_right Ne.symm⟩, hentered⟩)⟩
      · rintro ⟨r, rfl, hentered⟩
        rcases (entered_acquire offered).1 hentered with
          ⟨hrefuses, rfl, rfl⟩ | ⟨⟨hmodule, hkey⟩, hentered⟩
        · exact .inl ⟨hrefuses, rfl, rfl⟩
        · refine .inr ⟨⟨?_, hkey.imp_right Ne.symm⟩, r, rfl, hentered⟩
          rw [hmodule]
          exact (before.stands hentered).module
    | newSlot | newArray | install | mark | drain | flush =>
      rw [registry_step rfl, ih]
      exact exists_congr fun r => and_congr_right fun _ => (entered_step rfl).symm

/-- The registry observes the module of the last request. -/
theorem module?_eq (h : History limit past m) :
    m.registry.module? = past.findSome? fun e => e.op.module? := by
  induction h with
  | start => rfl
  | step before offered ih =>
    rw [module?_step, ih, List.findSome?_cons]
    cases MemoryOp.module? _ <;> rfl

end History

/-- No array stands under two keys. -/
theorem Tidy.key_eq (h : m.Tidy) {key key' : UInt32}
    (hkey : Assoc.find? key m.registry.table = some array)
    (hkey' : Assoc.find? key' m.registry.table = some array) : key = key' := by
  rw [Registry.find?_eq_some_iff h.ordered] at hkey hkey'
  exact congrArg Prod.fst (List.inj_on_of_nodup_map h.apart hkey hkey' rfl)

/-- What a history says of the registry and the slots behind it. -/
structure Origins (limit : Nat) (past : List Event) (m : Memory) : Prop where
  limit_eq : m.registry.limit = limit
  /-- The registry observes the module of the last request. -/
  module?_eq : m.registry.module? = past.findSome? fun e => e.op.module?
  /-- An entry is the array with which the last request that has filled a slot for this key did so,
  unless there was a request for another module since. -/
  entry : ∀ key array, Assoc.find? key m.registry.table = some array ↔
    ∃ r : Request, r.token.methodIndex = key ∧ Entered past r array
  stands : ∀ r array, Entered past r array → m.Stands r array
  apart : ∀ key key' array, Assoc.find? key m.registry.table = some array →
    Assoc.find? key' m.registry.table = some array → key = key'
  /-- A slot that any earlier call found filled has the same array still. -/
  kept : ∀ e ∈ past, ∀ slot array, e.found.slotArray? slot = some array →
    m.slotArray? slot = some array
  /-- A request that is refused changes nothing, or starts the table anew if it is for another
  module. -/
  refused : ∀ r, m.Refuses r → (m.step (.acquire r)).slots = m.slots ∧
    (m.step (.acquire r)).arrays = m.arrays ∧
    (m.step (.acquire r)).registry =
      if m.registry.module? = some r.module then m.registry else ⟨limit, some ⟨r.module, []⟩⟩

/-- **Every entry of the registry has its origin in a request**, whatever the callers of the
registry did. -/
theorem History.entries_origin {limit : Nat} (h : History limit past m) : Origins limit past m := by
  refine ⟨h.limit_eq, h.module?_eq, fun key array => h.find?_iff, fun r array => h.stands,
    fun key key' array => h.tidy.key_eq, fun e he => (h.keeps he).2.filled, fun r hrefuses => ?_⟩
  rw [acquire_refused hrefuses, ← h.limit_eq]
  exact ⟨rfl, rfl, rfl⟩

/-- Requests of two modules that share a slot, collide, or ask for too much. -/
def requests : List MemoryOp :=
  [.newSlot, .newSlot, .newSlot, .newSlot, .acquire ⟨⟨0xA⟩, .ofRow 1, 0, 2⟩,
    .acquire ⟨⟨0xB⟩, .ofRow 1, 0, 2⟩, .acquire ⟨⟨0xB⟩, .ofRow 2, 1, 1⟩,
    .acquire ⟨⟨0xB⟩, ⟨0x2b000002⟩, 2, 3⟩, .mark 2 0, .acquire ⟨⟨0xB⟩, .ofRow 3, 3, 9⟩]

/-- The registry behind these requests, and where its entry comes from. -/
theorem requests_origin : ∃ past m, History 8 past m ∧
    m.registry = ⟨8, some ⟨⟨0xB⟩, [(2, 2)]⟩⟩ ∧ Origins 8 past m := by
  have hrun : (history? 8 requests.reverse).map (fun h => h.2.registry) =
      some ⟨8, some ⟨⟨0xB⟩, [(2, 2)]⟩⟩ := by decide
  obtain ⟨⟨past, m⟩, hhistory, hregistry⟩ := Option.map_eq_some_iff.1 hrun
  have h : History 8 past m := history_of_history? hhistory
  exact ⟨past, m, h, hregistry, h.entries_origin⟩

end SpanCoverage.Memory
