import SpanCoverage.Payload.Memory

/-!
# Histories of payload memory

The callers of one registry make slots and arrays, request the arrays of units, fill slots by hand,
visit and drain arrays, and flush, in any order. A `MemoryOp` is one such call, and a
`Memory.Event` is a call together with the memory that it found. `Memory.History` lists
the events that led from a registry without a module to a memory, the latest first. `Since` speaks
of the last event of a kind.
-/

namespace SpanCoverage

/-- What a unit asks for: an array of a length in a slot, to be registered under a token. -/
structure Request where
  module : ModuleId
  token : MethodToken
  slot : SlotId
  length : Nat
deriving DecidableEq, Repr

/-- A call on payload memory. -/
inductive MemoryOp where
  | newSlot
  /-- Makes an array that no slot holds, within a limit of the caller's own. -/
  | newArray (length limit : Nat)
  | acquire (request : Request)
  | install (slot : SlotId) (array : ArrayId)
  | mark (array : ArrayId) (index : Nat)
  | drain (array : ArrayId)
  | flush
deriving DecidableEq, Repr

/-- The module that a call is for. -/
def MemoryOp.module? : MemoryOp → Option ModuleId
  | .acquire request => some request.module
  | .newSlot | .newArray .. | .install .. | .mark .. | .drain _ | .flush => none

namespace Memory

/-- The slots and arrays that a call names are there. -/
def Offers (m : Memory) : MemoryOp → Prop
  | .newSlot | .newArray .. | .flush => True
  | .acquire request => request.slot < m.slots.size
  | .install slot array => slot < m.slots.size ∧ array < m.arrays.size
  | .mark array _ | .drain array => array < m.arrays.size

/-- The memory behind a call. -/
def step (m : Memory) : MemoryOp → Memory
  | .newSlot => m.newSlot.2
  | .newArray length limit =>
    match freshCells length limit with
    | .ok cells => (m.newArray cells).2
    | .error _ => m
  | .acquire request => m.acquire request.module request.token request.slot request.length
  | .install slot array => m.install slot array
  | .mark array index => m.mark array index
  | .drain array => (m.drain array).2
  | .flush => m.flush.2

/-- A call, with the memory that it found. -/
structure Event where
  found : Memory
  op : MemoryOp

/-- The memory that the call left. -/
def Event.left (e : Event) : Memory := e.found.step e.op

/-- The events that led to a memory whose registry has this limit, the latest event first. -/
inductive History (limit : Nat) : List Event → Memory → Prop
  | start : History limit [] (withLimit limit)
  | step {past : List Event} {m : Memory} {op : MemoryOp} (before : History limit past m)
    (offered : m.Offers op) : History limit (⟨m, op⟩ :: past) (m.step op)

instance (m : Memory) : (op : MemoryOp) → Decidable (m.Offers op)
  | .newSlot | .newArray .. | .flush => inferInstanceAs (Decidable True)
  | .acquire request => inferInstanceAs (Decidable (request.slot < m.slots.size))
  | .install slot array =>
    inferInstanceAs (Decidable (slot < m.slots.size ∧ array < m.arrays.size))
  | .mark array _ | .drain array => inferInstanceAs (Decidable (array < m.arrays.size))

/-- The events of these calls, the latest first, and the memory behind them, unless a call names
what is not there. -/
def history? (limit : Nat) : List MemoryOp → Option (List Event × Memory)
  | [] => some ([], withLimit limit)
  | op :: earlier => do
    let (past, m) ← history? limit earlier
    if m.Offers op then some (⟨m, op⟩ :: past, m.step op) else none

/-- **Calls that find what they name are a history.** -/
theorem history_of_history? {limit : Nat} {calls : List MemoryOp} {past : List Event} {m : Memory}
    (h : history? limit calls = some (past, m)) : History limit past m := by
  induction calls generalizing past m with
  | nil =>
    cases h
    exact .start
  | cons op earlier ih =>
    simp only [history?, Option.bind_eq_bind, Option.bind_eq_some_iff, Prod.exists] at h
    obtain ⟨past', m', hearlier, hop⟩ := h
    by_cases hoffers : m'.Offers op
    · rw [if_pos hoffers] at hop
      cases hop
      exact .step (ih hearlier) hoffers
    · rw [if_neg hoffers] at hop
      cases hop

end Memory

/-! ## Last events -/

/-- There was an event of one kind, and no event of another kind since. -/
def Since {ε : Type} (p q : ε → Prop) (past : List ε) : Prop :=
  ∃ later e earlier, past = later ++ e :: earlier ∧ p e ∧ ∀ e' ∈ later, ¬ q e'

section Since

variable {ε : Type} {p q : ε → Prop} {past : List ε}

@[simp] theorem not_since_nil : ¬ Since p q [] := by
  rintro ⟨later, e, earlier, hpast, -⟩
  exact List.append_ne_nil_of_right_ne_nil later (List.cons_ne_nil e earlier) hpast.symm

/-- The event is the latest one, or the latest one is none of those that may not come since. -/
theorem since_cons {e : ε} : Since p q (e :: past) ↔ p e ∨ ¬ q e ∧ Since p q past := by
  constructor
  · rintro ⟨later, first, earlier, hpast, hfirst, hlater⟩
    cases later with
    | nil =>
      cases hpast
      exact .inl hfirst
    | cons last later =>
      cases hpast
      obtain ⟨hlast, hrest⟩ := List.forall_mem_cons.1 hlater
      exact .inr ⟨hlast, later, first, earlier, rfl, hfirst, hrest⟩
  · rintro (he | ⟨he, later, first, earlier, rfl, hfirst, hlater⟩)
    · exact ⟨[], e, past, rfl, he, fun _ h => (List.not_mem_nil h).elim⟩
    · exact ⟨e :: later, first, earlier, rfl, hfirst, List.forall_mem_cons.2 ⟨he, hlater⟩⟩

theorem Since.exists_mem (h : Since p q past) : ∃ e ∈ past, p e := by
  obtain ⟨later, e, earlier, rfl, he, -⟩ := h
  exact ⟨e, List.mem_append_right later List.mem_cons_self, he⟩

end Since

end SpanCoverage
