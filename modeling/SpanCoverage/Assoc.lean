/-!
# Association lists

A finite map as a list of pairs with at most one pair per key, in the order in which the keys came.
Main statements: `get?_set_self` and `get?_set_of_ne`, which say what a write does to every read.
-/

namespace SpanCoverage

/-- A finite map, its pairs in order of first insertion. -/
structure Assoc (κ α : Type) where
  entries : List (κ × α) := []
deriving Repr

namespace Assoc

variable {κ α : Type} [DecidableEq κ]

/-- The first value that a list of pairs holds for a key. -/
def find? (key : κ) : List (κ × α) → Option α
  | [] => none
  | (k, a) :: rest => if k = key then some a else find? key rest

/-- The list with the key's first pair replaced, or with a new pair at its end. -/
def put (key : κ) (value : α) : List (κ × α) → List (κ × α)
  | [] => [(key, value)]
  | (k, a) :: rest => if k = key then (key, value) :: rest else (k, a) :: put key value rest

/-- The value under a key. -/
def get? (m : Assoc κ α) (key : κ) : Option α := find? key m.entries

/-- The map with one key's value replaced or added. -/
def set (m : Assoc κ α) (key : κ) (value : α) : Assoc κ α := ⟨put key value m.entries⟩

/-- The number of keys. -/
def size (m : Assoc κ α) : Nat := m.entries.length

@[simp] theorem get?_nil (key : κ) : (⟨[]⟩ : Assoc κ α).get? key = none := rfl

/-- The key written reads back. -/
@[simp] theorem get?_set_self (m : Assoc κ α) (key : κ) (value : α) :
    (m.set key value).get? key = some value := by
  obtain ⟨entries⟩ := m
  simp only [get?, set]
  induction entries with
  | nil => simp [put, find?]
  | cons e rest ih => by_cases h : e.1 = key <;> simp [put, find?, h, ih]

/-- Every other key reads as before. -/
theorem get?_set_of_ne (m : Assoc κ α) {key other : κ} (value : α) (h : other ≠ key) :
    (m.set key value).get? other = m.get? other := by
  obtain ⟨entries⟩ := m
  simp only [get?, set]
  induction entries with
  | nil => simp [put, find?, h.symm]
  | cons e rest ih =>
    by_cases hk : e.1 = key
    · simp [put, find?, hk, h.symm]
    · by_cases ho : e.1 = other
      · subst ho; simp [put, find?, hk]
      · simp [put, find?, hk, ho, ih]

/-- What one write does to every read. -/
theorem get?_set (m : Assoc κ α) (key other : κ) (value : α) :
    (m.set key value).get? other = if other = key then some value else m.get? other := by
  by_cases h : other = key
  · subst h; simp
  · simp [h, get?_set_of_ne m value h]

end Assoc

end SpanCoverage
