import SpanCoverage.Assoc
import SpanCoverage.Host.Value

/-!
# The heap of scopes

All scopes of a process live in one heap, so that closures, recursive calls and machines can share
them. A scope knows the scopes around it; a variable belongs to the nearest of them that binds it.
Main statement: `binding?_bindIn`, which says what a write in one scope does to the bindings of
every scope.
-/

namespace SpanCoverage.Host

/-- The variables of a scope. -/
abbrev Bindings := Assoc String Value

/-- The scopes of a process and the number of closures made in it. -/
structure Heap where
  scopes : Array Bindings := #[]
  closures : Nat := 0
deriving Repr

/-- The scope itself and the scopes around it, innermost first. -/
def Scope.chain (s : Scope) : List Nat := s.id :: s.outer

namespace Heap

/-- The value that one scope binds a name to. -/
def binding? (h : Heap) (id : Nat) (name : String) : Option Value :=
  (h.scopes.getD id {}).get? name

/-- A new scope without variables, inside another one or on its own. -/
def newScope (h : Heap) (outer : Option Scope) : Scope × Heap :=
  let around := match outer with
    | some s => s.chain
    | none => []
  (⟨h.scopes.size, around⟩, { h with scopes := h.scopes.push {} })

/-- A new closure over a scope. -/
def newClosure (h : Heap) (token : MethodToken) (scope : Scope) : Closure × Heap :=
  (⟨h.closures, token, scope⟩, { h with closures := h.closures + 1 })

/-- The first scope of a list that binds a name. -/
def binder? (h : Heap) (name : String) (ids : List Nat) : Option Nat :=
  ids.find? fun id => (h.binding? id name).isSome

/-- The value of a variable: that of the nearest scope that binds it. -/
def lookup (h : Heap) (scope : Scope) (name : String) : Option Value :=
  (h.binder? name scope.chain).bind fun id => h.binding? id name

/-- Binds a name in one scope of the heap. -/
def bindIn (h : Heap) (id : Nat) (name : String) (value : Value) : Heap :=
  { h with scopes := h.scopes.modify id (·.set name value) }

/-- Binds a name in a scope itself, whatever the scopes around it bind. -/
def define (h : Heap) (scope : Scope) (name : String) (value : Value) : Heap :=
  h.bindIn scope.id name value

/-- Writes a variable: in the nearest scope that binds it, or in the scope itself if none does. -/
def assign (h : Heap) (scope : Scope) (name : String) (value : Value) : Heap :=
  h.bindIn ((h.binder? name scope.chain).getD scope.id) name value

/-- Binds parameters to arguments, from the first on. -/
def defineAll (h : Heap) (scope : Scope) : List String → List Value → Heap
  | param :: params, arg :: args => (h.define scope param arg).defineAll scope params args
  | _, _ => h

/-- What a write in one scope does to the bindings of every scope. -/
theorem binding?_bindIn (h : Heap) (id other : Nat) (name x : String) (value : Value)
    (hid : id < h.scopes.size) :
    (h.bindIn id name value).binding? other x =
      if other = id ∧ x = name then some value else h.binding? other x := by
  simp only [binding?, bindIn, Array.getD_eq_getD_getElem?, Array.getElem?_modify]
  by_cases ho : id = other
  · subst ho
    rw [Array.getElem?_eq_getElem hid]
    simp [Assoc.get?_set]
  · have ho' : other ≠ id := fun e => ho e.symm
    simp [ho, ho']

end Heap

end SpanCoverage.Host
