import SpanCoverage.Program.Expr
import SpanCoverage.SourceRange

/-!
# Control flow of lowered programs

A unit's body is a tree of structured nodes: statements, sequences, branches, loops, switches,
`try` blocks, guarded scopes, labels, and the boundaries of units nested in it. Injection adds two
forms, `probe` and `acquire`. `Node.induct` is the induction principle for proofs on nodes.

Each node has a **site**: its ordinal in the pre-order of its unit's tree, where a nested unit
counts as one node and is not entered. `siteCount` is the number of sites in a node's subtree, so
the children's sites follow from the parent's.
-/

namespace SpanCoverage

/-! ## Types -/

/-- What kind of body a unit is. -/
inductive UnitKind where
  | method
  | lambda
  | localFunction
  /-- One step of a lowered asynchronous or iterator state machine. -/
  | stateMachineStep
deriving DecidableEq, Repr

/-- All that is known of a unit but its body. -/
structure UnitHeader where
  token : MethodToken
  name : String
  kind : UnitKind := .method
  params : List String := []
  range : SourceRange
deriving DecidableEq, Repr

/-- What a node without parts does. -/
inductive Stmt where
  /-- Writes a variable; a variable not yet known becomes one of the current scope. -/
  | assign (name : String) (value : Expr)
  /-- Evaluates an expression for its effects. -/
  | eval (value : Expr)
  /-- Writes a value to the program's output. -/
  | print (value : Expr)
  | skip
  /-- Continues at a label of an enclosing sequence. -/
  | goto (label : String)
  /-- Leaves the nearest loop or switch: `break`. -/
  | leave
  /-- Goes on with the next round of the nearest loop: `continue`. -/
  | next
  /-- Ends the unit: `return`. -/
  | ret (value : Option Expr)
  /-- Raises an exception: `throw`. -/
  | raise (value : Expr)

/-- When a loop evaluates its condition. -/
inductive TestTime where
  /-- Before each round, as `while` and `for` do. -/
  | before
  /-- After each round, as `do` does. -/
  | after
deriving DecidableEq, Repr

/-- What a guarded scope does with its resource. -/
inductive GuardKind where
  | lock
  | using
deriving DecidableEq, Repr

mutual

/-- A node of a unit's control flow. -/
inductive Node where
  | stmt (action : Stmt) (range : SourceRange)
  | seq (children : List Node)
  | branch (cond : Expr) (thenPart : Node) (elsePart : Option Node) (range : SourceRange)
  | loop (test : TestTime) (init : Option Node) (cond : Expr) (update : Option Node) (body : Node)
    (range : SourceRange)
  | switch (value : Expr) (arms : List Arm) (range : SourceRange)
  | attempt (body : Node) (handlers : List Handler) (cleanup : Option Node) (range : SourceRange)
  | guarded (kind : GuardKind) (resource : Expr) (body : Node) (range : SourceRange)
  /-- A jump target; it belongs directly in a sequence. -/
  | label (name : String) (range : SourceRange)
  /-- The boundary of a unit that is compiled on its own. -/
  | nested (header : UnitHeader) (root : Node)
  /-- Marks a span as visited; only injection makes this form. -/
  | probe (span : Nat)
  /-- Creates the unit's payload if it has none yet; only injection makes this form. -/
  | acquire

/-- One arm of a switch. The arm without a case is the default. -/
structure Arm where
  case : Option Constant
  body : Node
  range : SourceRange

/-- One `catch` clause, with the variable that takes the exception's value. -/
structure Handler where
  binding : Option String
  body : Node
  range : SourceRange

end

/-- One independently invocable body. -/
structure CodeUnit extends UnitHeader where
  root : Node

/-- The top-level units of one compilation. -/
structure Program where
  name : String
  units : List CodeUnit := []

/-! ## Kinds -/

namespace UnitKind

/-- Every kind of unit. -/
def all : List UnitKind := [.method, .lambda, .localFunction, .stateMachineStep]

/-- The kind in a listing. -/
def text : UnitKind → String
  | .method => "method"
  | .lambda => "lambda"
  | .localFunction => "local"
  | .stateMachineStep => "step"

/-- The kind in a coverage map. -/
def longName : UnitKind → String
  | .method => "method"
  | .lambda => "lambda"
  | .localFunction => "local_function"
  | .stateMachineStep => "state_machine_step"

end UnitKind

/-! ## Trees -/

namespace Stmt

/-- Whether an expression of the statement holds a probe. -/
def hasProbe : Stmt → Bool
  | .assign _ e | .eval e | .print e | .raise e => e.hasProbe
  | .ret value => value.any Expr.hasProbe
  | .skip | .goto _ | .leave | .next => false

/-- Whether control goes on behind the statement. -/
def fallsThrough : Stmt → Bool
  | .assign .. | .eval _ | .print _ | .skip => true
  | .goto _ | .leave | .next | .ret _ | .raise _ => false

end Stmt

namespace Node

/-- Induction on nodes, with a hypothesis for every child, also for the roots of nested units. -/
theorem induct {motive : Node → Prop} (stmt : ∀ s r, motive (.stmt s r))
    (seq : ∀ ns, (∀ n ∈ ns, motive n) → motive (.seq ns))
    (branch : ∀ c t e r, motive t → (∀ n ∈ e, motive n) → motive (.branch c t e r))
    (loop : ∀ k i c u b r, (∀ n ∈ i, motive n) → (∀ n ∈ u, motive n) → motive b →
      motive (.loop k i c u b r))
    (switch : ∀ v as r, (∀ a ∈ as, motive a.body) → motive (.switch v as r))
    (attempt : ∀ b hs f r, motive b → (∀ h ∈ hs, motive h.body) → (∀ n ∈ f, motive n) →
      motive (.attempt b hs f r))
    (guarded : ∀ k e b r, motive b → motive (.guarded k e b r))
    (label : ∀ l r, motive (.label l r)) (nested : ∀ h b, motive b → motive (.nested h b))
    (probe : ∀ i, motive (.probe i)) (acquire : motive .acquire) (n : Node) : motive n :=
  Node.rec (motive_1 := motive) (motive_2 := fun a => motive a.body)
    (motive_3 := fun h => motive h.body) (motive_4 := fun ns => ∀ n ∈ ns, motive n)
    (motive_5 := fun e => ∀ n ∈ e, motive n) (motive_6 := fun as => ∀ a ∈ as, motive a.body)
    (motive_7 := fun hs => ∀ h ∈ hs, motive h.body)
    stmt seq branch loop switch attempt guarded label nested probe acquire
    (fun _ _ _ h => h) (fun _ _ _ h => h)
    (by simp) (fun n ns hn hns => by simpa using ⟨hn, hns⟩)
    (by simp) (fun n h => by simpa using h)
    (by simp) (fun a as ha has => by simpa using ⟨ha, has⟩)
    (by simp) (fun h hs hh hhs => by simpa using ⟨hh, hhs⟩) n

/-- Whether the node is the label of this name. -/
def isLabel (name : String) : Node → Bool
  | .label l _ => l == name
  | _ => false

/-! ### Source ranges -/

mutual

/-- The range of source text that a node covers. A sequence covers what its children cover; the
injected forms cover nothing. -/
def range : Node → SourceRange
  | .stmt _ r | .branch _ _ _ r | .loop _ _ _ _ _ r | .switch _ _ r | .attempt _ _ _ r
  | .guarded _ _ _ r | .label _ r => r
  | .nested header _ => header.range
  | .seq children => coverAll .none children
  | .probe _ | .acquire => .none

/-- The range covered by a range and by each node of a list, from the first on. -/
def coverAll (r : SourceRange) : List Node → SourceRange
  | [] => r
  | n :: ns => coverAll (r.cover n.range) ns

end

/-- The node with another range of its own. Sequences and the injected forms have none. -/
def setRange (r : SourceRange) : Node → Node
  | .stmt s _ => .stmt s r
  | .branch c t e _ => .branch c t e r
  | .loop k i c u b _ => .loop k i c u b r
  | .switch v as _ => .switch v as r
  | .attempt b hs f _ => .attempt b hs f r
  | .guarded k e b _ => .guarded k e b r
  | .label l _ => .label l r
  | .nested header root => .nested { header with range := r } root
  | .seq children => .seq children
  | .probe span => .probe span
  | .acquire => .acquire

/-! ### Sites -/

mutual

/-- The number of sites in the node's subtree, itself included; a nested unit counts as one. -/
def siteCount : Node → Nat
  | .seq children => 1 + siteCountAll children
  | .branch _ t e _ => 1 + t.siteCount + siteCount? e
  | .loop _ i _ u b _ =>
    1 + siteCount? i + b.siteCount + siteCount? u
  | .switch _ arms _ => 1 + siteCountArms arms
  | .attempt b handlers f _ =>
    1 + b.siteCount + siteCountHandlers handlers + siteCount? f
  | .guarded _ _ b _ => 1 + b.siteCount
  | .stmt .. | .label .. | .nested .. | .probe _ | .acquire => 1

/-- The number of sites in a list of nodes. -/
def siteCountAll : List Node → Nat
  | [] => 0
  | n :: ns => n.siteCount + siteCountAll ns

/-- The number of sites of a child that may be missing. -/
def siteCount? : Option Node → Nat
  | some n => n.siteCount
  | none => 0

/-- The number of sites in the bodies of switch arms. -/
def siteCountArms : List Arm → Nat
  | [] => 0
  | ⟨_, body, _⟩ :: arms => body.siteCount + siteCountArms arms

/-- The number of sites in the bodies of handlers. -/
def siteCountHandlers : List Handler → Nat
  | [] => 0
  | ⟨_, body, _⟩ :: handlers => body.siteCount + siteCountHandlers handlers

end

/-- Every node has a site of its own. -/
theorem siteCount_pos (n : Node) : 0 < n.siteCount := by
  cases n <;> simp only [siteCount] <;> omega

/-! ### Nested units -/

mutual

/-- The units whose boundaries lie in the node's tree, without entering them, in pre-order; a
loop's update comes after its body. -/
def directUnits : Node → List CodeUnit
  | .nested header root => [⟨header, root⟩]
  | .seq children => directUnitsAll children
  | .branch _ t e _ => t.directUnits ++ directUnits? e
  | .loop _ i _ u b _ =>
    directUnits? i ++ b.directUnits ++ directUnits? u
  | .switch _ arms _ => directUnitsArms arms
  | .attempt b handlers f _ =>
    b.directUnits ++ directUnitsHandlers handlers ++ directUnits? f
  | .guarded _ _ b _ => b.directUnits
  | .stmt .. | .label .. | .probe _ | .acquire => []

/-- The direct units of a list of nodes. -/
def directUnitsAll : List Node → List CodeUnit
  | [] => []
  | n :: ns => n.directUnits ++ directUnitsAll ns

/-- The direct units of a child that may be missing. -/
def directUnits? : Option Node → List CodeUnit
  | some n => n.directUnits
  | none => []

/-- The direct units of switch arms. -/
def directUnitsArms : List Arm → List CodeUnit
  | [] => []
  | ⟨_, body, _⟩ :: arms => body.directUnits ++ directUnitsArms arms

/-- The direct units of handlers. -/
def directUnitsHandlers : List Handler → List CodeUnit
  | [] => []
  | ⟨_, body, _⟩ :: handlers => body.directUnits ++ directUnitsHandlers handlers

end

mutual

/-- The units nested in the node at any depth, each before those nested in it. -/
def allUnits : Node → List CodeUnit
  | .nested header root => ⟨header, root⟩ :: root.allUnits
  | .seq children => allUnitsAll children
  | .branch _ t e _ => t.allUnits ++ allUnits? e
  | .loop _ i _ u b _ =>
    allUnits? i ++ b.allUnits ++ allUnits? u
  | .switch _ arms _ => allUnitsArms arms
  | .attempt b handlers f _ =>
    b.allUnits ++ allUnitsHandlers handlers ++ allUnits? f
  | .guarded _ _ b _ => b.allUnits
  | .stmt .. | .label .. | .probe _ | .acquire => []

/-- The units nested in a list of nodes. -/
def allUnitsAll : List Node → List CodeUnit
  | [] => []
  | n :: ns => n.allUnits ++ allUnitsAll ns

/-- The units nested in a child that may be missing. -/
def allUnits? : Option Node → List CodeUnit
  | some n => n.allUnits
  | none => []

/-- The units nested in switch arms. -/
def allUnitsArms : List Arm → List CodeUnit
  | [] => []
  | ⟨_, body, _⟩ :: arms => body.allUnits ++ allUnitsArms arms

/-- The units nested in handlers. -/
def allUnitsHandlers : List Handler → List CodeUnit
  | [] => []
  | ⟨_, body, _⟩ :: handlers => body.allUnits ++ allUnitsHandlers handlers

end

end Node

namespace CodeUnit

/-- The unit and every unit nested in it, parents first. -/
def all (u : CodeUnit) : List CodeUnit := u :: u.root.allUnits

/-- The units nested in a node at any depth are its direct units, each with those nested in it. -/
theorem allUnits_eq (n : Node) : n.allUnits = n.directUnits.flatMap all := by
  have option (e : Option Node) (h : ∀ n ∈ e, n.allUnits = n.directUnits.flatMap all) :
      Node.allUnits? e = (Node.directUnits? e).flatMap all := by
    cases e with
    | none => rfl
    | some n => exact h n rfl
  induction n using Node.induct with
  | stmt | label | probe | acquire => rfl
  | seq ns ih =>
    simp only [Node.allUnits, Node.directUnits]
    induction ns with
    | nil => rfl
    | cons n ns ihs =>
      simp only [List.mem_cons, forall_eq_or_imp] at ih
      simp [Node.allUnitsAll, Node.directUnitsAll, ih.1, ihs ih.2]
  | branch c t e r ht he => simp [Node.allUnits, Node.directUnits, ht, option e he]
  | loop k i c u b r hi hu hb =>
    simp [Node.allUnits, Node.directUnits, hb, option i hi, option u hu]
  | switch v as r ih =>
    simp only [Node.allUnits, Node.directUnits]
    induction as with
    | nil => rfl
    | cons a as ihs =>
      obtain ⟨case, body, range⟩ := a
      simp only [List.mem_cons, forall_eq_or_imp] at ih
      simp [Node.allUnitsArms, Node.directUnitsArms, ih.1, ihs ih.2]
  | attempt b hs f r hb hhs hf =>
    simp only [Node.allUnits, Node.directUnits, hb, option f hf, List.flatMap_append]
    congr 2
    induction hs with
    | nil => rfl
    | cons a hs ihs =>
      obtain ⟨binding, body, range⟩ := a
      simp only [List.mem_cons, forall_eq_or_imp] at hhs
      simp [Node.allUnitsHandlers, Node.directUnitsHandlers, hhs.1, ihs hhs.2]
  | guarded k e b r hb => exact hb
  | nested h b hb => simp [Node.allUnits, Node.directUnits, all]

end CodeUnit

/-- Every unit of the program, each before those nested in it. -/
def Program.allUnits (p : Program) : List CodeUnit := p.units.flatMap CodeUnit.all

end SpanCoverage
