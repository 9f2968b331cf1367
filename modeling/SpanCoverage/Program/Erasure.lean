import SpanCoverage.Program.Instructions

/-!
# Erasing from a tree

An `Eraser` picks nodes that go and says what becomes of the expressions. `Node.erase` applies it to
a whole tree: a picked node disappears from a sequence, and anywhere else an empty sequence takes
its place. A nested unit that is not picked stays as it is. `Node.flatten` spells every block as one
sequence without sequences among its children, so that two trees with the same nodes in the same
order are one tree.
-/

namespace SpanCoverage

/-! ## Expressions -/

namespace Expr

mutual

/-- The expression without its probes. -/
def unprobed : Expr → Expr
  | .probed _ e => e.unprobed
  | .unary op e => .unary op e.unprobed
  | .binary op l r => .binary op l.unprobed r.unprobed
  | .call f args => .call f.unprobed (unprobedAll args)
  | .const value => .const value
  | .var name => .var name
  | .function unit => .function unit
  | .closure unit => .closure unit

/-- The arguments of a call without their probes. -/
def unprobedAll : List Expr → List Expr
  | [] => []
  | e :: es => e.unprobed :: unprobedAll es

end

/-- There is nothing to take out of an expression without instructions. -/
theorem unprobed_eq_self (e : Expr) : e.instructions = [] → e.unprobed = e := by
  induction e using Expr.induct with
  | const | var | function | closure => exact fun _ => rfl
  | unary op e ih => exact fun h => congrArg (Expr.unary op) (ih h)
  | binary op l r ihl ihr =>
    intro h
    obtain ⟨hl, hr⟩ := List.append_eq_nil_iff.1 h
    rw [unprobed, ihl hl, ihr hr]
  | call f args ihf ihargs =>
    intro h
    obtain ⟨hf, hargs⟩ := List.append_eq_nil_iff.1 h
    have rest : unprobedAll args = args := by
      clear h
      induction args with
      | nil => rfl
      | cons a args ih =>
        obtain ⟨ha, hargs⟩ := List.append_eq_nil_iff.1 hargs
        simp only [List.mem_cons, forall_eq_or_imp] at ihargs
        rw [unprobedAll, ihargs.1 ha, ih ihargs.2 hargs]
    rw [unprobed, ihf hf, rest]
  | probed span e => intro h; cases h

end Expr

namespace Stmt

/-- The statement with other expressions. -/
def mapExprs (f : Expr → Expr) : Stmt → Stmt
  | .assign name e => .assign name (f e)
  | .eval e => .eval (f e)
  | .print e => .print (f e)
  | .skip => .skip
  | .goto l => .goto l
  | .leave => .leave
  | .next => .next
  | .ret value => .ret (value.map f)
  | .raise e => .raise (f e)

@[simp] theorem mapExprs_id (s : Stmt) : s.mapExprs id = s := by
  cases s with
  | ret value => simp [mapExprs]
  | assign | eval | print | skip | goto | leave | next | raise => rfl

/-- There is nothing to take out of a statement without instructions. -/
theorem mapExprs_unprobed {s : Stmt} (h : s.instructions = []) :
    s.mapExprs Expr.unprobed = s := by
  cases s with
  | assign _ e | eval e | print e | raise e => rw [mapExprs, Expr.unprobed_eq_self e h]
  | ret value =>
    cases value with
    | none => rfl
    | some e => rw [mapExprs, Option.map_some, Expr.unprobed_eq_self e h]
  | skip | goto | leave | next => rfl

end Stmt

/-! ## Erasers -/

/-- What to take out of a tree. -/
structure Eraser where
  /-- Whether a node goes. -/
  picks : Node → Bool
  /-- What an expression becomes. -/
  onExpr : Expr → Expr

namespace Node

/-- Whether the node is the boundary of a nested unit. -/
def isBoundary : Node → Bool
  | .nested .. => true
  | _ => false

/-- Whether the node is one that only injection makes. -/
def isInjected : Node → Bool
  | .probe _ | .acquire => true
  | _ => false

end Node

/-- Takes out the boundaries of nested units. -/
def Eraser.boundaries : Eraser := ⟨Node.isBoundary, id⟩

/-- Takes out all that injection adds: probes, the creation of payloads, and the probes around
expressions. -/
def Eraser.injected : Eraser := ⟨Node.isInjected, Expr.unprobed⟩

namespace Node

/-- What stands in a place of its own for a node that may be picked. -/
def vacate (x : Eraser) (n erased : Node) : Node :=
  if x.picks n then .seq [] else erased

mutual

/-- The node without what is picked below it. -/
def eraseBelow (x : Eraser) : Node → Node
  | .stmt s r => .stmt (s.mapExprs x.onExpr) r
  | .seq children => .seq (eraseAll x children)
  | .branch c t e r => .branch (x.onExpr c) (vacate x t (eraseBelow x t)) (erase? x e) r
  | .loop k i c u b r =>
    .loop k (erase? x i) (x.onExpr c) (erase? x u) (vacate x b (eraseBelow x b)) r
  | .switch v arms r => .switch (x.onExpr v) (eraseArms x arms) r
  | .attempt b handlers f r =>
    .attempt (vacate x b (eraseBelow x b)) (eraseHandlers x handlers) (erase? x f) r
  | .guarded k e b r => .guarded k (x.onExpr e) (vacate x b (eraseBelow x b)) r
  | .label l r => .label l r
  | .nested header root => .nested header root
  | .probe span => .probe span
  | .acquire => .acquire

/-- The children of a sequence that are not picked, without what is picked below them. -/
def eraseAll (x : Eraser) : List Node → List Node
  | [] => []
  | n :: ns => if x.picks n then eraseAll x ns else eraseBelow x n :: eraseAll x ns

/-- A block that may be missing, without what is picked. -/
def erase? (x : Eraser) : Option Node → Option Node
  | some n => some (vacate x n (eraseBelow x n))
  | none => none

/-- Switch arms without what is picked. -/
def eraseArms (x : Eraser) : List Arm → List Arm
  | [] => []
  | ⟨case, body, range⟩ :: arms =>
    ⟨case, vacate x body (eraseBelow x body), range⟩ :: eraseArms x arms

/-- Handlers without what is picked. -/
def eraseHandlers (x : Eraser) : List Handler → List Handler
  | [] => []
  | ⟨binding, body, range⟩ :: handlers =>
    ⟨binding, vacate x body (eraseBelow x body), range⟩ :: eraseHandlers x handlers

end

/-- A tree without what is picked. -/
def erase (x : Eraser) (n : Node) : Node := vacate x n (eraseBelow x n)

/-! ## Flattening -/

mutual

/-- The nodes that stand for the node in a sequence without sequences among its children. -/
def flat : Node → List Node
  | .seq children => flatAll children
  | .branch c t e r => [.branch c (.seq t.flat) (flatten? e) r]
  | .loop k i c u b r => [.loop k (flatten? i) c (flatten? u) (.seq b.flat) r]
  | .switch v arms r => [.switch v (flattenArms arms) r]
  | .attempt b handlers f r =>
    [.attempt (.seq b.flat) (flattenHandlers handlers) (flatten? f) r]
  | .guarded k e b r => [.guarded k e (.seq b.flat) r]
  | .stmt s r => [.stmt s r]
  | .label l r => [.label l r]
  | .nested header root => [.nested header root]
  | .probe span => [.probe span]
  | .acquire => [.acquire]

/-- The nodes that stand for the children of a sequence. -/
def flatAll : List Node → List Node
  | [] => []
  | n :: ns => n.flat ++ flatAll ns

/-- A block that may be missing, as one sequence. -/
def flatten? : Option Node → Option Node
  | some n => some (.seq n.flat)
  | none => none

/-- Switch arms, the body of each as one sequence. -/
def flattenArms : List Arm → List Arm
  | [] => []
  | ⟨case, body, range⟩ :: arms => ⟨case, .seq body.flat, range⟩ :: flattenArms arms

/-- Handlers, the body of each as one sequence. -/
def flattenHandlers : List Handler → List Handler
  | [] => []
  | ⟨binding, body, range⟩ :: handlers =>
    ⟨binding, .seq body.flat, range⟩ :: flattenHandlers handlers

end

/-- The node as one sequence, and so every block in it, without sequences among the children. -/
def flatten (n : Node) : Node := .seq n.flat

@[simp] theorem flatAll_append (ns ms : List Node) :
    flatAll (ns ++ ms) = flatAll ns ++ flatAll ms := by
  induction ns with
  | nil => rfl
  | cons n ns ih => rw [List.cons_append, flatAll, ih, flatAll, List.append_assoc]

/-- A child leaves in a sequence what it leaves as a block, which is nothing if it is picked. -/
theorem flatAll_eraseAll_cons (x : Eraser) (n : Node) (ns : List Node) :
    flatAll (eraseAll x (n :: ns)) = (n.erase x).flat ++ flatAll (eraseAll x ns) := by
  rw [eraseAll, erase, vacate]
  split
  · rfl
  · rfl

theorem flatAll_eraseAll_singleton (x : Eraser) (n : Node) :
    flatAll (eraseAll x [n]) = (n.erase x).flat :=
  (flatAll_eraseAll_cons x n []).trans (List.append_nil _)

@[simp] theorem eraseAll_append (x : Eraser) (ns ms : List Node) :
    eraseAll x (ns ++ ms) = eraseAll x ns ++ eraseAll x ms := by
  induction ns with
  | nil => rfl
  | cons n ns ih =>
    rw [List.cons_append, eraseAll, eraseAll, ih]
    split <;> rfl

end Node

end SpanCoverage
