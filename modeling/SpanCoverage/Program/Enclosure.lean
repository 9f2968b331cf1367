import SpanCoverage.Program.Node

/-!
# What stands where

`Node.parts` gives the parts of a node, each with what it stands in, and `Node.Holds` relates a tree
to every node in it, together with the enclosures of that node from the innermost to the outermost.
A nested unit is one node of the tree around it, and nothing inside it belongs to that tree.
`Expr.Holds` relates an expression to all that it is made of. Main statements: `Node.forall_holds`,
by which a property of all nodes of a tree is one of its root and of its parts, and
`Expr.hasProbe_iff`, an expression has a probe exactly if it holds one at some depth.
-/

namespace SpanCoverage

/-! ## Expressions -/

namespace Expr

/-- The operands of an expression. -/
def operands : Expr → List Expr
  | .unary _ e | .probed _ e => [e]
  | .binary _ l r => [l, r]
  | .call f args => f :: args
  | .const _ | .var _ | .function _ | .closure _ => []

/-- The expression itself and what it is made of, at any depth. -/
inductive Holds (e : Expr) : Expr → Prop
  | self : Holds e e
  | operand {x y : Expr} (h : Holds e x) (hy : y ∈ x.operands) : Holds e y

theorem Holds.of_operand {e x y : Expr} (hx : x ∈ e.operands) (h : x.Holds y) : e.Holds y := by
  induction h with
  | self => exact .operand .self hx
  | operand _ hz ih => exact .operand ih hz

theorem hasProbe_step (e : Expr) :
    e.hasProbe = true ↔ (∃ span x, e = .probed span x) ∨ ∃ x ∈ e.operands, x.hasProbe = true := by
  cases e <;> simp [hasProbe, operands, anyProbe_eq_any]

theorem exists_holds_of_hasProbe (e : Expr) :
    e.hasProbe = true → ∃ span x, e.Holds (.probed span x) := by
  have ofOperands {e : Expr} (he : ∀ y ∈ e.operands, y.hasProbe = true →
      ∃ span x, y.Holds (.probed span x)) (h : e.hasProbe = true) :
      ∃ span x, e.Holds (.probed span x) := by
    rcases (hasProbe_step e).1 h with ⟨span, x, rfl⟩ | ⟨y, hy, hprobe⟩
    · exact ⟨span, x, .self⟩
    · obtain ⟨span, x, hx⟩ := he y hy hprobe
      exact ⟨span, x, hx.of_operand hy⟩
  induction e using Expr.induct with
  | const | var | function | closure => exact ofOperands nofun
  | unary op e ih | probed span e ih => exact ofOperands (by simpa [operands] using ih)
  | binary op l r ihl ihr => exact ofOperands (by simpa [operands] using ⟨ihl, ihr⟩)
  | call f args ihf ihargs => exact ofOperands (by simpa [operands] using ⟨ihf, ihargs⟩)

/-- **An expression has a probe exactly if it holds one at some depth.** -/
theorem hasProbe_iff {e : Expr} : e.hasProbe = true ↔ ∃ span x, e.Holds (.probed span x) := by
  refine ⟨exists_holds_of_hasProbe e, ?_⟩
  have upwards {y : Expr} (h : e.Holds y) : y.hasProbe = true → e.hasProbe = true := by
    induction h with
    | self => exact id
    | operand _ hy ih => exact fun hprobe => ih ((hasProbe_step _).2 (.inr ⟨_, hy, hprobe⟩))
  rintro ⟨span, x, h⟩
  exact upwards h rfl

end Expr

/-! ## Nodes -/

/-- What a part of a node stands in. -/
inductive Enclosure where
  /-- A sequence with these children. -/
  | seq (children : List Node)
  /-- The rounds of a loop: its body and its update. -/
  | rounds
  /-- An arm of a switch. -/
  | arm
  /-- Anything else. -/
  | other

/-- The expressions of a statement. -/
def Stmt.exprs : Stmt → List Expr
  | .assign _ e | .eval e | .print e | .raise e => [e]
  | .ret value => value.toList
  | .skip | .goto _ | .leave | .next => []

theorem Stmt.hasProbe_eq_false_iff {s : Stmt} :
    s.hasProbe = false ↔ ∀ e ∈ s.exprs, e.hasProbe = false := by
  cases s with
  | ret value => cases value <;> simp [hasProbe, exprs]
  | assign | eval | print | raise | skip | goto | leave | next => simp [hasProbe, exprs]

namespace Node

/-- The expressions of a node, less those of its parts. -/
def exprs : Node → List Expr
  | .stmt s _ => s.exprs
  | .branch e _ _ _ | .loop _ _ e _ _ _ | .switch e _ _ | .guarded _ e _ _ => [e]
  | .seq _ | .attempt .. | .label .. | .nested .. | .probe _ | .acquire => []

/-- The parts of a node. The start of a loop stands outside of its rounds. -/
def parts : Node → List (Enclosure × Node)
  | .seq ns => ns.map (.seq ns, ·)
  | .branch _ t e _ => (.other, t) :: e.toList.map (.other, ·)
  | .loop _ i _ u b _ => i.toList.map (.other, ·) ++ (.rounds, b) :: u.toList.map (.rounds, ·)
  | .switch _ arms _ => arms.map fun a => (.arm, a.body)
  | .attempt b handlers f _ =>
    (.other, b) :: handlers.map (fun h => (.other, h.body)) ++ f.toList.map (.other, ·)
  | .guarded _ _ b _ => [(.other, b)]
  | .stmt .. | .label .. | .nested .. | .probe _ | .acquire => []

/-- A tree that stands in `outer` holds a node with these enclosures, the innermost first. -/
inductive Holds (root : Node) (outer : List Enclosure) : List Enclosure → Node → Prop
  | self : Holds root outer outer root
  | part {around : List Enclosure} {n m : Node} {e : Enclosure} (h : Holds root outer around n)
    (hm : (e, m) ∈ n.parts) : Holds root outer (e :: around) m

theorem Holds.of_part {root n : Node} {outer around : List Enclosure} {p : Enclosure × Node}
    (hp : p ∈ root.parts) (h : p.2.Holds (p.1 :: outer) around n) :
    root.Holds outer around n := by
  induction h with
  | self => exact .part .self hp
  | part _ hk ih => exact .part ih hk

theorem Holds.self_or_part {root n : Node} {outer around : List Enclosure}
    (h : root.Holds outer around n) :
    (around = outer ∧ n = root) ∨ ∃ p ∈ root.parts, p.2.Holds (p.1 :: outer) around n := by
  induction h with
  | self => exact .inl ⟨rfl, rfl⟩
  | part _ hk ih =>
    rcases ih with ⟨rfl, rfl⟩ | ⟨p, hp, h⟩
    · exact .inr ⟨_, hk, .self⟩
    · exact .inr ⟨p, hp, h.part hk⟩

/-- **What holds of every node of a tree holds of its root and of every node of its parts.** -/
theorem forall_holds {P : List Enclosure → Node → Prop} {root : Node} {outer : List Enclosure} :
    (∀ around n, root.Holds outer around n → P around n) ↔
      P outer root ∧
        ∀ p ∈ root.parts, ∀ around n, p.2.Holds (p.1 :: outer) around n → P around n := by
  constructor
  · exact fun h => ⟨h _ _ .self, fun p hp around n hn => h around n (hn.of_part hp)⟩
  · rintro ⟨hroot, hparts⟩ around n hn
    rcases hn.self_or_part with ⟨rfl, rfl⟩ | ⟨p, hp, h⟩
    · exact hroot
    · exact hparts p hp around n h

end Node

end SpanCoverage
