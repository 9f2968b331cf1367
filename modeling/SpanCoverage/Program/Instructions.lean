import SpanCoverage.Program.Node

/-!
# Injected instructions

`Node.instructions` lists the injected instructions of a body in the order in which the body is
evaluated: a branch's condition before its parts, a loop's condition before its body or behind its
update, a `try` block before its handlers, and these before the `finally` block.
-/

namespace SpanCoverage

/-- What injection adds to a body. -/
inductive Instruction where
  /-- Creates the payload of the unit. -/
  | acquire
  /-- Marks a span as visited. -/
  | mark (span : Nat)
deriving DecidableEq, Repr

/-! ## Expressions -/

namespace Expr

mutual

/-- The instructions of an expression. -/
def instructions : Expr → List Instruction
  | .probed span e => .mark span :: e.instructions
  | .unary _ e => e.instructions
  | .binary _ l r => l.instructions ++ r.instructions
  | .call f args => f.instructions ++ instructionsAll args
  | .const _ | .var _ | .function _ | .closure _ => []

/-- The instructions of the arguments of a call. -/
def instructionsAll : List Expr → List Instruction
  | [] => []
  | e :: es => e.instructions ++ instructionsAll es

end

/-- An expression without a probe has no instructions. -/
theorem instructions_eq_nil (e : Expr) : e.hasProbe = false → e.instructions = [] := by
  induction e using Expr.induct with
  | const | var | function | closure => exact fun _ => rfl
  | unary op e ih => exact ih
  | binary op l r ihl ihr =>
    intro h
    rw [hasProbe, Bool.or_eq_false_iff] at h
    rw [instructions, ihl h.1, ihr h.2, List.append_nil]
  | call f args ihf ihargs =>
    intro h
    rw [hasProbe, Bool.or_eq_false_iff, anyProbe_eq_any, List.any_eq_false] at h
    have rest : instructionsAll args = [] := by
      replace h := h.2
      induction args with
      | nil => rfl
      | cons a args ih =>
        simp only [List.mem_cons, forall_eq_or_imp] at ihargs h
        rw [instructionsAll, ihargs.1 (by simpa using h.1), ih ihargs.2 h.2, List.append_nil]
    rw [instructions, ihf h.1, rest, List.append_nil]
  | probed => intro h; cases h

end Expr

/-! ## Nodes -/

/-- The instructions of a statement's expressions. -/
def Stmt.instructions : Stmt → List Instruction
  | .assign _ e | .eval e | .print e | .raise e => e.instructions
  | .ret (some e) => e.instructions
  | .ret none | .skip | .goto _ | .leave | .next => []

/-- A statement without a probe has no instructions. -/
theorem Stmt.instructions_eq_nil {s : Stmt} (h : s.hasProbe = false) : s.instructions = [] := by
  cases s with
  | assign _ e | eval e | print e | raise e => exact Expr.instructions_eq_nil e h
  | ret value =>
    cases value with
    | none => rfl
    | some e => exact Expr.instructions_eq_nil e h
  | skip | goto | leave | next => rfl

namespace Node

mutual

/-- The instructions of a node, in evaluation order. -/
def instructions : Node → List Instruction
  | .stmt s _ => s.instructions
  | .seq children => instructionsAll children
  | .branch c t e _ => c.instructions ++ t.instructions ++ instructions? e
  | .loop test i c u b _ =>
    let rounds := match test with
      | .before => c.instructions ++ (b.instructions ++ instructions? u)
      | .after => (b.instructions ++ instructions? u) ++ c.instructions
    instructions? i ++ rounds
  | .switch v arms _ => v.instructions ++ instructionsArms arms
  | .attempt b handlers f _ => b.instructions ++ instructionsHandlers handlers ++ instructions? f
  | .guarded _ resource b _ => resource.instructions ++ b.instructions
  | .nested _ root => root.instructions
  | .probe span => [.mark span]
  | .acquire => [.acquire]
  | .label .. => []

/-- The instructions of a list of nodes. -/
def instructionsAll : List Node → List Instruction
  | [] => []
  | n :: ns => n.instructions ++ instructionsAll ns

/-- The instructions of a block that may be missing. -/
def instructions? : Option Node → List Instruction
  | some n => n.instructions
  | none => []

/-- The instructions of switch arms. -/
def instructionsArms : List Arm → List Instruction
  | [] => []
  | ⟨_, body, _⟩ :: arms => body.instructions ++ instructionsArms arms

/-- The instructions of handlers. -/
def instructionsHandlers : List Handler → List Instruction
  | [] => []
  | ⟨_, body, _⟩ :: handlers => body.instructions ++ instructionsHandlers handlers

end

/-- Sequences are read from the first node to the last. -/
@[simp] theorem instructionsAll_append (ns ms : List Node) :
    instructionsAll (ns ++ ms) = instructionsAll ns ++ instructionsAll ms := by
  induction ns with
  | nil => rfl
  | cons n ns ih => simp only [List.cons_append, instructionsAll, ih, List.append_assoc]

section Members

variable {i : Instruction}

theorem mem_instructionsAll {ns : List Node} :
    i ∈ instructionsAll ns ↔ ∃ n ∈ ns, i ∈ n.instructions := by
  induction ns with
  | nil => simp [instructionsAll]
  | cons n ns ih => simp [instructionsAll, ih]

theorem mem_instructions? {e : Option Node} :
    i ∈ instructions? e ↔ ∃ n ∈ e, i ∈ n.instructions := by
  cases e <;> simp [instructions?]

theorem mem_instructionsArms {arms : List Arm} :
    i ∈ instructionsArms arms ↔ ∃ a ∈ arms, i ∈ a.body.instructions := by
  induction arms with
  | nil => simp [instructionsArms]
  | cons a arms ih =>
    obtain ⟨case, body, range⟩ := a
    simp [instructionsArms, ih]

theorem mem_instructionsHandlers {handlers : List Handler} :
    i ∈ instructionsHandlers handlers ↔ ∃ a ∈ handlers, i ∈ a.body.instructions := by
  induction handlers with
  | nil => simp [instructionsHandlers]
  | cons a handlers ih =>
    obtain ⟨binding, body, range⟩ := a
    simp [instructionsHandlers, ih]

/-- The instructions of a loop are those of its parts, whenever it tests its condition. -/
theorem mem_instructions_loop {test : TestTime} {init update : Option Node} {cond : Expr}
    {body : Node} {range : SourceRange} :
    i ∈ (Node.loop test init cond update body range).instructions ↔
      i ∈ instructions? init ∨ i ∈ cond.instructions ∨ i ∈ body.instructions ∨
        i ∈ instructions? update := by
  cases test with
  | before => simp only [instructions, List.mem_append]
  | after =>
    simp only [instructions, List.mem_append]
    rw [or_comm (b := i ∈ cond.instructions)]

end Members

end Node

end SpanCoverage
