import SpanCoverage.Identity

/-!
# Expressions

Expressions of a lowered program: constants, local variables, operators, references to units,
closures over the current scope, calls, and the probed form that injection adds. `knownTruth` folds
conditions whose outcome is fixed by constants alone. `Expr.induct` is the induction principle for
proofs on expressions; it has a hypothesis for every argument of a call.
-/

namespace SpanCoverage

/-! ## Constants and operators -/

/-- A constant known when the program is compiled. -/
inductive Constant where
  | null
  | bool (value : Bool)
  | int (value : Int64)
  | str (value : String)
deriving DecidableEq, Repr

/-- Operators with one operand. -/
inductive UnaryOp where
  /-- Numeric negation. -/
  | neg
  /-- Logical negation. -/
  | not
deriving DecidableEq, Repr

/-- Operators with two operands. -/
inductive BinaryOp where
  | add | sub | mul | div | mod
  | equal | notEqual | less | lessEqual | greater | greaterEqual
  | and | or
deriving DecidableEq, Repr

namespace UnaryOp

/-- Every operator with one operand. -/
def all : List UnaryOp := [.neg, .not]

/-- The operator's sign. -/
def text : UnaryOp → String
  | .neg => "-"
  | .not => "!"

end UnaryOp

namespace BinaryOp

/-- Every operator with two operands. -/
def all : List BinaryOp :=
  [.add, .sub, .mul, .div, .mod, .equal, .notEqual, .less, .lessEqual, .greater, .greaterEqual,
    .and, .or]

/-- The operator's sign. -/
def text : BinaryOp → String
  | .add => "+"
  | .sub => "-"
  | .mul => "*"
  | .div => "/"
  | .mod => "%"
  | .equal => "=="
  | .notEqual => "!="
  | .less => "<"
  | .lessEqual => "<="
  | .greater => ">"
  | .greaterEqual => ">="
  | .and => "&&"
  | .or => "||"

/-- Whether the operator compares its operands. -/
def isComparison : BinaryOp → Bool
  | .equal | .notEqual | .less | .lessEqual | .greater | .greaterEqual => true
  | _ => false

/-- Whether the operator may leave its right operand unevaluated. -/
def isLogical : BinaryOp → Bool
  | .and | .or => true
  | _ => false

/-- The outcome of a comparison of integers, and `false` for any other operator. -/
def relates (op : BinaryOp) (l r : Int64) : Bool :=
  match op with
  | .equal => l == r
  | .notEqual => l != r
  | .less => decide (l < r)
  | .lessEqual => decide (l ≤ r)
  | .greater => decide (r < l)
  | .greaterEqual => decide (r ≤ l)
  | _ => false

/-- The outcome of an operator on constants, where it is a comparison that needs no run: any two
constants are equal or not, and integers have an order. -/
def relates? (op : BinaryOp) (l r : Constant) : Option Bool :=
  match op, l, r with
  | .equal, l, r => some (l == r)
  | .notEqual, l, r => some (l != r)
  | op, .int l, .int r => some (op.relates l r)
  | _, _, _ => none

end BinaryOp

/-! ## Expression trees -/

/-- An expression of a lowered program. -/
inductive Expr where
  | const (value : Constant)
  | var (name : String)
  | unary (op : UnaryOp) (operand : Expr)
  | binary (op : BinaryOp) (left right : Expr)
  /-- A reference to a unit, without captured state. -/
  | function (unit : MethodToken)
  /-- A unit together with the scope in which the expression is evaluated. -/
  | closure (unit : MethodToken)
  | call (callee : Expr) (args : List Expr)
  /-- Marks a span as visited, then evaluates the expression; only injection makes this form. -/
  | probed (span : Nat) (expr : Expr)

namespace Expr

/-- Induction on expressions, with a hypothesis for every argument of a call. -/
theorem induct {motive : Expr → Prop} (const : ∀ c, motive (.const c))
    (var : ∀ name, motive (.var name))
    (unary : ∀ op e, motive e → motive (.unary op e))
    (binary : ∀ op l r, motive l → motive r → motive (.binary op l r))
    (function : ∀ t, motive (.function t)) (closure : ∀ t, motive (.closure t))
    (call : ∀ f args, motive f → (∀ a ∈ args, motive a) → motive (.call f args))
    (probed : ∀ i e, motive e → motive (.probed i e)) (e : Expr) : motive e :=
  Expr.rec (motive_1 := motive) (motive_2 := fun es => ∀ a ∈ es, motive a)
    const var unary binary function closure call probed (by simp)
    (fun a as ha has => by simpa using ⟨ha, has⟩) e

mutual

/-- Whether the expression holds a probe anywhere. -/
def hasProbe : Expr → Bool
  | .probed .. => true
  | .unary _ e => e.hasProbe
  | .binary _ l r => l.hasProbe || r.hasProbe
  | .call f args => f.hasProbe || anyProbe args
  | .const _ | .var _ | .function _ | .closure _ => false

/-- Whether one of the expressions holds a probe. -/
def anyProbe : List Expr → Bool
  | [] => false
  | e :: es => e.hasProbe || anyProbe es

end

/-- Some expression of a list holds a probe exactly if one of its members does. -/
theorem anyProbe_eq_any (es : List Expr) : anyProbe es = es.any hasProbe := by
  induction es with
  | nil => rfl
  | cons e es ih => simp [anyProbe, ih]

/-- The outcome of a comparison of two constants, and nothing for any other pair of operands. -/
def knownRelation (op : BinaryOp) (l r : Expr) : Option Bool :=
  match l, r with
  | .const l, .const r => if op.isComparison then op.relates? l r else none
  | _, _ => none

/-- The truth of an expression whose value is a Boolean known without running it: a Boolean
constant, the negation of such an expression, a conjunction or disjunction that its known operands
decide, or a comparison of two constants. -/
def knownTruth : Expr → Option Bool
  | .const (.bool b) => some b
  | .unary .not e => e.knownTruth.map (!·)
  | .binary .and l r =>
    match l.knownTruth with
    | some false => some false
    | some true => r.knownTruth
    | none => none
  | .binary .or l r =>
    match l.knownTruth with
    | some true => some true
    | some false => r.knownTruth
    | none => none
  | .binary op l r => knownRelation op l r
  | _ => none

end Expr

end SpanCoverage
