import SpanCoverage.Program.Listing

/-!
# Values of the host

The values that a running unit computes with, and the operators on them. Integer arithmetic is
exact or faults: a result outside 64 bits, a division by zero and an operand of the wrong type each
raise an exception of their own. Main statements: `inRange_iff` and `ofInt?_eq_some_iff`.
-/

namespace SpanCoverage.Host

/-! ## Values -/

/-- A scope by name, with the scopes around it, innermost first. -/
structure Scope where
  id : Nat
  outer : List Nat := []
deriving DecidableEq, Repr

/-- A unit with the scope in which it was made. Each evaluation makes a new closure. -/
structure Closure where
  id : Nat
  token : MethodToken
  scope : Scope
deriving DecidableEq, Repr

/-- A value. -/
inductive Value where
  | null
  | bool (value : Bool)
  | int (value : Int64)
  | str (value : String)
  /-- A unit without captured state. -/
  | function (token : MethodToken)
  | closure (closure : Closure)
deriving DecidableEq, Repr

namespace Value

/-- The value of a constant. -/
def ofConstant : Constant → Value
  | .null => .null
  | .bool b => .bool b
  | .int i => .int i
  | .str s => .str s

/-- Whether a condition with this value holds. -/
def truth : Value → Bool
  | .null => false
  | .bool b => b
  | .int i => i != 0
  | .str s => !s.isEmpty
  | .function _ | .closure _ => true

/-- The integer that a value is. -/
def int? : Value → Option Int64
  | .int i => some i
  | _ => none

/-- The name of a value's type. -/
def typeName : Value → String
  | .null => "null"
  | .bool _ => "bool"
  | .int _ => "int"
  | .str _ => "string"
  | .function _ | .closure _ => "function"

/-- A value as a program prints it. -/
def text : Value → String
  | .null => "null"
  | .bool b => if b then "true" else "false"
  | .int i => toString i.toInt
  | .str s => s
  | .function token => "<fn " ++ token.text ++ ">"
  | .closure c => "<closure " ++ c.token.text ++ ">"

/-- Equality as a program sees it. Two closures are equal only if one evaluation made both. -/
def same : Value → Value → Bool
  | .null, .null => true
  | .bool a, .bool b => a == b
  | .int a, .int b => a == b
  | .str a, .str b => a == b
  | .function a, .function b => a == b
  | .closure a, .closure b => a.id == b.id
  | _, _ => false

end Value

/-! ## Faults -/

/-- An exception that an operation raises by itself. -/
inductive Fault where
  | divideByZero
  | overflow
  | nullReference
  /-- Negation of a value of this type. -/
  | cannotNegate (type : String)
  /-- An operator between values of these types. -/
  | operands (left : String) (op : BinaryOp) (right : String)
deriving DecidableEq, Repr

/-- The text that the exception carries as its value. -/
def Fault.message : Fault → String
  | .divideByZero => "DivideByZeroException"
  | .overflow => "OverflowException"
  | .nullReference => "NullReferenceException"
  | .cannotNegate type => "TypeError: cannot negate " ++ type
  | .operands left op right => "TypeError: " ++ left ++ " " ++ op.text ++ " " ++ right

/-! ## Integers -/

/-- Whether an integer fits 64 bits with a sign. -/
def inRange (i : Int) : Bool := -0x8000000000000000 ≤ i && i < 0x8000000000000000

/-- The 64-bit value of an integer that fits. -/
def ofInt? (i : Int) : Option Int64 := if inRange i then some (Int64.ofInt i) else none

/-- The exact result of an operation, or an overflow. -/
def exact (i : Int) : Except Fault Value :=
  match ofInt? i with
  | some i => .ok (.int i)
  | none => .error .overflow

theorem inRange_iff (i : Int) :
    inRange i = true ↔ -0x8000000000000000 ≤ i ∧ i < 0x8000000000000000 := by
  simp [inRange]

/-- The 64-bit value found for an integer stands for that integer. -/
theorem ofInt?_eq_some_iff (i : Int) (v : Int64) : ofInt? i = some v ↔ v.toInt = i := by
  unfold ofInt?
  constructor
  · intro h
    split at h
    · rename_i hr
      rw [inRange_iff] at hr
      injection h with h
      rw [← h]
      exact Int64.toInt_ofInt_of_le hr.1 hr.2
    · cases h
  · rintro rfl
    rw [if_pos ((inRange_iff _).2 ⟨Int64.le_toInt v, Int64.toInt_lt v⟩), Int64.ofInt_toInt]

/-! ## Operators -/

/-- The negative of an integer. The least integer has none and faults like a value that is no
integer. -/
def negate (v : Value) : Except Fault Value :=
  match v with
  | .int i =>
    match ofInt? (-i.toInt) with
    | some n => .ok (.int n)
    | none => .error (.cannotNegate v.typeName)
  | _ => .error (.cannotNegate v.typeName)

/-- An operator with one operand. -/
def applyUnary (op : UnaryOp) (v : Value) : Except Fault Value :=
  match op with
  | .not => .ok (.bool !v.truth)
  | .neg => negate v

/-- An arithmetic operator or comparison on integers; division goes toward zero, the remainder
has the sign of the dividend, and a remainder overflows where its quotient does. -/
def applyInts (op : BinaryOp) (l r : Int64) : Except Fault Value :=
  match op with
  | .add => exact (l.toInt + r.toInt)
  | .sub => exact (l.toInt - r.toInt)
  | .mul => exact (l.toInt * r.toInt)
  | .div => if r = 0 then .error .divideByZero else exact (l.toInt.tdiv r.toInt)
  | .mod =>
    if r = 0 then .error .divideByZero
    else if inRange (l.toInt.tdiv r.toInt) then exact (l.toInt.tmod r.toInt)
    else .error .overflow
  | op => .ok (.bool (op.relates l r))

/-- An operator between two values that are both evaluated. Equality holds or not between any two
values, and a sum with a text joins the texts of both. -/
def applyBinary (op : BinaryOp) (l r : Value) : Except Fault Value :=
  match op, l, r with
  | .equal, l, r => .ok (.bool (l.same r))
  | .notEqual, l, r => .ok (.bool !(l.same r))
  | .add, .str s, r => .ok (.str (s ++ r.text))
  | .add, l, .str s => .ok (.str (l.text ++ s))
  | op, .int l, .int r => applyInts op l r
  | op, l, r => .error (.operands l.typeName op r.typeName)

end SpanCoverage.Host
