import SpanCoverage.Program.Listing
import SpanCoverage.Text.Unquoted

/-!
# Reading listings of expressions

A reader for the texts of expressions, by descent: an operand is a row of signs, a head and a row of
calls, and an expression is an operand or two of them around an operator. The signs in front of a
call are read as signs of the call. The reader is for expressions whose words can be told apart: all
names are identifiers, and no integer constant brings a sign of its own. Its fuel bounds how deep it
goes; `Gives` says what it comes to with enough of it.
-/

namespace SpanCoverage

/-! ## Words -/

namespace Listing

/-- A letter, a digit or an underscore. Beyond ASCII every character counts as a letter. -/
def isWordChar (c : Char) : Bool := c.isAlphanum || c == '_' || 0x80 ≤ c.toNat

/-- The words with a meaning of their own. -/
def keywords : List String := ["true", "false", "null", "fn", "closure", "probe"]

/-- A name that reads as one: a word that begins with no digit and is no keyword. -/
def IsIdentifier (name : String) : Prop :=
  name ≠ "" ∧ name.toList.all isWordChar = true ∧ (name.toList.head?.any Char.isDigit) = false ∧
    name ∉ keywords

instance : DecidablePred IsIdentifier := fun _ =>
  inferInstanceAs (Decidable (_ ∧ _ ∧ _ ∧ _))

end Listing

namespace Expr

open Listing

mutual

/-- Whether all local names are identifiers and no integer constant is negative. -/
def Ordinary : Expr → Prop
  | .const (.int i) => 0 ≤ i.toInt
  | .const _ | .function _ | .closure _ => True
  | .var name => IsIdentifier name
  | .unary _ e => e.Ordinary
  | .binary _ l r => l.Ordinary ∧ r.Ordinary
  | .call f args => f.Ordinary ∧ OrdinaryAll args
  | .probed _ e => e.Ordinary

/-- The same for a list of expressions. -/
def OrdinaryAll : List Expr → Prop
  | [] => True
  | e :: es => e.Ordinary ∧ OrdinaryAll es

end

end Expr

/-! ## The reader -/

namespace Listing

/-- The expression of a word that is no keyword of a longer form. -/
def atom (word : List Char) : Expr :=
  if word = "null".toList then .const .null
  else if word = "true".toList then .const (.bool true)
  else if word = "false".toList then .const (.bool false)
  else if word.head?.any Char.isDigit then .const (.int (Int64.ofInt (Nat.ofDigitChars 10 word 0)))
  else .var (String.ofList word)

/-- A token behind a space. -/
def readToken (cs : List Char) : Option (MethodToken × List Char) :=
  match cs with
  | ' ' :: '0' :: 'x' :: rest =>
    some (⟨UInt32.ofNat (Text.hexNumber (rest.take 8))⟩, rest.drop 8)
  | _ => none

/-- An operator between spaces, the first of which is read already. -/
def readOperator (cs : List Char) : Option (BinaryOp × List Char) :=
  (BinaryOp.all.find? fun op => op.text.toList == cs.takeWhile (· != ' ')).map
    fun op => (op, (cs.dropWhile (· != ' ')).drop 1)

/-- What a word stands for, together with a token behind it if it is the keyword of a unit. -/
def readWord (word rest : List Char) : Option (Expr × List Char) :=
  if word = "fn".toList then (readToken rest).map fun p => (.function p.1, p.2)
  else if word = "closure".toList then (readToken rest).map fun p => (.closure p.1, p.2)
  else some (atom word, rest)

mutual

/-- An expression: an operand, or two with an operator between. -/
def readExpr : Nat → List Char → Option (Expr × List Char)
  | 0, _ => none
  | fuel + 1, cs => do
    let left ← readOperand fuel cs
    match left.2 with
    | ' ' :: rest =>
      let op ← readOperator rest
      let right ← readOperand fuel op.2
      return (.binary op.1 left.1 right.1, right.2)
    | _ => return left

/-- An operand: a head with its calls, behind its signs. -/
def readOperand : Nat → List Char → Option (Expr × List Char)
  | 0, _ => none
  | fuel + 1, cs =>
    match cs with
    | '-' :: rest => (readOperand fuel rest).map fun p => (.unary .neg p.1, p.2)
    | '!' :: rest => (readOperand fuel rest).map fun p => (.unary .not p.1, p.2)
    | _ => do
      let head ← readHead fuel cs
      let calls ← readCalls fuel head.2
      return (calls.1.foldl .call head.1, calls.2)

/-- A head: an expression in parentheses, a text in quotes, or what a word begins. -/
def readHead : Nat → List Char → Option (Expr × List Char)
  | 0, _ => none
  | fuel + 1, cs =>
    match cs with
    | '(' :: rest => do
      let e ← readExpr fuel rest
      match e.2 with
      | ')' :: rest => return (e.1, rest)
      | _ => none
    | '\"' :: rest =>
      (Text.readQuoted rest).map fun p => (.const (.str (String.ofList p.1)), p.2)
    | _ =>
      let word := cs.takeWhile isWordChar
      let rest := cs.dropWhile isWordChar
      if word = [] then none
      else if word = "probe".toList then readProbe fuel rest
      else readWord word rest

/-- A span and the expression behind it, in parentheses. -/
def readProbe : Nat → List Char → Option (Expr × List Char)
  | 0, _ => none
  | fuel + 1, cs =>
    match cs with
    | '(' :: rest =>
      match rest.dropWhile Char.isDigit with
      | ',' :: ' ' :: text => do
        let e ← readExpr fuel text
        match e.2 with
        | ')' :: behind =>
          return (.probed (Nat.ofDigitChars 10 (rest.takeWhile Char.isDigit) 0) e.1, behind)
        | _ => none
      | _ => none
    | _ => none

/-- The calls behind a head, each a list of arguments in parentheses. -/
def readCalls : Nat → List Char → Option (List (List Expr) × List Char)
  | 0, _ => none
  | fuel + 1, cs =>
    match cs with
    | '(' :: ')' :: rest => (readCalls fuel rest).map fun p => ([] :: p.1, p.2)
    | '(' :: rest => do
      let args ← readArgs fuel rest
      let calls ← readCalls fuel args.2
      return (args.1 :: calls.1, calls.2)
    | _ => return ([], cs)

/-- Arguments up to the closing parenthesis. -/
def readArgs : Nat → List Char → Option (List Expr × List Char)
  | 0, _ => none
  | fuel + 1, cs => do
    let arg ← readExpr fuel cs
    match arg.2 with
    | ')' :: rest => return ([arg.1], rest)
    | ',' :: ' ' :: rest => (readArgs fuel rest).map fun p => (arg.1 :: p.1, p.2)
    | _ => none

end

/-- What a reader comes to with enough fuel. -/
def Gives {α : Type} (read : Nat → List Char → Option (α × List Char)) (cs : List Char)
    (result : α) (rest : List Char) : Prop :=
  ∃ enough, ∀ fuel ≥ enough, read fuel cs = some (result, rest)

end Listing

end SpanCoverage
