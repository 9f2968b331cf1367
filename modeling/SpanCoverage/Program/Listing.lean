import SpanCoverage.Program.Node
import SpanCoverage.Text.Quoted

/-!
# Listings of programs

The readable form of expressions, nodes, units and programs. An operand stands in parentheses if it
is itself an operation with two operands or a reference to a unit. A node takes one or more lines,
two spaces deeper for each block around it; the children of a sequence stand on the sequence's own
level, and of a nested unit only the boundary is shown.
-/

namespace SpanCoverage

/-! ## Expressions -/

/-- A constant in a listing; text stands between quotes. -/
def Constant.text : Constant → String
  | .null => "null"
  | .bool b => if b then "true" else "false"
  | .int i => toString i.toInt
  | .str s => String.ofList (Text.quoted s.toList)

namespace Expr

/-- Whether the expression needs parentheses as an operand. -/
def isCompound : Expr → Bool
  | .binary .. | .function _ | .closure _ => true
  | _ => false

/-- The text of an operand, in parentheses where the operand needs them. -/
def operand (e : Expr) (text : String) : String :=
  if e.isCompound then "(" ++ text ++ ")" else text

mutual

/-- An expression in a listing. -/
def text : Expr → String
  | .const c => c.text
  | .var name => name
  | .unary op e => op.text ++ e.operand e.text
  | .binary op l r => l.operand l.text ++ " " ++ op.text ++ " " ++ r.operand r.text
  | .function unit => "fn " ++ unit.text
  | .closure unit => "closure " ++ unit.text
  | .call f args => f.operand f.text ++ "(" ++ textAll args ++ ")"
  | .probed span e => "probe(" ++ toString span ++ ", " ++ e.text ++ ")"

/-- The texts of arguments, with a comma and a space between. -/
def textAll : List Expr → String
  | [] => ""
  | [e] => e.text
  | e :: es => e.text ++ ", " ++ textAll es

end

end Expr

/-! ## Nodes -/

/-- The lines of a text, each with its line feed. -/
def unlines (lines : List String) : String := String.join (lines.map (· ++ "\n"))

/-- A line at a depth of blocks, two spaces for each. -/
def indented (depth : Nat) (line : String) : String :=
  String.join (List.replicate depth "  ") ++ line

/-- A node without parts in a listing. -/
def Stmt.text : Stmt → String
  | .assign name value => name ++ " = " ++ value.text
  | .eval value => value.text
  | .print value => "print " ++ value.text
  | .skip => "nop"
  | .goto label => "goto " ++ label
  | .leave => "break"
  | .next => "continue"
  | .ret none => "return"
  | .ret (some value) => "return " ++ value.text
  | .raise value => "throw " ++ value.text

/-- The keyword of a guarded scope. -/
def GuardKind.text : GuardKind → String
  | .lock => "lock"
  | .using => "using"

/-- The line that opens a switch arm. -/
def armTitle : Option Constant → String
  | some case => "case " ++ case.text ++ ":"
  | none => "default:"

/-- The line that opens a handler. -/
def handlerTitle : Option String → String
  | some binding => "\x7d catch " ++ binding ++ " \x7b"
  | none => "\x7d catch \x7b"

namespace Node

mutual

/-- The lines of a node at a depth of blocks. -/
def lines (depth : Nat) : Node → List String
  | .stmt s _ => [indented depth s.text]
  | .seq children => linesAll depth children
  | .branch c t e _ =>
    [indented depth ("if " ++ c.text ++ " \x7b")] ++ lines (depth + 1) t
      ++ (if e.isSome then [indented depth "\x7d else \x7b"] else []) ++ lines? (depth + 1) e
      ++ [indented depth "\x7d"]
  | .loop test i c u b _ =>
    if i.isNone && u.isNone then
      match test with
      | .before =>
        [indented depth ("while " ++ c.text ++ " \x7b")] ++ lines (depth + 1) b
          ++ [indented depth "\x7d"]
      | .after =>
        [indented depth "do \x7b"] ++ lines (depth + 1) b
          ++ [indented depth ("\x7d while " ++ c.text)]
    else
      [indented depth "for \x7b"]
        ++ (if i.isSome then [indented (depth + 1) "init:"] else []) ++ lines? (depth + 2) i
        ++ (if test = .before then [indented (depth + 1) ("test: " ++ c.text)] else [])
        ++ [indented (depth + 1) "body:"] ++ lines (depth + 2) b
        ++ (if u.isSome then [indented (depth + 1) "update:"] else []) ++ lines? (depth + 2) u
        ++ (if test = .after then [indented (depth + 1) ("test after: " ++ c.text)] else [])
        ++ [indented depth "\x7d"]
  | .switch v arms _ =>
    [indented depth ("switch " ++ v.text ++ " \x7b")] ++ linesArms depth arms
      ++ [indented depth "\x7d"]
  | .attempt b handlers f _ =>
    [indented depth "try \x7b"] ++ lines (depth + 1) b ++ linesHandlers depth handlers
      ++ (if f.isSome then [indented depth "\x7d finally \x7b"] else []) ++ lines? (depth + 1) f
      ++ [indented depth "\x7d"]
  | .guarded kind resource b _ =>
    [indented depth (kind.text ++ " " ++ resource.text ++ " \x7b")] ++ lines (depth + 1) b
      ++ [indented depth "\x7d"]
  | .label name _ => [indented depth (name ++ ":")]
  | .nested header _ =>
    [indented depth
      ("nested " ++ header.kind.text ++ " " ++ header.name ++ " [" ++ header.token.text ++ "]")]
  | .probe span => [indented depth ("probe " ++ toString span)]
  | .acquire => [indented depth "acquire_payload"]

/-- The lines of nodes on one level. -/
def linesAll (depth : Nat) : List Node → List String
  | [] => []
  | n :: ns => lines depth n ++ linesAll depth ns

/-- The lines of a child that may be missing. -/
def lines? (depth : Nat) : Option Node → List String
  | some n => lines depth n
  | none => []

/-- The lines of switch arms; the titles stand one level deeper than the switch. -/
def linesArms (depth : Nat) : List Arm → List String
  | [] => []
  | ⟨case, body, _⟩ :: arms =>
    [indented (depth + 1) (armTitle case)] ++ lines (depth + 2) body ++ linesArms depth arms

/-- The lines of handlers; the titles stand on the level of the block. -/
def linesHandlers (depth : Nat) : List Handler → List String
  | [] => []
  | ⟨binding, body, _⟩ :: handlers =>
    [indented depth (handlerTitle binding)] ++ lines (depth + 1) body
      ++ linesHandlers depth handlers

end

end Node

/-! ## Units and programs -/

/-- A unit with its parameters and its token around its body. -/
def CodeUnit.listing (u : CodeUnit) : String :=
  unlines ([u.kind.text ++ " " ++ u.name ++ "(" ++ String.intercalate ", " u.params ++ ") ["
    ++ u.token.text ++ "] \x7b"] ++ u.root.lines 1 ++ ["\x7d"])

/-- A program: its name, then each top-level unit after an empty line. -/
def Program.listing (p : Program) : String :=
  unlines ["; module " ++ p.name] ++ String.join (p.units.map fun u => "\n" ++ u.listing)

end SpanCoverage
