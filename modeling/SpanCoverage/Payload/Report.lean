import SpanCoverage.Text.Blank
import SpanCoverage.Text.Decimal

/-!
# Reports of visits

A report holds one row for each unit: the unit's method index and one Boolean for each span. Its
text has a line with the index and then one line `true` or `false` for each span. Reading a text
back, white space around a line and blank lines do not matter.
-/

namespace SpanCoverage

/-- The visits of one unit. -/
structure ReportRow where
  index : UInt32
  hits : List Bool
deriving DecidableEq, Repr

/-- The visits of the units drained by one flush. -/
structure Report where
  rows : List ReportRow := []
deriving DecidableEq, Repr

/-- The number of spans visited. -/
def ReportRow.visitCount (r : ReportRow) : Nat := r.hits.count true

namespace Report

/-- Whether the report has no rows. -/
def isEmpty (r : Report) : Bool := r.rows.isEmpty

/-- The first row with an index. -/
def row? (r : Report) (index : UInt32) : Option ReportRow := r.rows.find? (·.index == index)

/-! ## Writing -/

/-- The word for a cell. -/
def hitWord (hit : Bool) : List Char :=
  if hit then ['t', 'r', 'u', 'e'] else ['f', 'a', 'l', 's', 'e']

/-- The lines of a row. -/
def rowLines (r : ReportRow) : List (List Char) :=
  Nat.toDigits 10 r.index.toNat :: r.hits.map hitWord

/-- The report's text; each line ends with a line feed. -/
def chars (r : Report) : List Char := (r.rows.flatMap rowLines).flatMap (· ++ ['\n'])

/-- The report's text. -/
def text (r : Report) : String := String.ofList r.chars

/-! ## Reading -/

/-- One line that is not blank. -/
inductive Line where
  | hit (value : Bool)
  | index (value : UInt32)
deriving DecidableEq, Repr

/-- The line of a trimmed text. -/
def line? (cs : List Char) : Option Line :=
  if cs = hitWord true then some (.hit true)
  else if cs = hitWord false then some (.hit false)
  else (Text.readWord? cs).map .index

/-- The rows of lines, of which those in front of the first index belong to `hits`. -/
def group : List Line → List Bool × List ReportRow
  | [] => ([], [])
  | .hit value :: rest =>
    let (hits, rows) := group rest
    (value :: hits, rows)
  | .index index :: rest =>
    let (hits, rows) := group rest
    ([], ⟨index, hits⟩ :: rows)

/-- The report of a text, unless a line is neither a Boolean nor an index, or a Boolean comes
before the first index. -/
def parse (cs : List Char) : Option Report :=
  match (((Text.lines cs).map Text.trim).filter (!·.isEmpty)).mapM line? with
  | none => none
  | some lines =>
    match group lines with
    | ([], rows) => some ⟨rows⟩
    | _ => none

end Report

end SpanCoverage
