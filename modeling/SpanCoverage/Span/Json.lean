import SpanCoverage.Json.Reader
import SpanCoverage.Span.Table
import SpanCoverage.Text.Decimal

/-!
# Span tables as JSON

A table is written as the list of its spans, a span as an object with the members `index`, `kind`,
`site` and `range`. Reading is freer than writing: members may come in any order and with others
between, which are skipped; a span or a range may be a list of its members' values; and a kind may
also be the only key of an object whose value is `null`. A member that is missing or comes twice,
and a number that is not a plain numeral below 2^32, cannot be read. A list of spans out of order is
refused as such before the text behind the list is looked at.
-/

namespace SpanCoverage

/-! ## Writing -/

/-- A range as an object. -/
def SourceRange.toJson (r : SourceRange) : Json :=
  .ofMembers [("start", .ofNat r.start.toNat), ("end", .ofNat r.stop.toNat)]

/-- A span as an object. -/
def Span.toJson (s : Span) : Json :=
  .ofMembers [("index", .ofNat s.index), ("kind", .ofText s.kind.longName), ("site", .ofNat s.site),
    ("range", s.range.toJson)]

/-- A table as the list of its spans. -/
def SpanTable.toJson (t : SpanTable) : Json := .arr (t.spans.map Span.toJson)

/-! ## Reading -/

namespace Json

/-- The text of a string literal. -/
def text? : Json → Option String
  | .str literal => (decodeLiteral literal).map String.ofList
  | _ => none

/-- A number written with digits alone that fits 32 bits. -/
def word? : Json → Option Nat
  | .num numeral => (Text.readDecimal? numeral).filter (· < UInt32.size)
  | _ => none

/-- A kind of span: its long name, or an object with that name as its only key, holding `null`. -/
def spanKind? : Json → Option SpanKind
  | .obj [(key, .null)] => (text? (.str key)).bind SpanKind.ofLongName?
  | j => (text? j).bind SpanKind.ofLongName?

/-- The values of an object under the wanted names, in the order of the names. Every key must have
a text; a wanted name must come exactly once. -/
def fields? (names : List String) (members : List (List Char × Json)) : Option (List Json) := do
  let named ← members.mapM fun m => (text? (.str m.1)).map fun key => (key, m.2)
  names.mapM fun name =>
    match named.filter (·.1 == name) with
    | [(_, value)] => some value
    | _ => none

/-- The values of a record with these names: an object's members, or a list of just as many
values. -/
def record? (names : List String) : Json → Option (List Json)
  | .obj members => fields? names members
  | .arr items => if items.length = names.length then some items else none
  | _ => none

/-- A source range. -/
def sourceRange? (j : Json) : Option SourceRange := do
  match ← record? ["start", "end"] j with
  | [start, stop] => return ⟨UInt32.ofNat (← word? start), UInt32.ofNat (← word? stop)⟩
  | _ => none

/-- A span. -/
def span? (j : Json) : Option Span := do
  match ← record? ["index", "kind", "site", "range"] j with
  | [index, kind, site, range] =>
    return ⟨← word? index, ← spanKind? kind, ← word? site, ← sourceRange? range⟩
  | _ => none

/-- A list of spans. -/
def spans? : Json → Option (List Span)
  | .arr items => items.mapM span?
  | _ => none

end Json

/-- Why a text is no span table. -/
inductive SpanTable.ReadError where
  /-- The text does not begin with a list of spans, or does not end behind a span table. -/
  | malformed
  /-- The text begins with a list of spans that is not numbered from zero up. -/
  | order (error : SpanOrderError)
deriving DecidableEq, Repr

/-- The span table that a text holds. The order of the spans counts before what stands behind the
list: there only white space may follow a table. -/
def SpanTable.read (cs : List Char) : Except SpanTable.ReadError SpanTable :=
  match Json.readFront? cs with
  | none => .error .malformed
  | some (document, rest) =>
    match document.spans? with
    | none => .error .malformed
    | some spans =>
      match SpanTable.ofSpans spans with
      | .error e => .error (.order e)
      | .ok table => if (Json.skipSpace rest).isEmpty then .ok table else .error .malformed

end SpanCoverage
