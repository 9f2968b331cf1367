import Mathlib.Data.List.Forall2
import SpanCoverage.Json.Spelling
import SpanCoverage.Span.Json

/-!
# Spellings of span lists

Which texts spell a list of spans, said without a reader.  A span and a range are records, and a
record is a list of its fields' values or an object with the fields in any order and others between
them.  A name is any literal with its text, a kind may also be the only key of an object that holds
`null`, and a number is written with digits alone.
-/

namespace SpanCoverage

namespace Json

/-! ## Texts, numbers and kinds -/

/-- A literal of a text, with any escapes. -/
def IsText (text : String) : Json → Prop
  | .str literal => decodeLiteral literal = some text.toList
  | _ => False

/-- A number of 32 bits, written with digits alone. -/
def IsWord (n : Nat) : Json → Prop
  | .num digits => IsDigits digits ∧ Nat.ofDigitChars 10 digits 0 = n ∧ n < UInt32.size
  | _ => False

/-- The name of a kind, alone or as the key of a `null`. -/
def IsKind (kind : SpanKind) (j : Json) : Prop :=
  IsText kind.longName j ∨ ∃ key, j = .obj [(key, .null)] ∧ IsText kind.longName (.str key)

/-! ## Records -/

/-- The members of an object, with the texts of their keys. -/
def HasKeys (members : List (List Char × Json)) (named : List (String × Json)) : Prop :=
  List.Forall₂ (fun member field => IsText field.1 (.str member.1) ∧ member.2 = field.2)
    members named

/-- A record: the values of its fields in a list, or its fields in any order with others between
them, whose names are not among those of the fields. -/
inductive IsRecord (fields : List (String × Json)) : Json → Prop
  | list : IsRecord fields (.arr (fields.map Prod.snd))
  | object {members : List (List Char × Json)} {named extra : List (String × Json)}
    (hkeys : HasKeys members named) (horder : named.Perm (fields ++ extra))
    (hextra : ∀ field ∈ extra, field.1 ∉ fields.map Prod.fst) : IsRecord fields (.obj members)

/-- A source range. -/
def IsRange (range : SourceRange) (j : Json) : Prop :=
  ∃ start stop, IsRecord [("start", start), ("end", stop)] j ∧ IsWord range.start.toNat start ∧
    IsWord range.stop.toNat stop

/-- A span. -/
def IsSpan (s : Span) (j : Json) : Prop :=
  ∃ index kind site range,
    IsRecord [("index", index), ("kind", kind), ("site", site), ("range", range)] j ∧
      IsWord s.index index ∧ IsKind s.kind kind ∧ IsWord s.site site ∧ IsRange s.range range

/-- A list of spans. -/
def IsSpans (ss : List Span) (j : Json) : Prop :=
  ∃ items, j = .arr items ∧ List.Forall₂ IsSpan ss items

end Json

/-- The texts that spell a list of spans. -/
def SpanTable.Spells (ss : List Span) (cs : List Char) : Prop :=
  ∃ document, Json.Spells document cs ∧ Json.IsSpans ss document

end SpanCoverage
