import SpanCoverage.Json.Document

/-!
# Reading JSON documents

`Json.readFront?` reads the document at the front of a text, with white space allowed in front of
every token, and leaves the text behind it to the caller. The numerals and literals of the document
are the characters of the text. Every token takes at least one character, so twice the text's length
bounds the depth of the reader's calls.
-/

namespace SpanCoverage.Json

/-- White space between tokens: space, line feed, carriage return and tab. -/
def isSpace (c : Char) : Bool := c = ' ' || c = '\n' || c = '\r' || c = '\t'

/-- The text behind the white space in front of it. -/
def skipSpace (cs : List Char) : List Char := cs.dropWhile isSpace

/-- A string literal up to its closing quote, and the text behind the quote. Control characters
must be escaped. -/
def scanLiteral : List Char → Option (List Char × List Char)
  | [] => none
  | '\"' :: rest => some ([], rest)
  | '\\' :: 'u' :: a :: b :: c :: d :: rest =>
    if (hexWord? a b c d).isSome then
      (scanLiteral rest).map fun p => ('\\' :: 'u' :: a :: b :: c :: d :: p.1, p.2)
    else none
  | '\\' :: c :: rest =>
    if (shortEscape? c).isSome then (scanLiteral rest).map fun p => ('\\' :: c :: p.1, p.2)
    else none
  | c :: rest =>
    if c = '\\' ∨ c.toNat < 0x20 then none
    else (scanLiteral rest).map fun p => (c :: p.1, p.2)

/-- A non-empty run of digits, and the text behind it. -/
def scanDigits (cs : List Char) : Option (List Char × List Char) :=
  let digits := cs.takeWhile Char.isDigit
  if digits.isEmpty then none else some (digits, cs.dropWhile Char.isDigit)

/-- The digits of a numeral before any point: a zero alone, or a run that starts with another
digit. -/
def scanWhole (cs : List Char) : Option (List Char × List Char) :=
  match scanDigits cs with
  | some (digits, rest) =>
    if digits.head? = some '0' ∧ digits.length ≠ 1 then none else some (digits, rest)
  | none => none

/-- A point with the digits behind it, or nothing where no point stands. -/
def scanFraction (cs : List Char) : Option (List Char × List Char) :=
  match cs with
  | '.' :: rest => (scanDigits rest).map fun p => ('.' :: p.1, p.2)
  | _ => some ([], cs)

/-- An exponent with its optional sign, or nothing where none stands. -/
def scanExponent (cs : List Char) : Option (List Char × List Char) :=
  match cs with
  | e :: rest =>
    if e = 'e' ∨ e = 'E' then
      match rest with
      | s :: digits =>
        if s = '+' ∨ s = '-' then (scanDigits digits).map fun p => (e :: s :: p.1, p.2)
        else (scanDigits rest).map fun p => (e :: p.1, p.2)
      | [] => none
    else some ([], cs)
  | [] => some ([], [])

/-- A numeral without a sign. -/
def scanUnsigned (cs : List Char) : Option (List Char × List Char) := do
  let (whole, cs) ← scanWhole cs
  let (fraction, cs) ← scanFraction cs
  let (exponent, cs) ← scanExponent cs
  return (whole ++ fraction ++ exponent, cs)

/-- A numeral with an optional minus sign. -/
def scanNumeral (cs : List Char) : Option (List Char × List Char) :=
  match cs with
  | '-' :: rest => (scanUnsigned rest).map fun p => ('-' :: p.1, p.2)
  | _ => scanUnsigned cs

mutual

/-- One document at the front of a text, and the text behind it. -/
def scan : Nat → List Char → Option (Json × List Char)
  | 0, _ => none
  | fuel + 1, cs =>
    match skipSpace cs with
    | 'n' :: 'u' :: 'l' :: 'l' :: rest => some (.null, rest)
    | 't' :: 'r' :: 'u' :: 'e' :: rest => some (.bool true, rest)
    | 'f' :: 'a' :: 'l' :: 's' :: 'e' :: rest => some (.bool false, rest)
    | '\"' :: rest => (scanLiteral rest).map fun p => (.str p.1, p.2)
    | '[' :: rest =>
      match skipSpace rest with
      | ']' :: rest => some (.arr [], rest)
      | _ => (scanItems fuel rest).map fun p => (.arr p.1, p.2)
    | '\x7b' :: rest =>
      match skipSpace rest with
      | '\x7d' :: rest => some (.obj [], rest)
      | _ => (scanMembers fuel rest).map fun p => (.obj p.1, p.2)
    | rest => (scanNumeral rest).map fun p => (.num p.1, p.2)

/-- Items up to the closing bracket. -/
def scanItems : Nat → List Char → Option (List Json × List Char)
  | 0, _ => none
  | fuel + 1, cs =>
    match scan fuel cs with
    | none => none
    | some (item, rest) =>
      match skipSpace rest with
      | ']' :: rest => some ([item], rest)
      | ',' :: rest => (scanItems fuel rest).map fun p => (item :: p.1, p.2)
      | _ => none

/-- Members up to the closing brace. -/
def scanMembers : Nat → List Char → Option (List (List Char × Json) × List Char)
  | 0, _ => none
  | fuel + 1, cs =>
    match skipSpace cs with
    | '\"' :: rest =>
      match scanLiteral rest with
      | none => none
      | some (key, rest) =>
        match skipSpace rest with
        | ':' :: rest =>
          match scan fuel rest with
          | none => none
          | some (value, rest) =>
            match skipSpace rest with
            | '\x7d' :: rest => some ([(key, value)], rest)
            | ',' :: rest => (scanMembers fuel rest).map fun p => ((key, value) :: p.1, p.2)
            | _ => none
        | _ => none
    | _ => none

end

/-- The document at the front of a text, and the text behind it. -/
def readFront? (cs : List Char) : Option (Json × List Char) := scan (2 * cs.length + 2) cs

end SpanCoverage.Json
