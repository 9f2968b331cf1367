import SpanCoverage.Text.Hex

/-!
# JSON documents

A document as it is written, less the white space between its tokens: numerals and string literals
are kept as they stand, and `decodeLiteral` gives a literal's text. Documents are written on one
line (`compact`) or over indented lines (`pretty`). Main statement: `decodeLiteral_encodeText`, the
literal written for a text reads back as the text.
-/

namespace SpanCoverage

/-- A document. Members of an object keep their order, and a key may come more than once. -/
inductive Json where
  | null
  | bool (value : Bool)
  /-- A numeral as written. -/
  | num (numeral : List Char)
  /-- A string literal as written between its quotes. -/
  | str (literal : List Char)
  | arr (items : List Json)
  | obj (members : List (List Char × Json))

namespace Json

/-! ## Literals -/

/-- One character of a text inside a string literal: a backslash escape for the quote, the
backslash and the control characters, and the character itself otherwise. -/
def encodeChar (c : Char) : List Char :=
  if c = '\"' then ['\\', '\"']
  else if c = '\\' then ['\\', '\\']
  else if c = '\x08' then ['\\', 'b']
  else if c = '\x0c' then ['\\', 'f']
  else if c = '\n' then ['\\', 'n']
  else if c = '\r' then ['\\', 'r']
  else if c = '\t' then ['\\', 't']
  else if c.toNat < 0x20 then ['\\', 'u'] ++ Text.hexPadded 4 c.toNat
  else [c]

/-- A text as a string literal. -/
def encodeText (cs : List Char) : List Char := cs.flatMap encodeChar

/-- The value of four hexadecimal digits. -/
def hexWord? (a b c d : Char) : Option Nat := do
  let a ← Text.hexValue? a
  let b ← Text.hexValue? b
  let c ← Text.hexValue? c
  let d ← Text.hexValue? d
  return ((a * 16 + b) * 16 + c) * 16 + d

/-- The character of a one-letter escape. -/
def shortEscape? (c : Char) : Option Char :=
  if c = '\"' then some '\"'
  else if c = '\\' then some '\\'
  else if c = '/' then some '/'
  else if c = 'b' then some '\x08'
  else if c = 'f' then some '\x0c'
  else if c = 'n' then some '\n'
  else if c = 'r' then some '\r'
  else if c = 't' then some '\t'
  else none

/-- A UTF-16 code unit that opens a pair. -/
def isHighSurrogate (n : Nat) : Bool := 0xD800 ≤ n && n < 0xDC00

/-- A UTF-16 code unit that closes a pair. -/
def isLowSurrogate (n : Nat) : Bool := 0xDC00 ≤ n && n < 0xE000

/-- The text of a string literal. A literal that writes one half of a surrogate pair without the
other has no text, although it is a literal. -/
def decodeLiteral : List Char → Option (List Char)
  | [] => some []
  | '\\' :: 'u' :: a :: b :: c :: d :: rest =>
    match hexWord? a b c d with
    | none => none
    | some n =>
      if isHighSurrogate n then
        match rest with
        | '\\' :: 'u' :: e :: f :: g :: h :: rest =>
          match hexWord? e f g h with
          | none => none
          | some m =>
            if isLowSurrogate m then
              (decodeLiteral rest).map
                (Char.ofNat (0x10000 + (n - 0xD800) * 0x400 + (m - 0xDC00)) :: ·)
            else none
        | _ => none
      else if isLowSurrogate n then none
      else (decodeLiteral rest).map (Char.ofNat n :: ·)
  | '\\' :: c :: rest =>
    match shortEscape? c with
    | none => none
    | some e => (decodeLiteral rest).map (e :: ·)
  | c :: rest => if c = '\\' then none else (decodeLiteral rest).map (c :: ·)

/-- Four digits written for a number below 32 have that value. -/
theorem hexWord?_control : ∀ n < 32,
    hexWord? '0' '0' (Nat.digitChar (n / 16)) (Nat.digitChar (n % 16)) = some n := by decide

/-- The four digits of a number below 32. -/
theorem hexPadded_control {n : Nat} (h : n < 0x20) :
    Text.hexPadded 4 n = ['0', '0', Nat.digitChar (n / 16), Nat.digitChar (n % 16)] := by
  have h1 : n / 16 % 16 = n / 16 := Nat.mod_eq_of_lt (by omega)
  have h2 : n / 16 / 16 = 0 := by omega
  simp [Text.hexPadded, h1, h2]

/-- The escape of a control character reads as the character. -/
theorem decodeLiteral_control (c : Char) (h : c.toNat < 0x20) (rest : List Char) :
    decodeLiteral (['\\', 'u'] ++ Text.hexPadded 4 c.toNat ++ rest)
      = (decodeLiteral rest).map (c :: ·) := by
  have hhigh : isHighSurrogate c.toNat = false := by simp [isHighSurrogate]; omega
  have hlow : isLowSurrogate c.toNat = false := by simp [isLowSurrogate]; omega
  simp [hexPadded_control h, decodeLiteral, hexWord?_control c.toNat h, hhigh, hlow]

/-- What is written for a character reads as the character. -/
theorem decodeLiteral_encodeChar (c : Char) (rest : List Char) :
    decodeLiteral (encodeChar c ++ rest) = (decodeLiteral rest).map (c :: ·) := by
  unfold encodeChar
  split
  · simp_all [decodeLiteral, shortEscape?]
  split
  · simp_all [decodeLiteral, shortEscape?]
  split
  · simp_all [decodeLiteral, shortEscape?]
  split
  · simp_all [decodeLiteral, shortEscape?]
  split
  · simp_all [decodeLiteral, shortEscape?]
  split
  · simp_all [decodeLiteral, shortEscape?]
  split
  · simp_all [decodeLiteral, shortEscape?]
  split
  · rename_i h; exact decodeLiteral_control c h rest
  · rename_i hb _ _ _ _ _ _
    simp [decodeLiteral, hb]

/-- The literal written for a text reads back as the text. -/
theorem decodeLiteral_encodeText (cs : List Char) : decodeLiteral (encodeText cs) = some cs := by
  induction cs with
  | nil => rfl
  | cons c cs ih =>
    have : encodeText (c :: cs) = encodeChar c ++ encodeText cs := rfl
    rw [this, decodeLiteral_encodeChar, ih]
    rfl

/-! ## Building and writing -/

/-- The document of a text. -/
def ofText (text : String) : Json := .str (encodeText text.toList)

/-- The document of a number. -/
def ofNat (n : Nat) : Json := .num (Nat.toDigits 10 n)

/-- An object with these keys and values. -/
def ofMembers (members : List (String × Json)) : Json :=
  .obj (members.map fun m => (encodeText m.1.toList, m.2))

/-- A string literal with its quotes. -/
def quote (literal : List Char) : List Char := '\"' :: literal ++ ['\"']

mutual

/-- The document on one line, without any white space. -/
def compact : Json → List Char
  | .null => ['n', 'u', 'l', 'l']
  | .bool true => ['t', 'r', 'u', 'e']
  | .bool false => ['f', 'a', 'l', 's', 'e']
  | .num numeral => numeral
  | .str literal => quote literal
  | .arr items => '[' :: compactItems items ++ [']']
  | .obj members => '\x7b' :: compactMembers members ++ ['\x7d']

/-- Items with commas between. -/
def compactItems : List Json → List Char
  | [] => []
  | [item] => item.compact
  | item :: items => item.compact ++ ',' :: compactItems items

/-- Members with commas between. -/
def compactMembers : List (List Char × Json) → List Char
  | [] => []
  | [(key, value)] => quote key ++ ':' :: value.compact
  | (key, value) :: members => quote key ++ ':' :: value.compact ++ ',' :: compactMembers members

end

/-- A new line at a depth, two spaces for each level. -/
def newLine (depth : Nat) : List Char := '\n' :: List.replicate (2 * depth) ' '

mutual

/-- The document over lines: each item and member on a line of its own, two spaces deeper than what
holds it, with a space behind each colon. An array or object without parts stays on its line. -/
def pretty (depth : Nat) : Json → List Char
  | .null => ['n', 'u', 'l', 'l']
  | .bool true => ['t', 'r', 'u', 'e']
  | .bool false => ['f', 'a', 'l', 's', 'e']
  | .num numeral => numeral
  | .str literal => quote literal
  | .arr items =>
    if items.isEmpty then ['[', ']']
    else '[' :: prettyItems (depth + 1) items ++ newLine depth ++ [']']
  | .obj members =>
    if members.isEmpty then ['\x7b', '\x7d']
    else '\x7b' :: prettyMembers (depth + 1) members ++ newLine depth ++ ['\x7d']

/-- Items on lines of their own, with commas behind all but the last. -/
def prettyItems (depth : Nat) : List Json → List Char
  | [] => []
  | [item] => newLine depth ++ item.pretty depth
  | item :: items => newLine depth ++ item.pretty depth ++ ',' :: prettyItems depth items

/-- Members on lines of their own, with commas behind all but the last. -/
def prettyMembers (depth : Nat) : List (List Char × Json) → List Char
  | [] => []
  | [(key, value)] => newLine depth ++ quote key ++ [':', ' '] ++ value.pretty depth
  | (key, value) :: members =>
    newLine depth ++ quote key ++ [':', ' '] ++ value.pretty depth
      ++ ',' :: prettyMembers depth members

end

end Json

end SpanCoverage
