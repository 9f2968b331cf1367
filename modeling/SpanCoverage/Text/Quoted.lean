import SpanCoverage.Text.Hex
import SpanCoverage.Text.Hidden

/-!
# Quoted text

How a listing writes a string constant: between double quotes, with a backslash before a double
quote or a backslash, with the short escapes for NUL, tab, carriage return and line feed, and with
the code point in braces for every other hidden character.
-/

namespace SpanCoverage.Text

/-- One character as it stands between the quotes. -/
def escape (c : Char) : List Char :=
  if c = '\x00' then ['\\', '0']
  else if c = '\t' then ['\\', 't']
  else if c = '\r' then ['\\', 'r']
  else if c = '\n' then ['\\', 'n']
  else if c = '\\' then ['\\', '\\']
  else if c = '\"' then ['\\', '\"']
  else if isHidden c then ['\\', 'u', '\x7b'] ++ hex c.toNat ++ ['\x7d']
  else [c]

/-- The text between double quotes. -/
def quoted (cs : List Char) : List Char :=
  '\"' :: cs.flatMap escape ++ ['\"']

/-- A printing ASCII character other than the quote and the backslash stands for itself. -/
theorem escape_of_ascii (c : Char) (low : 0x20 ≤ c.toNat) (high : c.toNat < 0x7F)
    (quote : c ≠ '\"') (backslash : c ≠ '\\') : escape c = [c] := by
  have h0 : c ≠ '\x00' := by rintro rfl; exact absurd low (by decide)
  have h1 : c ≠ '\t' := by rintro rfl; exact absurd low (by decide)
  have h2 : c ≠ '\r' := by rintro rfl; exact absurd low (by decide)
  have h3 : c ≠ '\n' := by rintro rfl; exact absurd low (by decide)
  simp [escape, h0, h1, h2, h3, quote, backslash, isHidden_of_ascii c low high]

end SpanCoverage.Text
