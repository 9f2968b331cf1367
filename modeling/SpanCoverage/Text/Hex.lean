/-!
# Hexadecimal numerals

Two forms are written: `hex` with as few digits as the number needs, and `hexPadded` with a fixed
number of digits. Both use lower-case letters. `hexValue?` reads one digit of either case.
-/

namespace SpanCoverage.Text

/-- The number in base sixteen, without leading zeros. -/
def hex (n : Nat) : List Char := Nat.toDigits 16 n

/-- The last `width` digits of the number in base sixteen, padded with zeros on the left. -/
def hexPadded : Nat → Nat → List Char
  | 0, _ => []
  | width + 1, n => hexPadded width (n / 16) ++ [Nat.digitChar (n % 16)]

/-- A padded numeral has exactly the digits asked for. -/
@[simp] theorem length_hexPadded (width n : Nat) : (hexPadded width n).length = width := by
  induction width generalizing n with
  | zero => rfl
  | succ width ih => simp [hexPadded, ih]

/-- The value of one hexadecimal digit, of either case. -/
def hexValue? (c : Char) : Option Nat :=
  if '0' ≤ c ∧ c ≤ '9' then some (c.toNat - '0'.toNat)
  else if 'a' ≤ c ∧ c ≤ 'f' then some (c.toNat - 'a'.toNat + 10)
  else if 'A' ≤ c ∧ c ≤ 'F' then some (c.toNat - 'A'.toNat + 10)
  else none

end SpanCoverage.Text
