/-!
# Blank characters, trimming and lines

A character is blank if it has the Unicode property White_Space; `trim` removes blank characters
from both ends, and `lines` splits a text at line feeds. A carriage return is blank, so trimming a
line also removes the one that a two-character line end leaves behind.
-/

namespace SpanCoverage.Text

/-- The twenty-five characters with the Unicode property White_Space. -/
def isBlank (c : Char) : Bool :=
  let n := c.toNat
  (0x09 ≤ n && n ≤ 0x0D) || n == 0x20 || n == 0x85 || n == 0xA0 || n == 0x1680
    || (0x2000 ≤ n && n ≤ 0x200A) || n == 0x2028 || n == 0x2029 || n == 0x202F || n == 0x205F
    || n == 0x3000

/-- Blank is wider than the four characters that `Char.isWhitespace` knows. -/
theorem isBlank_of_isWhitespace (c : Char) (h : c.isWhitespace = true) : isBlank c = true := by
  simp only [Char.isWhitespace, Bool.or_eq_true, decide_eq_true_eq] at h
  rcases h with ((rfl | rfl) | rfl) | rfl <;> decide

/-- The text without the blank characters at its two ends. -/
def trim (cs : List Char) : List Char :=
  ((cs.dropWhile isBlank).reverse.dropWhile isBlank).reverse

/-- The pieces between line feeds. A final line feed is followed by one more, empty piece. -/
def lines : List Char → List (List Char)
  | [] => [[]]
  | c :: rest =>
    if c = '\n' then [] :: lines rest
    else match lines rest with
      | [] => [[c]]
      | line :: more => (c :: line) :: more

/-- There is always a piece, be it empty. -/
theorem lines_ne_nil (cs : List Char) : lines cs ≠ [] := by
  cases cs with
  | nil => simp [lines]
  | cons c rest => unfold lines; split <;> (try split) <;> simp

/-- The pieces, put back together with line feeds, are the text. -/
theorem intercalate_lines (cs : List Char) : List.intercalate ['\n'] (lines cs) = cs := by
  induction cs with
  | nil => rfl
  | cons c rest ih =>
    cases hl : lines rest with
    | nil => exact absurd hl (lines_ne_nil rest)
    | cons line more =>
      rw [hl] at ih
      by_cases hc : c = '\n'
      · simpa [lines, hl, hc, List.intercalate] using ih
      · cases more <;> simpa [lines, hl, hc, List.intercalate] using ih

end SpanCoverage.Text
