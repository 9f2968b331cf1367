/-!
# Decimal numerals

`readDecimal?` reads a non-empty run of the ASCII digits `0` to `9`, leading zeros included;
`readWord?` also allows one leading plus sign and refuses values that do not fit 32 bits. Main
statement: a number reads back from its own digits.
-/

namespace SpanCoverage.Text

/-! ## Runs of characters -/

section Runs

variable {p : Char → Bool} {run rest : List Char}

theorem takeWhile_run (hrun : ∀ c ∈ run, p c = true) (hrest : ∀ c ∈ rest.head?, p c = false) :
    (run ++ rest).takeWhile p = run := by
  rw [List.takeWhile_append_of_pos hrun]
  cases rest with
  | nil => simp
  | cons c rest => simp [hrest c rfl]

theorem dropWhile_run (hrun : ∀ c ∈ run, p c = true) (hrest : ∀ c ∈ rest.head?, p c = false) :
    (run ++ rest).dropWhile p = rest := by
  rw [List.dropWhile_append_of_pos hrun]
  cases rest with
  | nil => rfl
  | cons c rest => simp [hrest c rfl]

end Runs

/-! ## Numerals -/

/-- The value of a non-empty run of ASCII digits. -/
def readDecimal? (cs : List Char) : Option Nat :=
  if !cs.isEmpty && cs.all Char.isDigit then some (Nat.ofDigitChars 10 cs 0) else none

/-- A 32-bit word: decimal digits, with one optional plus sign in front. -/
def readWord? (cs : List Char) : Option UInt32 :=
  let digits := match cs with
    | '+' :: rest => rest
    | _ => cs
  (readDecimal? digits).bind fun n => if n < UInt32.size then some (UInt32.ofNat n) else none

/-- The numerals that can be read. -/
theorem readDecimal?_eq_some_iff {cs : List Char} {n : Nat} :
    readDecimal? cs = some n ↔
      cs ≠ [] ∧ (∀ c ∈ cs, c.isDigit = true) ∧ Nat.ofDigitChars 10 cs 0 = n := by
  have hcond : (!cs.isEmpty && cs.all Char.isDigit) = true ↔
      cs ≠ [] ∧ ∀ c ∈ cs, c.isDigit = true := by simp
  unfold readDecimal?
  by_cases h : cs ≠ [] ∧ ∀ c ∈ cs, c.isDigit = true
  · rw [if_pos (hcond.2 h), Option.some.injEq]
    exact ⟨fun hn => ⟨h.1, h.2, hn⟩, fun hn => hn.2.2⟩
  · rw [if_neg (mt hcond.1 h)]
    exact ⟨fun hn => (by cases hn), fun hn => absurd ⟨hn.1, hn.2.1⟩ h⟩

/-- Every number reads back from its decimal digits. -/
theorem readDecimal?_toDigits (n : Nat) : readDecimal? (Nat.toDigits 10 n) = some n := by
  have hne : (Nat.toDigits 10 n).isEmpty = false := by
    simp [List.isEmpty_eq_false_iff, Nat.toDigits_ne_nil]
  have hdigits : (Nat.toDigits 10 n).all Char.isDigit = true :=
    List.all_eq_true.2 fun c hc => Nat.isDigit_of_mem_toDigits (by decide) (by decide) hc
  simp [readDecimal?, hne, hdigits, Nat.ofDigitChars_toDigits]

end SpanCoverage.Text
