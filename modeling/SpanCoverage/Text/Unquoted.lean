import SpanCoverage.Text.Quoted

/-!
# Reading quoted text

`readQuoted` takes a text up to its closing quote and undoes the escapes on the way, so a listing
shows each string constant as itself and where it ends. Main statement: `readQuoted_quoted`, the
text between the quotes reads back, whatever stands behind it.
-/

namespace SpanCoverage.Text

/-! ## Hexadecimal numerals -/

/-- The value of a hexadecimal numeral. -/
def hexNumber (cs : List Char) : Nat := cs.foldl (fun n c => 16 * n + (hexValue? c).getD 0) 0

theorem hexNumber_concat (cs : List Char) (c : Char) :
    hexNumber (cs ++ [c]) = 16 * hexNumber cs + (hexValue? c).getD 0 := by
  simp [hexNumber]

theorem hexValue?_digitChar : ∀ d < 16, hexValue? (Nat.digitChar d) = some d := by decide

/-- A padded numeral has the value of the digits it keeps. -/
theorem hexNumber_hexPadded (width n : Nat) :
    hexNumber (hexPadded width n) = n % Nat.pow 16 width := by
  induction width generalizing n with
  | zero => simp [hexPadded, hexNumber, Nat.mod_one]
  | succ width ih =>
    have hdigit : n % 16 < 16 := Nat.mod_lt _ (by decide)
    have hpow : Nat.pow 16 (width + 1) = 16 * Nat.pow 16 width := Nat.pow_succ'
    rw [hexPadded, hexNumber_concat, ih, hexValue?_digitChar _ hdigit, Option.getD_some, hpow,
      Nat.mod_mul, Nat.add_comm]

/-- A numeral has the value it is written for, and digits alone. -/
theorem hexNumber_hex (n : Nat) :
    hexNumber (hex n) = n ∧ ∀ c ∈ hex n, (hexValue? c).isSome = true := by
  induction n using Nat.strongRecOn with
  | ind n ih =>
    rw [hex, Nat.toDigits_eq_if (by decide)]
    split
    · rename_i hlt
      simp [hexNumber, hexValue?_digitChar n hlt]
    · rename_i hge
      obtain ⟨hvalue, hdigits⟩ := ih (n / 16) (by omega)
      have hdigit := hexValue?_digitChar (n % 16) (Nat.mod_lt _ (by decide))
      rw [hex] at hvalue hdigits
      refine ⟨?_, ?_⟩
      · rw [hexNumber_concat, hvalue, hdigit, Option.getD_some]
        omega
      · intro c hc
        rcases List.mem_append.1 hc with hc | hc
        · exact hdigits c hc
        · rw [List.mem_singleton.1 hc, hdigit]
          rfl

/-! ## Escapes -/

/-- The character behind a backslash: a control character for its letter, and itself otherwise. -/
def unescape (c : Char) : Char :=
  if c = '0' then '\x00'
  else if c = 't' then '\t'
  else if c = 'r' then '\r'
  else if c = 'n' then '\n'
  else c

mutual

/-- The text up to the closing quote, and what stands behind the quote. -/
def readQuoted : List Char → Option (List Char × List Char)
  | [] => none
  | '\"' :: rest => some ([], rest)
  | '\\' :: 'u' :: '\x7b' :: rest => readCode 0 rest
  | '\\' :: c :: rest => (readQuoted rest).map fun p => (unescape c :: p.1, p.2)
  | c :: rest => (readQuoted rest).map fun p => (c :: p.1, p.2)

/-- The same from within a code point, of which the digits so far have a value. -/
def readCode (value : Nat) : List Char → Option (List Char × List Char)
  | [] => none
  | '\x7d' :: rest => (readQuoted rest).map fun p => (Char.ofNat value :: p.1, p.2)
  | c :: rest => (hexValue? c).bind fun d => readCode (16 * value + d) rest

end

section Escapes

variable {c : Char} {cs rest behind : List Char}

theorem readQuoted_plain (hquote : c ≠ '\"') (hbackslash : c ≠ '\\')
    (h : readQuoted rest = some (cs, behind)) :
    readQuoted (c :: rest) = some (c :: cs, behind) := by
  rw [readQuoted]
  · simp [h]
  all_goals simp [hquote, hbackslash]

theorem readQuoted_backslash (hc : c ≠ 'u') (h : readQuoted rest = some (cs, behind)) :
    readQuoted ('\\' :: c :: rest) = some (unescape c :: cs, behind) := by
  rw [readQuoted]
  · simp [h]
  · exact fun _ hu => absurd hu hc

theorem readCode_digits (value : Nat) {digits : List Char}
    (hdigits : ∀ c ∈ digits, (hexValue? c).isSome = true)
    (h : readQuoted rest = some (cs, behind)) :
    readCode value (digits ++ '\x7d' :: rest) =
      some (Char.ofNat (digits.foldl (fun n c => 16 * n + (hexValue? c).getD 0) value) :: cs,
        behind) := by
  induction digits generalizing value with
  | nil => simp [readCode, h]
  | cons d digits ih =>
    obtain ⟨hd, hdigits⟩ := List.forall_mem_cons.1 hdigits
    obtain ⟨n, hn⟩ := Option.isSome_iff_exists.1 hd
    have hbrace : d ≠ '\x7d' := by rintro rfl; exact absurd hd (by decide)
    rw [List.cons_append, readCode]
    · simp [hn, ih (16 * value + n) hdigits]
    · exact hbrace

theorem readQuoted_code (n : Nat) (h : readQuoted rest = some (cs, behind)) :
    readQuoted ('\\' :: 'u' :: '\x7b' :: (hex n ++ '\x7d' :: rest)) =
      some (Char.ofNat n :: cs, behind) := by
  obtain ⟨hvalue, hdigits⟩ := hexNumber_hex n
  rw [readQuoted, readCode_digits 0 hdigits h, ← hexNumber, hvalue]

/-- One character reads back from its escape. -/
theorem readQuoted_escape (c : Char) (h : readQuoted rest = some (cs, behind)) :
    readQuoted (escape c ++ rest) = some (c :: cs, behind) := by
  unfold escape
  split
  · rename_i hc
    subst hc
    exact readQuoted_backslash (by decide) h
  split
  · rename_i hc
    subst hc
    exact readQuoted_backslash (by decide) h
  split
  · rename_i hc
    subst hc
    exact readQuoted_backslash (by decide) h
  split
  · rename_i hc
    subst hc
    exact readQuoted_backslash (by decide) h
  split
  · rename_i hc
    subst hc
    exact readQuoted_backslash (by decide) h
  split
  · rename_i hc
    subst hc
    exact readQuoted_backslash (by decide) h
  rename_i hbackslash hquote
  split
  · simpa using readQuoted_code c.toNat h
  · exact readQuoted_plain hquote hbackslash h

end Escapes

/-- **The text between the quotes reads back.** -/
theorem readQuoted_quoted (cs rest : List Char) :
    readQuoted (cs.flatMap escape ++ '\"' :: rest) = some (cs, rest) := by
  induction cs with
  | nil =>
    rw [List.flatMap_nil, List.nil_append, readQuoted]
  | cons c cs ih =>
    rw [List.flatMap_cons, List.append_assoc]
    exact readQuoted_escape c ih

end SpanCoverage.Text
