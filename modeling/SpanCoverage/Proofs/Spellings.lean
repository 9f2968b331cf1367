import Mathlib.Data.List.TakeWhile
import SpanCoverage.Json.Spelling
import SpanCoverage.Text.Decimal

/-!
# Reading every spelling

The reader of JSON and the grammar of its texts agree.  A token is read to its end: a literal ends
with its quote, and a numeral ends where no digit, point or exponent goes on.  So from the tokens of
a document, with white space in front of each, the reader takes just these tokens; and what it takes
from any text are the tokens of the document that it gives.

The main results are:

* `Json.scanNumeral_append`, `Json.scanLiteral_append` — a numeral or a literal is read to its end.
* `Json.scan_of_spaced` — the document is read off its tokens.
* `Json.faithful` — what is read are the tokens of the document.
* `Json.readFront?_iff_spells` — the texts from which a document is read are its spellings.
-/

namespace SpanCoverage.Json

/-! ## Numerals -/

/-- A text that does not go on with a numeral. -/
def Stops (cs : List Char) : Prop :=
  ∀ c ∈ cs.head?, c.isDigit = false ∧ c ≠ '.' ∧ c ≠ 'e' ∧ c ≠ 'E'

theorem scanDigits_append {digits rest : List Char} (h : IsDigits digits)
    (hrest : ∀ c ∈ rest.head?, c.isDigit = false) :
    scanDigits (digits ++ rest) = some (digits, rest) := by
  simp [scanDigits, Text.takeWhile_run h.2 hrest, Text.dropWhile_run h.2 hrest, h.1]

theorem scanDigits_eq_some {cs digits rest : List Char} (h : scanDigits cs = some (digits, rest)) :
    IsDigits digits ∧ cs = digits ++ rest := by
  unfold scanDigits at h
  dsimp only at h
  split at h
  · cases h
  · rename_i hne
    cases h
    refine ⟨⟨by simpa using hne, fun c hc => List.mem_takeWhile_imp hc⟩, ?_⟩
    exact (List.takeWhile_append_dropWhile).symm

theorem scanWhole_append {whole rest : List Char} (h : IsWhole whole)
    (hrest : ∀ c ∈ rest.head?, c.isDigit = false) :
    scanWhole (whole ++ rest) = some (whole, rest) := by
  have hzero : ¬(whole.head? = some '0' ∧ whole.length ≠ 1) := by
    rintro ⟨hhead, hlength⟩
    exact hlength (by rw [h.2 hhead]; rfl)
  simp only [scanWhole, scanDigits_append h.1 hrest, if_neg hzero]

theorem scanWhole_eq_some {cs whole rest : List Char} (h : scanWhole cs = some (whole, rest)) :
    IsWhole whole ∧ cs = whole ++ rest := by
  unfold scanWhole at h
  split at h
  · rename_i digits rest' hdigits
    split at h
    · cases h
    · rename_i hzero
      cases h
      obtain ⟨hwhole, hcs⟩ := scanDigits_eq_some hdigits
      refine ⟨⟨hwhole, fun hhead => ?_⟩, hcs⟩
      have hlength : whole.length = 1 := by
        by_contra hne
        exact hzero ⟨hhead, hne⟩
      obtain ⟨c, rfl⟩ := List.length_eq_one_iff.1 hlength
      exact congrArg (fun c => [c]) (Option.some.inj hhead)
  · cases h

theorem scanFraction_append {fraction rest : List Char} (h : IsFraction fraction)
    (hrest : ∀ c ∈ rest.head?, c.isDigit = false ∧ c ≠ '.') :
    scanFraction (fraction ++ rest) = some (fraction, rest) := by
  rcases h with rfl | ⟨digits, rfl, hdigits⟩
  · unfold scanFraction
    split
    · rename_i rest' hcs
      exact absurd rfl (hrest '.' (by rw [show rest = '.' :: rest' from hcs]; rfl)).2
    · rfl
  · simp [scanFraction, scanDigits_append hdigits fun c hc => (hrest c hc).1]

theorem scanFraction_eq_some {cs fraction rest : List Char}
    (h : scanFraction cs = some (fraction, rest)) :
    IsFraction fraction ∧ cs = fraction ++ rest := by
  unfold scanFraction at h
  split at h
  · obtain ⟨⟨digits, rest'⟩, hdigits, heq⟩ := Option.map_eq_some_iff.1 h
    obtain ⟨hrun, rfl⟩ := scanDigits_eq_some hdigits
    cases heq
    exact ⟨.inr ⟨digits, rfl, hrun⟩, rfl⟩
  · cases h
    exact ⟨.inl rfl, rfl⟩

theorem scanExponent_append {exponent rest : List Char} (h : IsExponent exponent)
    (hrest : Stops rest) : scanExponent (exponent ++ rest) = some (exponent, rest) := by
  rcases h with rfl | ⟨e, sign, digits, rfl, he, hsign, hdigits⟩
  · cases rest with
    | nil => rfl
    | cons c rest =>
      obtain ⟨_, _, he, hE⟩ := hrest c rfl
      simp [scanExponent, he, hE]
  · have hscan := scanDigits_append hdigits fun c hc => (hrest c hc).1
    rcases hsign with rfl | rfl | rfl
    · -- without a sign the exponent goes on with a digit
      obtain ⟨hne, hall⟩ := hdigits
      cases digits with
      | nil => exact absurd rfl hne
      | cons d ds =>
        have hd := hall d List.mem_cons_self
        have hplus : d ≠ '+' := by rintro rfl; exact absurd hd (by decide)
        have hminus : d ≠ '-' := by rintro rfl; exact absurd hd (by decide)
        rw [List.cons_append] at hscan
        simp [scanExponent, he, hplus, hminus, hscan]
    · simp [scanExponent, he, hscan]
    · simp [scanExponent, he, hscan]

theorem scanExponent_eq_some {cs exponent rest : List Char}
    (h : scanExponent cs = some (exponent, rest)) :
    IsExponent exponent ∧ cs = exponent ++ rest := by
  cases cs with
  | nil =>
    cases h
    exact ⟨.inl rfl, rfl⟩
  | cons e cs =>
    by_cases he : e = 'e' ∨ e = 'E'
    · simp only [scanExponent, if_pos he] at h
      cases cs with
      | nil => cases h
      | cons s cs =>
        dsimp only at h
        by_cases hs : s = '+' ∨ s = '-'
        · rw [if_pos hs] at h
          obtain ⟨⟨digits, rest'⟩, hdigits, heq⟩ := Option.map_eq_some_iff.1 h
          obtain ⟨hrun, rfl⟩ := scanDigits_eq_some hdigits
          cases heq
          exact ⟨.inr ⟨e, [s], digits, rfl, he, .inr (by simpa using hs), hrun⟩, rfl⟩
        · rw [if_neg hs] at h
          obtain ⟨⟨digits, rest'⟩, hdigits, heq⟩ := Option.map_eq_some_iff.1 h
          obtain ⟨hrun, hcs⟩ := scanDigits_eq_some hdigits
          cases heq
          exact ⟨.inr ⟨e, [], digits, rfl, he, .inl rfl, hrun⟩, congrArg (e :: ·) hcs⟩
    · simp only [scanExponent, if_neg he] at h
      cases h
      exact ⟨.inl rfl, rfl⟩

theorem Stops.exponent {exponent rest : List Char} (h : Stops rest) (he : IsExponent exponent) :
    ∀ c ∈ (exponent ++ rest).head?, c.isDigit = false ∧ c ≠ '.' := by
  rcases he with rfl | ⟨e, sign, digits, rfl, rfl | rfl, _⟩
  · exact fun c hc => ⟨(h c hc).1, (h c hc).2.1⟩
  · rintro c ⟨⟩
    exact ⟨by decide, by decide⟩
  · rintro c ⟨⟩
    exact ⟨by decide, by decide⟩

theorem head?_fraction {fraction rest : List Char} (hf : IsFraction fraction)
    (hrest : ∀ c ∈ rest.head?, c.isDigit = false ∧ c ≠ '.') :
    ∀ c ∈ (fraction ++ rest).head?, c.isDigit = false := by
  rcases hf with rfl | ⟨digits, rfl, _⟩
  · exact fun c hc => (hrest c hc).1
  · rintro c ⟨⟩
    decide

theorem scanUnsigned_append {whole fraction exponent rest : List Char} (hw : IsWhole whole)
    (hf : IsFraction fraction) (he : IsExponent exponent) (hrest : Stops rest) :
    scanUnsigned (whole ++ (fraction ++ (exponent ++ rest))) =
      some (whole ++ (fraction ++ exponent), rest) := by
  have hexponent := hrest.exponent he
  simp [scanUnsigned, scanWhole_append hw (head?_fraction hf hexponent),
    scanFraction_append hf hexponent, scanExponent_append he hrest]

theorem scanUnsigned_eq_some {cs numeral rest : List Char}
    (h : scanUnsigned cs = some (numeral, rest)) :
    ∃ whole fraction exponent, numeral = whole ++ (fraction ++ exponent) ∧ IsWhole whole ∧
      IsFraction fraction ∧ IsExponent exponent ∧ cs = numeral ++ rest := by
  obtain ⟨⟨whole, cs₁⟩, hwhole, h₁⟩ := Option.bind_eq_some_iff.1 h
  obtain ⟨⟨fraction, cs₂⟩, hfraction, h₂⟩ := Option.bind_eq_some_iff.1 h₁
  obtain ⟨⟨exponent, cs₃⟩, hexponent, h₃⟩ := Option.bind_eq_some_iff.1 h₂
  obtain ⟨hw, rfl⟩ := scanWhole_eq_some hwhole
  obtain ⟨hf, rfl⟩ := scanFraction_eq_some hfraction
  obtain ⟨he, rfl⟩ := scanExponent_eq_some hexponent
  cases h₃
  exact ⟨whole, fraction, exponent, by simp, hw, hf, he, by simp⟩

/-- **A numeral is read to its end.** -/
theorem scanNumeral_append {numeral rest : List Char} (h : IsNumeral numeral) (hrest : Stops rest) :
    scanNumeral (numeral ++ rest) = some (numeral, rest) := by
  obtain ⟨sign, whole, fraction, exponent, rfl, hsign, hw, hf, he⟩ := h
  have hscan := scanUnsigned_append hw hf he hrest
  rcases hsign with rfl | rfl
  · simp only [List.nil_append, List.append_assoc]
    unfold scanNumeral
    split
    · rename_i cs hcs
      obtain ⟨hne, hall⟩ := hw.1
      cases whole with
      | nil => exact absurd rfl hne
      | cons d ds =>
        obtain rfl := (List.cons.inj hcs).1
        exact absurd (hall '-' List.mem_cons_self) (by decide)
    · exact hscan
  · simp [scanNumeral, hscan]

theorem scanNumeral_eq_some {cs numeral rest : List Char}
    (h : scanNumeral cs = some (numeral, rest)) : IsNumeral numeral ∧ cs = numeral ++ rest := by
  unfold scanNumeral at h
  split at h
  · obtain ⟨⟨unsigned, rest'⟩, hscan, heq⟩ := Option.map_eq_some_iff.1 h
    obtain ⟨whole, fraction, exponent, rfl, hw, hf, he, rfl⟩ := scanUnsigned_eq_some hscan
    cases heq
    exact ⟨⟨['-'], whole, fraction, exponent, rfl, .inr rfl, hw, hf, he⟩, rfl⟩
  · obtain ⟨whole, fraction, exponent, rfl, hw, hf, he, hcs⟩ := scanUnsigned_eq_some h
    exact ⟨⟨[], whole, fraction, exponent, rfl, .inl rfl, hw, hf, he⟩, hcs⟩

/-! ## Literals -/

theorem isSome_hexWord?_iff {a b c d : Char} :
    (hexWord? a b c d).isSome = true ↔ ∀ x ∈ [a, b, c, d], (Text.hexValue? x).isSome = true := by
  constructor
  · intro h
    obtain ⟨n, hn⟩ := Option.isSome_iff_exists.1 h
    obtain ⟨_, ha, hn⟩ := Option.bind_eq_some_iff.1 hn
    obtain ⟨_, hb, hn⟩ := Option.bind_eq_some_iff.1 hn
    obtain ⟨_, hc, hn⟩ := Option.bind_eq_some_iff.1 hn
    obtain ⟨_, hd, _⟩ := Option.bind_eq_some_iff.1 hn
    simp [ha, hb, hc, hd]
  · intro h
    obtain ⟨_, ha⟩ := Option.isSome_iff_exists.1 (h a (by simp))
    obtain ⟨_, hb⟩ := Option.isSome_iff_exists.1 (h b (by simp))
    obtain ⟨_, hc⟩ := Option.isSome_iff_exists.1 (h c (by simp))
    obtain ⟨_, hd⟩ := Option.isSome_iff_exists.1 (h d (by simp))
    simp [hexWord?, ha, hb, hc, hd]

theorem isSome_shortEscape?_iff {c : Char} :
    (shortEscape? c).isSome = true ↔ c ∈ ['\"', '\\', '/', 'b', 'f', 'n', 'r', 't'] := by
  unfold shortEscape?
  repeat' split
  all_goals simp_all

/-- **A literal is read to its quote.** -/
theorem scanLiteral_append {literal : List Char} (h : IsLiteral literal) (rest : List Char) :
    scanLiteral (literal ++ '\"' :: rest) = some (literal, rest) := by
  induction h with
  | nil => rfl
  | plain hquote hbackslash hcontrol _ ih =>
    simp [scanLiteral, hbackslash, ih]
    omega
  | @short c cs hc _ ih =>
    have hsome := isSome_shortEscape?_iff.2 hc
    have hu : c ≠ 'u' := by rintro rfl; exact absurd hc (by decide)
    simp [scanLiteral, hu, hsome, ih]
  | unicode hdigits _ ih =>
    simp [scanLiteral, isSome_hexWord?_iff.2 hdigits, ih]

theorem scanLiteral_eq_some {cs literal rest : List Char}
    (h : scanLiteral cs = some (literal, rest)) :
    IsLiteral literal ∧ cs = literal ++ '\"' :: rest := by
  fun_induction scanLiteral cs generalizing literal with
  | case1 => cases h
  | case2 =>
    cases h
    exact ⟨.nil, rfl⟩
  | case3 a b c d cs hword ih =>
    obtain ⟨⟨literal', rest'⟩, hscan, heq⟩ := Option.map_eq_some_iff.1 h
    cases heq
    obtain ⟨hliteral, rfl⟩ := ih hscan
    exact ⟨.unicode (isSome_hexWord?_iff.1 hword) hliteral, rfl⟩
  | case4 => cases h
  | case5 c cs _ hescape ih =>
    obtain ⟨⟨literal', rest'⟩, hscan, heq⟩ := Option.map_eq_some_iff.1 h
    cases heq
    obtain ⟨hliteral, rfl⟩ := ih hscan
    exact ⟨.short (isSome_shortEscape?_iff.1 hescape) hliteral, rfl⟩
  | case6 => cases h
  | case7 => cases h
  | case8 c cs hquote _ _ hplain ih =>
    obtain ⟨⟨literal', rest'⟩, hscan, heq⟩ := Option.map_eq_some_iff.1 h
    cases heq
    obtain ⟨hliteral, rfl⟩ := ih hscan
    obtain ⟨hbackslash, hcontrol⟩ := not_or.1 hplain
    exact ⟨.plain hquote hbackslash (Nat.le_of_not_lt hcontrol) hliteral, rfl⟩

/-! ## White space -/

theorem skipSpace_append {space : List Char} (h : IsSpacing space) (cs : List Char) :
    skipSpace (space ++ cs) = skipSpace cs := List.dropWhile_append_of_pos h

theorem exists_spacing (cs : List Char) : ∃ space, IsSpacing space ∧ cs = space ++ skipSpace cs :=
  ⟨cs.takeWhile isSpace, fun _ hc => List.mem_takeWhile_imp hc,
    List.takeWhile_append_dropWhile.symm⟩

/-- A token that begins with no space stands behind the white space of a text. -/
theorem Spaced.skipSpace {c : Char} {token cs : List Char} {more : List (List Char)}
    (h : Spaced ((c :: token) :: more) cs) (hc : isSpace c = false) :
    ∃ rest, Json.skipSpace cs = c :: token ++ rest ∧ Spaced more rest ∧
      token.length + rest.length < cs.length := by
  cases h with
  | @token space _ rest _ hspace hmore =>
    refine ⟨rest, ?_, hmore, by simp; omega⟩
    rw [skipSpace_append hspace]
    simp [Json.skipSpace, hc]

/-- A text that goes on with a token behind its white space. -/
theorem Spaced.of_skipSpace {token rest cs : List Char} {more : List (List Char)}
    (h : Json.skipSpace cs = token ++ rest) (hrest : Spaced more rest) :
    Spaced (token :: more) cs := by
  obtain ⟨space, hspace, hcs⟩ := exists_spacing cs
  rw [hcs, h]
  exact .token hspace hrest

theorem spaced_nil_iff {cs : List Char} : Spaced [] cs ↔ skipSpace cs = [] := by
  constructor
  · rintro ⟨hspace⟩
    rw [← List.append_nil cs, skipSpace_append hspace]
    rfl
  · intro h
    obtain ⟨space, hspace, hcs⟩ := exists_spacing cs
    rw [hcs, h, List.append_nil]
    exact .done hspace

/-! ## From tokens to documents -/

/-- Tokens that can stand behind a document: the next one is a comma or a closing bracket. -/
def Closed (more : List (List Char)) : Prop :=
  ∀ token ∈ more.head?, token = [','] ∨ token = [']'] ∨ token = ['\x7d']

/-- Behind a document no numeral goes on. -/
theorem Closed.stops {more : List (List Char)} {cs : List Char} (h : Closed more)
    (hcs : Spaced more cs) : Stops cs := by
  have hspaces : ∀ c, isSpace c = true → c.isDigit = false ∧ c ≠ '.' ∧ c ≠ 'e' ∧ c ≠ 'E' := by
    intro c hc
    simp only [isSpace, Bool.or_eq_true, decide_eq_true_eq] at hc
    obtain ((rfl | rfl) | rfl) | rfl := hc <;> decide
  intro c hc
  cases hcs with
  | done hspace => exact hspaces c (hspace c (List.mem_of_head? hc))
  | @token space token rest tokens hspace _ =>
    cases space with
    | nil =>
      obtain rfl | rfl | rfl := h token rfl
      all_goals
        cases hc
        decide
    | cons s space =>
      cases hc
      exact hspaces c (hspace c List.mem_cons_self)

/-- A numeral begins with a minus sign or a digit. -/
theorem IsNumeral.head {numeral : List Char} (h : IsNumeral numeral) :
    ∃ c cs, numeral = c :: cs ∧ (c = '-' ∨ c.isDigit = true) := by
  obtain ⟨sign, whole, fraction, exponent, rfl, rfl | rfl, ⟨⟨hne, hall⟩, _⟩, _, _⟩ := h
  · cases whole with
    | nil => exact absurd rfl hne
    | cons d ds => exact ⟨d, _, rfl, .inr (hall d List.mem_cons_self)⟩
  · exact ⟨'-', _, rfl, .inl rfl⟩

theorem isSpace_eq_false_of_numeral {c : Char} (h : c = '-' ∨ c.isDigit = true) :
    isSpace c = false := by
  rw [Bool.eq_false_iff]
  intro hspace
  simp only [isSpace, Bool.or_eq_true, decide_eq_true_eq] at hspace
  obtain ((rfl | rfl) | rfl) | rfl := hspace <;> exact absurd h (by decide)

/-- The first token of a document neither begins with a space nor closes a list. -/
theorem Proper.head {document : Json} (h : document.Proper) :
    ∃ c token tokens, document.tokens = (c :: token) :: tokens ∧ isSpace c = false ∧ c ≠ ']' := by
  cases document with
  | null => exact ⟨_, _, _, rfl, by decide, by decide⟩
  | bool b => cases b <;> exact ⟨_, _, _, rfl, by decide, by decide⟩
  | num numeral =>
    obtain ⟨c, cs, rfl, hc⟩ := IsNumeral.head h
    refine ⟨c, cs, [], rfl, isSpace_eq_false_of_numeral hc, ?_⟩
    rintro rfl
    exact absurd hc (by decide)
  | str literal => exact ⟨_, _, _, rfl, by decide, by decide⟩
  | arr items => exact ⟨_, _, _, rfl, by decide, by decide⟩
  | obj members => exact ⟨_, _, _, rfl, by decide, by decide⟩

/-- Behind white space, a minus sign or a digit begins a numeral. -/
theorem scan_numeral {c : Char} {cs rest : List Char} (fuel : Nat) (h : skipSpace cs = c :: rest)
    (hc : c = '-' ∨ c.isDigit = true) :
    scan (fuel + 1) cs = (scanNumeral (c :: rest)).map fun p => (.num p.1, p.2) := by
  unfold scan
  rw [h]
  split
  case h_7 => rfl
  all_goals
    -- every other document begins with a letter, a quote or a bracket
    rename_i heq
    obtain ⟨rfl, _⟩ := List.cons.inj heq
    exact absurd hc (by decide)

/-- A list that holds an item does not close in front of it. -/
theorem Spaced.item {item : Json} {items : List Json} {more : List (List Char)} {cs : List Char}
    (h : Spaced (tokensItems (item :: items) ++ more) cs) (hp : item.Proper) :
    ∃ c rest, Json.skipSpace cs = c :: rest ∧ c ≠ ']' := by
  obtain ⟨c, token, tokens, htokens, hspace, hc⟩ := hp.head
  obtain ⟨behind, hbehind⟩ : ∃ behind,
      tokensItems (item :: items) ++ more = (c :: token) :: behind := by
    cases items with
    | nil => exact ⟨tokens ++ more, by simp [tokensItems, htokens]⟩
    | cons next items => exact ⟨_, by simp [tokensItems, htokens]; rfl⟩
  rw [hbehind] at h
  obtain ⟨rest, hskip, _⟩ := h.skipSpace hspace
  exact ⟨c, _, hskip, hc⟩

/-- With the fuel that its text gives, a document is read off its tokens up to a closing token. -/
def ReadsBack (document : Json) : Prop :=
  ∀ more cs fuel, document.Proper → Closed more → Spaced (document.tokens ++ more) cs →
    2 * cs.length + 2 ≤ fuel →
    ∃ rest, scan fuel cs = some (document, rest) ∧ Spaced more rest ∧ rest.length < cs.length

/-- Reading a document takes one unit of fuel. -/
theorem ReadsBack.succ {document : Json}
    (h : ∀ more cs fuel, document.Proper → Closed more → Spaced (document.tokens ++ more) cs →
      2 * cs.length + 1 ≤ fuel →
      ∃ rest, scan (fuel + 1) cs = some (document, rest) ∧ Spaced more rest ∧
        rest.length < cs.length) : document.ReadsBack := by
  intro more cs fuel hp hclosed hs hfuel
  obtain ⟨fuel, rfl⟩ : ∃ f, fuel = f + 1 := ⟨fuel - 1, by omega⟩
  exact h more cs fuel hp hclosed hs (by omega)

theorem closed_cons {token : List Char} (more : List (List Char))
    (h : token = [','] ∨ token = [']'] ∨ token = ['\x7d']) : Closed (token :: more) := by
  rintro _ ⟨⟩
  exact h

theorem scanItems_of_spaced {items : List Json} {more : List (List Char)} {cs : List Char}
    {fuel : Nat} (h : ∀ item ∈ items, item.ReadsBack) (hne : items ≠ []) (hp : ProperItems items)
    (hs : Spaced (tokensItems items ++ [']'] :: more) cs) (hfuel : 2 * cs.length + 3 ≤ fuel) :
    ∃ rest, scanItems fuel cs = some (items, rest) ∧ Spaced more rest ∧
      rest.length < cs.length := by
  induction items generalizing cs fuel with
  | nil => exact absurd rfl hne
  | cons item items ih =>
    rw [List.forall_mem_cons] at h
    obtain ⟨fuel, rfl⟩ : ∃ f, fuel = f + 1 := ⟨fuel - 1, by omega⟩
    cases items with
    | nil =>
      obtain ⟨rest, hscan, hrest, hlt⟩ :=
        h.1 _ cs fuel hp.1 (closed_cons more (.inr (.inl rfl))) hs (by omega)
      obtain ⟨rest', hskip, hmore, hlt'⟩ := hrest.skipSpace (by decide)
      exact ⟨rest', by simp [scanItems, hscan, hskip], hmore, by omega⟩
    | cons next items =>
      rw [tokensItems_cons item (List.cons_ne_nil _ _), List.append_assoc] at hs
      obtain ⟨rest, hscan, hrest, hlt⟩ :=
        h.1 _ cs fuel hp.1 (closed_cons _ (.inl rfl)) hs (by omega)
      obtain ⟨rest', hskip, hmore, hlt'⟩ := hrest.skipSpace (by decide)
      obtain ⟨rest'', hitems, hmore', hlt''⟩ :=
        @ih rest' fuel h.2 (by simp) hp.2 hmore (by omega)
      exact ⟨rest'', by simp [scanItems, hscan, hskip, hitems], hmore', by omega⟩

/-- A key, its colon and what stands behind them. -/
theorem Spaced.key {key cs : List Char} {more : List (List Char)}
    (h : Spaced (quote key :: [':'] :: more) cs) :
    ∃ behind rest, Json.skipSpace cs = '\"' :: (key ++ '\"' :: behind) ∧
      Json.skipSpace behind = ':' :: rest ∧ Spaced more rest ∧ rest.length < cs.length := by
  obtain ⟨behind, hskip, hmore, hlt⟩ := h.skipSpace (by decide)
  obtain ⟨rest, hskip', hmore', hlt'⟩ := hmore.skipSpace (by decide)
  exact ⟨behind, rest, by simpa using hskip, hskip', hmore', by omega⟩

/-- An object that holds a member goes on with the quote of its key. -/
theorem Spaced.member {member : List Char × Json} {members : List (List Char × Json)}
    {more : List (List Char)} {cs : List Char}
    (h : Spaced (tokensMembers (member :: members) ++ more) cs) :
    ∃ rest, Json.skipSpace cs = '\"' :: rest := by
  obtain ⟨behind, hbehind⟩ : ∃ behind,
      tokensMembers (member :: members) ++ more = quote member.1 :: behind := by
    cases members with
    | nil => exact ⟨_, rfl⟩
    | cons next members => exact ⟨_, by simp only [tokensMembers, List.cons_append]; rfl⟩
  rw [hbehind] at h
  obtain ⟨rest, hskip, _⟩ := h.skipSpace (by decide)
  exact ⟨_, hskip⟩

theorem scanMembers_of_spaced {members : List (List Char × Json)} {more : List (List Char)}
    {cs : List Char} {fuel : Nat} (h : ∀ member ∈ members, member.2.ReadsBack)
    (hne : members ≠ []) (hp : ProperMembers members)
    (hs : Spaced (tokensMembers members ++ ['\x7d'] :: more) cs)
    (hfuel : 2 * cs.length + 3 ≤ fuel) :
    ∃ rest, scanMembers fuel cs = some (members, rest) ∧ Spaced more rest ∧
      rest.length < cs.length := by
  induction members generalizing cs fuel with
  | nil => exact absurd rfl hne
  | cons member members ih =>
    obtain ⟨key, value⟩ := member
    rw [List.forall_mem_cons] at h
    obtain ⟨hkey, hvalue, hmembers⟩ := hp
    obtain ⟨fuel, rfl⟩ : ∃ f, fuel = f + 1 := ⟨fuel - 1, by omega⟩
    cases members with
    | nil =>
      obtain ⟨behind, rest, hskip, hcolon, hs, hlt⟩ := Spaced.key hs
      obtain ⟨rest', hscan, hrest, hlt'⟩ :=
        h.1 _ rest fuel hvalue (closed_cons more (.inr (.inr rfl))) hs (by omega)
      obtain ⟨rest'', hskip', hmore, hlt''⟩ := hrest.skipSpace (by decide)
      refine ⟨rest'', ?_, hmore, by omega⟩
      simp [scanMembers, hskip, scanLiteral_append hkey, hcolon, hscan, hskip']
    | cons next members =>
      rw [tokensMembers_cons key value (List.cons_ne_nil _ _), List.cons_append, List.cons_append,
        List.append_assoc] at hs
      obtain ⟨behind, rest, hskip, hcolon, hs, hlt⟩ := Spaced.key hs
      obtain ⟨rest', hscan, hrest, hlt'⟩ :=
        h.1 _ rest fuel hvalue (closed_cons _ (.inl rfl)) hs (by omega)
      obtain ⟨rest'', hskip', hmore, hlt''⟩ := hrest.skipSpace (by decide)
      obtain ⟨rest₃, hscan', hmore', hlt₃⟩ :=
        @ih rest'' fuel h.2 (by simp) hmembers hmore (by omega)
      refine ⟨rest₃, ?_, hmore', by omega⟩
      simp [scanMembers, hskip, scanLiteral_append hkey, hcolon, hscan, hskip', hscan']

/-- **Every document is read off its tokens.** -/
theorem scan_of_spaced (document : Json) : document.ReadsBack := by
  induction document using Json.induct with
  | null =>
    refine .succ fun more cs fuel _ _ hs hfuel => ?_
    obtain ⟨rest, hskip, hmore, hlt⟩ := hs.skipSpace (by decide)
    exact ⟨rest, by simp [scan, hskip], hmore, by omega⟩
  | bool b =>
    refine .succ fun more cs fuel _ _ hs hfuel => ?_
    cases b
    all_goals
      obtain ⟨rest, hskip, hmore, hlt⟩ := hs.skipSpace (by decide)
      exact ⟨rest, by simp [scan, hskip], hmore, by omega⟩
  | num numeral =>
    refine .succ fun more cs fuel hp hclosed hs hfuel => ?_
    obtain ⟨c, digits, rfl, hc⟩ := IsNumeral.head hp
    obtain ⟨rest, hskip, hmore, hlt⟩ := hs.skipSpace (isSpace_eq_false_of_numeral hc)
    have hscan := scanNumeral_append (show IsNumeral _ from hp) (hclosed.stops hmore)
    rw [List.cons_append] at hskip hscan
    exact ⟨rest, by simp [scan_numeral fuel hskip hc, hscan], hmore, by omega⟩
  | str literal =>
    refine .succ fun more cs fuel hp _ hs hfuel => ?_
    obtain ⟨rest, hskip, hmore, hlt⟩ := hs.skipSpace (by decide)
    exact ⟨rest, by simp [scan, hskip, scanLiteral_append hp], hmore, by omega⟩
  | arr items ih =>
    refine .succ fun more cs fuel hp _ hs hfuel => ?_
    rw [tokens, List.cons_append, List.cons_append, List.append_assoc] at hs
    obtain ⟨rest, hskip, hs, hlt⟩ := hs.skipSpace (by decide)
    cases items with
    | nil =>
      obtain ⟨rest', hskip', hmore, hlt'⟩ := hs.skipSpace (by decide)
      exact ⟨rest', by simp [scan, hskip, hskip'], hmore, by omega⟩
    | cons item items =>
      have hfuel' : 2 * rest.length + 3 ≤ fuel := by omega
      obtain ⟨rest', hscan, hmore, hlt'⟩ :=
        scanItems_of_spaced ih (List.cons_ne_nil _ _) hp hs hfuel'
      obtain ⟨c, behind, hskip', hc⟩ := Spaced.item hs hp.1
      exact ⟨rest', by simp [scan, hskip, hskip', hc, hscan], hmore, by omega⟩
  | obj members ih =>
    refine .succ fun more cs fuel hp _ hs hfuel => ?_
    rw [tokens, List.cons_append, List.cons_append, List.append_assoc] at hs
    obtain ⟨rest, hskip, hs, hlt⟩ := hs.skipSpace (by decide)
    cases members with
    | nil =>
      obtain ⟨rest', hskip', hmore, hlt'⟩ := hs.skipSpace (by decide)
      exact ⟨rest', by simp [scan, hskip, hskip'], hmore, by omega⟩
    | cons member members =>
      have hfuel' : 2 * rest.length + 3 ≤ fuel := by omega
      obtain ⟨rest', hscan, hmore, hlt'⟩ :=
        scanMembers_of_spaced ih (List.cons_ne_nil _ _) hp hs hfuel'
      obtain ⟨behind, hskip'⟩ := Spaced.member hs
      exact ⟨rest', by simp [scan, hskip, hskip', hscan], hmore, by omega⟩

/-! ## From documents to tokens -/

/-- What is read with some fuel has its tokens in the text, in front of those of the rest. -/
structure Faithful (fuel : Nat) : Prop where
  document : ∀ cs document rest, scan fuel cs = some (document, rest) →
    document.Proper ∧ ∀ more, Spaced more rest → Spaced (document.tokens ++ more) cs
  items : ∀ cs items rest, scanItems fuel cs = some (items, rest) →
    items ≠ [] ∧ ProperItems items ∧
      ∀ more, Spaced more rest → Spaced (tokensItems items ++ [']'] :: more) cs
  members : ∀ cs members rest, scanMembers fuel cs = some (members, rest) →
    members ≠ [] ∧ ProperMembers members ∧
      ∀ more, Spaced more rest → Spaced (tokensMembers members ++ ['\x7d'] :: more) cs

theorem Faithful.scan_succ {fuel : Nat} (h : Faithful fuel) {cs rest : List Char} {document : Json}
    (hscan : scan (fuel + 1) cs = some (document, rest)) :
    document.Proper ∧ ∀ more, Spaced more rest → Spaced (document.tokens ++ more) cs := by
  unfold scan at hscan
  split at hscan
  case h_1 | h_2 | h_3 =>
    rename_i hskip
    cases hscan
    exact ⟨trivial, fun more hmore => .of_skipSpace hskip hmore⟩
  case h_4 hskip =>
    obtain ⟨⟨literal, rest'⟩, hliteral, heq⟩ := Option.map_eq_some_iff.1 hscan
    cases heq
    obtain ⟨hp, rfl⟩ := scanLiteral_eq_some hliteral
    exact ⟨hp, fun more hmore => .of_skipSpace (by simpa [quote] using hskip) hmore⟩
  case h_5 behind hskip =>
    split at hscan
    · rename_i hclose
      cases hscan
      exact ⟨trivial, fun more hmore => .of_skipSpace hskip (.of_skipSpace hclose hmore)⟩
    · obtain ⟨⟨items, rest'⟩, hitems, heq⟩ := Option.map_eq_some_iff.1 hscan
      cases heq
      obtain ⟨_, hp, hspaced⟩ := h.items _ _ _ hitems
      refine ⟨hp, fun more hmore => ?_⟩
      have hopen : skipSpace cs = ['['] ++ behind := hskip
      simpa [tokens] using Spaced.of_skipSpace hopen (hspaced more hmore)
  case h_6 behind hskip =>
    split at hscan
    · rename_i hclose
      cases hscan
      exact ⟨trivial, fun more hmore => .of_skipSpace hskip (.of_skipSpace hclose hmore)⟩
    · obtain ⟨⟨members, rest'⟩, hmembers, heq⟩ := Option.map_eq_some_iff.1 hscan
      cases heq
      obtain ⟨_, hp, hspaced⟩ := h.members _ _ _ hmembers
      refine ⟨hp, fun more hmore => ?_⟩
      have hopen : skipSpace cs = ['\x7b'] ++ behind := hskip
      simpa [tokens] using Spaced.of_skipSpace hopen (hspaced more hmore)
  case h_7 =>
    obtain ⟨⟨numeral, rest'⟩, hnumeral, heq⟩ := Option.map_eq_some_iff.1 hscan
    cases heq
    obtain ⟨hp, hcs⟩ := scanNumeral_eq_some hnumeral
    exact ⟨hp, fun more hmore => .of_skipSpace hcs hmore⟩

theorem Faithful.scanItems_succ {fuel : Nat} (h : Faithful fuel) {cs rest : List Char}
    {items : List Json} (hscan : scanItems (fuel + 1) cs = some (items, rest)) :
    items ≠ [] ∧ ProperItems items ∧
      ∀ more, Spaced more rest → Spaced (tokensItems items ++ [']'] :: more) cs := by
  unfold scanItems at hscan
  split at hscan
  · cases hscan
  · rename_i item rest' hitem
    obtain ⟨hp, hspaced⟩ := h.document _ _ _ hitem
    split at hscan
    · rename_i hclose
      cases hscan
      exact ⟨List.cons_ne_nil _ _, ⟨hp, trivial⟩,
        fun more hmore => hspaced _ (.of_skipSpace hclose hmore)⟩
    · rename_i hcomma
      obtain ⟨⟨items', rest''⟩, hitems, heq⟩ := Option.map_eq_some_iff.1 hscan
      cases heq
      obtain ⟨hne, hps, hspaced'⟩ := h.items _ _ _ hitems
      refine ⟨List.cons_ne_nil _ _, ⟨hp, hps⟩, fun more hmore => ?_⟩
      rw [tokensItems_cons item hne, List.append_assoc]
      exact hspaced _ (.of_skipSpace hcomma (hspaced' more hmore))
    · cases hscan

theorem Faithful.scanMembers_succ {fuel : Nat} (h : Faithful fuel) {cs rest : List Char}
    {members : List (List Char × Json)} (hscan : scanMembers (fuel + 1) cs = some (members, rest)) :
    members ≠ [] ∧ ProperMembers members ∧
      ∀ more, Spaced more rest → Spaced (tokensMembers members ++ ['\x7d'] :: more) cs := by
  unfold scanMembers at hscan
  split at hscan
  · rename_i behind hskip
    split at hscan
    · cases hscan
    · rename_i key rest₁ hkey
      obtain ⟨hpkey, rfl⟩ := scanLiteral_eq_some hkey
      split at hscan
      · rename_i rest₂ hcolon
        have hcolon' : skipSpace rest₁ = [':'] ++ rest₂ := hcolon
        split at hscan
        · cases hscan
        · rename_i value rest₃ hvalue
          obtain ⟨hp, hspaced⟩ := h.document _ _ _ hvalue
          have hfront : ∀ more, Spaced more rest₃ →
              Spaced (quote key :: [':'] :: (value.tokens ++ more)) cs := fun more hmore =>
            .of_skipSpace (by simpa [quote] using hskip)
              (.of_skipSpace hcolon' (hspaced more hmore))
          split at hscan
          · rename_i hclose
            cases hscan
            exact ⟨List.cons_ne_nil _ _, ⟨hpkey, hp, trivial⟩,
              fun more hmore => hfront _ (.of_skipSpace hclose hmore)⟩
          · rename_i hcomma
            obtain ⟨⟨members', rest''⟩, hmembers, heq⟩ := Option.map_eq_some_iff.1 hscan
            cases heq
            obtain ⟨hne, hps, hspaced'⟩ := h.members _ _ _ hmembers
            refine ⟨List.cons_ne_nil _ _, ⟨hpkey, hp, hps⟩, fun more hmore => ?_⟩
            rw [tokensMembers_cons key value hne, List.cons_append, List.cons_append,
              List.append_assoc]
            exact hfront _ (.of_skipSpace hcomma (hspaced' more hmore))
          · cases hscan
      · cases hscan
  · cases hscan

/-- **What is read are the tokens of the document.** -/
theorem faithful (fuel : Nat) : Faithful fuel := by
  induction fuel with
  | zero => exact ⟨nofun, nofun, nofun⟩
  | succ fuel ih =>
    exact ⟨fun _ _ _ => ih.scan_succ, fun _ _ _ => ih.scanItems_succ,
      fun _ _ _ => ih.scanMembers_succ⟩

/-- **A document is read from a text, up to white space, exactly if the text spells it.** -/
theorem readFront?_iff_spells {document : Json} {cs : List Char} :
    (∃ rest, readFront? cs = some (document, rest) ∧ skipSpace rest = []) ↔
      Spells document cs := by
  constructor
  · rintro ⟨rest, hread, hrest⟩
    obtain ⟨hp, hspaced⟩ := (faithful _).document _ _ _ hread
    have := hspaced [] (spaced_nil_iff.2 hrest)
    exact ⟨hp, by simpa using this⟩
  · rintro ⟨hp, hspaced⟩
    obtain ⟨rest, hscan, hrest, _⟩ :=
      scan_of_spaced document [] cs _ hp (by rintro _ ⟨⟩) (by simpa using hspaced) (Nat.le_refl _)
    exact ⟨rest, hscan, spaced_nil_iff.1 hrest⟩

end SpanCoverage.Json
