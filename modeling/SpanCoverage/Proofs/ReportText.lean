import Mathlib.Data.List.Basic
import SpanCoverage.Payload.Report

/-!
# Texts of reports

A report is written one line after the other, and how the lines are laid out does not matter when
the text is read: blank characters around a line, blank lines and the kind of line end come and go.
So the texts of several reports, one behind the other and laid out anew, read as one report with
the rows of all of them, whatever the indices are.  Reading refuses a text only for a line that is
no cell and no index, or for a cell that stands before the first index.

The main results are:

* `Text.nonblank_of_layout` — a layout does not change the lines that are not blank.
* `Report.parse_layout` — the rows that a layout of written rows reads as.
* `Report.parse_eq_none_iff` — the texts that are refused.
* `Report.texts_decode` — both together.
-/

namespace SpanCoverage

/-! ## Layouts -/

namespace Text

/-- Blank characters that end no line. -/
def IsPadding (cs : List Char) : Prop := ∀ c ∈ cs, isBlank c = true ∧ c ≠ '\n'

/-- A line feed, alone or behind a carriage return. -/
def IsLineEnd (cs : List Char) : Prop := cs = ['\n'] ∨ cs = ['\r', '\n']

instance : DecidablePred IsPadding := fun cs => List.decidableBAll _ cs

/-- The texts that hold some lines, with padding around each, blank lines between them, and line
ends of both kinds.  What stands behind the last line end is a line too, blank or not. -/
inductive Layout : List (List Char) → List Char → Prop
  | ends {pad : List Char} (blank : IsPadding pad) : Layout [] pad
  | last {before line after : List Char} (hbefore : IsPadding before) (hafter : IsPadding after) :
    Layout [line] (before ++ line ++ after)
  | blank {pad lineEnd rest : List Char} {lines : List (List Char)} (blank : IsPadding pad)
    (hend : IsLineEnd lineEnd) (h : Layout lines rest) : Layout lines (pad ++ lineEnd ++ rest)
  | line {before line after lineEnd rest : List Char} {lines : List (List Char)}
    (hbefore : IsPadding before) (hafter : IsPadding after) (hend : IsLineEnd lineEnd)
    (h : Layout lines rest) : Layout (line :: lines) (before ++ line ++ after ++ lineEnd ++ rest)

/-- A text laid out anew: it holds the lines of another one, each of which ends with a line feed. -/
def Relaid (text cs : List Char) : Prop :=
  ∃ lines, (∀ line ∈ lines, '\n' ∉ line) ∧ text = lines.flatMap (· ++ ['\n']) ∧ Layout lines cs

/-- The lines that are not blank, trimmed. -/
def nonblank (lines : List (List Char)) : List (List Char) :=
  (lines.map trim).filter (!·.isEmpty)

theorem nonblank_append (ls ls' : List (List Char)) :
    nonblank (ls ++ ls') = nonblank ls ++ nonblank ls' := by
  simp [nonblank]

theorem nonblank_cons_of_blank {l : List Char} (h : trim l = []) (ls : List (List Char)) :
    nonblank (l :: ls) = nonblank ls := by
  simp [nonblank, h]

theorem nonblank_cons {l w : List Char} (h : trim l = w) (hw : w ≠ []) (ls : List (List Char)) :
    nonblank (l :: ls) = w :: nonblank ls := by
  simp [nonblank, h, hw]

theorem mem_nonblank {w : List Char} {ls : List (List Char)} :
    w ∈ nonblank ls ↔ w ≠ [] ∧ ∃ l ∈ ls, trim l = w := by
  simp [nonblank, and_comm]

theorem lines_of_not_mem {cs : List Char} (h : '\n' ∉ cs) : lines cs = [cs] := by
  induction cs with
  | nil => rfl
  | cons c cs ih =>
    rw [List.mem_cons, not_or] at h
    simp [lines, Ne.symm h.1, ih h.2]

theorem lines_append_lineFeed {cs : List Char} (h : '\n' ∉ cs) (rest : List Char) :
    lines (cs ++ '\n' :: rest) = cs :: lines rest := by
  induction cs with
  | nil => simp [lines]
  | cons c cs ih =>
    rw [List.mem_cons, not_or] at h
    simp [lines, Ne.symm h.1, ih h.2]

/-- A written line has no blank character and is not empty. -/
def IsWord (cs : List Char) : Prop := cs ≠ [] ∧ ∀ c ∈ cs, isBlank c = false

instance : DecidablePred IsWord := fun cs =>
  @instDecidableAnd _ _ inferInstance (List.decidableBAll _ cs)

theorem IsWord.lineFeed {cs : List Char} (h : IsWord cs) : '\n' ∉ cs :=
  fun hc => absurd (h.2 _ hc) (by decide)

theorem IsPadding.lineFeed {cs : List Char} (h : IsPadding cs) : '\n' ∉ cs :=
  fun hc => (h _ hc).2 rfl

/-- The carriage return of a line end is padding of the line. -/
theorem IsPadding.withLineEnd {pad lineEnd : List Char} (h : IsPadding pad)
    (hend : IsLineEnd lineEnd) : ∃ pad', IsPadding pad' ∧ pad ++ lineEnd = pad' ++ ['\n'] := by
  rcases hend with rfl | rfl
  · exact ⟨pad, h, rfl⟩
  · refine ⟨pad ++ ['\r'], ?_, by simp⟩
    intro c hc
    rcases List.mem_append.1 hc with hc | hc
    · exact h c hc
    · rw [List.eq_of_mem_singleton hc]
      decide

theorem dropWhile_pad {pad : List Char} (h : IsPadding pad) (cs : List Char) :
    (pad ++ cs).dropWhile isBlank = cs.dropWhile isBlank :=
  List.dropWhile_append_of_pos fun c hc => (h c hc).1

theorem trim_padding {pad : List Char} (h : IsPadding pad) : trim pad = [] := by
  have hdrop := dropWhile_pad h []
  rw [List.append_nil] at hdrop
  simp [trim, hdrop]

theorem dropWhile_word {cs : List Char} (h : IsWord cs) (rest : List Char) :
    (cs ++ rest).dropWhile isBlank = cs ++ rest := by
  obtain ⟨hne, hword⟩ := h
  cases cs with
  | nil => exact absurd rfl hne
  | cons c cs => simp [hword c List.mem_cons_self]

theorem IsWord.reverse {cs : List Char} (h : IsWord cs) : IsWord cs.reverse :=
  ⟨by simpa using h.1, fun c hc => h.2 c (List.mem_reverse.1 hc)⟩

theorem IsPadding.reverse {cs : List Char} (h : IsPadding cs) : IsPadding cs.reverse :=
  fun c hc => h c (List.mem_reverse.1 hc)

theorem trim_padded {before line after : List Char} (hbefore : IsPadding before)
    (hline : IsWord line) (hafter : IsPadding after) : trim (before ++ line ++ after) = line := by
  have hback := dropWhile_word hline.reverse []
  rw [List.append_nil] at hback
  rw [trim, List.append_assoc, dropWhile_pad hbefore, dropWhile_word hline, List.reverse_append,
    dropWhile_pad hafter.reverse, hback, List.reverse_reverse]

/-- **A layout does not change the lines that are not blank.** -/
theorem nonblank_of_layout {ls : List (List Char)} {cs : List Char} (h : Layout ls cs)
    (hwords : ∀ l ∈ ls, IsWord l) : nonblank (lines cs) = ls := by
  induction h with
  | ends hpad =>
    rw [lines_of_not_mem hpad.lineFeed, nonblank_cons_of_blank (trim_padding hpad)]
    rfl
  | @last before line after hbefore hafter =>
    have hline := hwords line List.mem_cons_self
    have htrim := trim_padded hbefore hline hafter
    have hfree : '\n' ∉ before ++ line ++ after := by
      simp [hbefore.lineFeed, hline.lineFeed, hafter.lineFeed]
    rw [lines_of_not_mem hfree, nonblank_cons htrim hline.1]
    rfl
  | @blank pad lineEnd rest ls hpad hend _ ih =>
    obtain ⟨pad', hpad', hjoin⟩ := hpad.withLineEnd hend
    rw [hjoin, List.append_assoc, List.singleton_append, lines_append_lineFeed hpad'.lineFeed,
      nonblank_cons_of_blank (trim_padding hpad'), ih hwords]
  | @line before line after lineEnd rest ls hbefore hafter hend _ ih =>
    obtain ⟨after', hafter', hjoin⟩ := hafter.withLineEnd hend
    have hline := hwords line List.mem_cons_self
    have htrim := trim_padded hbefore hline hafter'
    have hfree : '\n' ∉ before ++ line ++ after' := by
      simp [hbefore.lineFeed, hline.lineFeed, hafter'.lineFeed]
    have htext : before ++ line ++ after ++ lineEnd ++ rest =
        before ++ line ++ after' ++ '\n' :: rest := by
      rw [List.append_assoc (before ++ line), hjoin]
      simp
    rw [htext, lines_append_lineFeed hfree, nonblank_cons htrim hline.1,
      ih fun l hl => hwords l (List.mem_cons_of_mem _ hl)]

theorem lines_flatMap {ls : List (List Char)} (h : ∀ l ∈ ls, '\n' ∉ l) :
    lines (ls.flatMap (· ++ ['\n'])) = ls ++ [[]] := by
  induction ls with
  | nil => rfl
  | cons l ls ih =>
    rw [List.flatMap_cons, List.append_assoc, List.singleton_append,
      lines_append_lineFeed (h l List.mem_cons_self),
      ih fun l' hl' => h l' (List.mem_cons_of_mem _ hl')]
    rfl

/-- Lines that end with a line feed can be told from their text. -/
theorem eq_of_flatMap_eq {ls ls' : List (List Char)} (h : ∀ l ∈ ls, '\n' ∉ l)
    (h' : ∀ l ∈ ls', '\n' ∉ l) (heq : ls.flatMap (· ++ ['\n']) = ls'.flatMap (· ++ ['\n'])) :
    ls = ls' := by
  have hlines := congrArg lines heq
  rw [lines_flatMap h, lines_flatMap h'] at hlines
  exact List.append_cancel_right hlines

/-! ## Numerals -/

/-- A decimal numeral of a 32-bit word, with an optional plus sign. -/
def IsWordNumeral (cs : List Char) : Prop :=
  ∃ digits, (cs = digits ∨ cs = '+' :: digits) ∧ digits ≠ [] ∧ (∀ c ∈ digits, c.isDigit = true) ∧
    Nat.ofDigitChars 10 digits 0 < UInt32.size

/-- A word is read from its digits, with or without the plus sign. -/
theorem readWord?_of_digits {cs digits : List Char} (hcs : cs = digits ∨ cs = '+' :: digits)
    (hdigits : ∀ c ∈ digits, c.isDigit = true) :
    readWord? cs = (readDecimal? digits).bind
      fun n => if n < UInt32.size then some (UInt32.ofNat n) else none := by
  rcases hcs with rfl | rfl
  · unfold readWord?
    split
    · exact absurd (hdigits '+' List.mem_cons_self) (by decide)
    · rfl
  · rfl

theorem exists_digits_of_readWord? {cs : List Char} {word : UInt32} (h : readWord? cs = some word) :
    ∃ digits n, (cs = digits ∨ cs = '+' :: digits) ∧ readDecimal? digits = some n ∧
      n < UInt32.size := by
  unfold readWord? at h
  obtain ⟨n, hn, hword⟩ := Option.bind_eq_some_iff.1 h
  have hlt : n < UInt32.size := by
    by_contra hge
    rw [if_neg hge] at hword
    cases hword
  split at hn
  · exact ⟨_, n, .inr rfl, hn, hlt⟩
  · exact ⟨_, n, .inl rfl, hn, hlt⟩

/-- The words that can be read are the numerals. -/
theorem readWord?_ne_none_iff {cs : List Char} : readWord? cs ≠ none ↔ IsWordNumeral cs := by
  constructor
  · intro h
    obtain ⟨word, hword⟩ := Option.ne_none_iff_exists'.1 h
    obtain ⟨digits, n, hcs, hn, hlt⟩ := exists_digits_of_readWord? hword
    obtain ⟨hne, hdigits, rfl⟩ := readDecimal?_eq_some_iff.1 hn
    exact ⟨digits, hcs, hne, hdigits, hlt⟩
  · rintro ⟨digits, hcs, hne, hdigits, hlt⟩
    rw [readWord?_of_digits hcs hdigits, readDecimal?_eq_some_iff.2 ⟨hne, hdigits, rfl⟩,
      Option.bind_some, if_pos hlt]
    exact Option.some_ne_none _

theorem readWord?_toDigits (n : UInt32) : readWord? (Nat.toDigits 10 n.toNat) = some n := by
  rw [readWord?_of_digits (.inl rfl)
    fun c hc => Nat.isDigit_of_mem_toDigits (by decide) (by decide) hc, readDecimal?_toDigits,
    Option.bind_some, if_pos n.toNat_lt, UInt32.ofNat_toNat]

theorem IsWordNumeral.ne_nil {cs : List Char} (h : IsWordNumeral cs) : cs ≠ [] := by
  obtain ⟨digits, rfl | rfl, hne, _⟩ := h
  · exact hne
  · exact List.cons_ne_nil _ _

theorem isBlank_eq_false_of_isDigit {c : Char} (h : c.isDigit = true) : isBlank c = false := by
  obtain ⟨hlow, hhigh⟩ := Char.isDigit_iff_toNat.1 h
  have hlow : 48 ≤ c.toNat := hlow
  have hhigh : c.toNat ≤ 57 := hhigh
  simp [isBlank]
  omega

end Text

/-! ## Lines of a report -/

namespace Report

/-- A cell of a report. -/
def IsCell (cs : List Char) : Prop := cs = "true".toList ∨ cs = "false".toList

theorem isWord_hitWord (hit : Bool) : Text.IsWord (hitWord hit) := by
  cases hit <;> decide

theorem isWord_of_mem_rowLines {r : ReportRow} {l : List Char} (h : l ∈ rowLines r) :
    Text.IsWord l := by
  rcases List.mem_cons.1 h with rfl | h
  · refine ⟨Nat.toDigits_ne_nil, fun c hc => Text.isBlank_eq_false_of_isDigit ?_⟩
    exact Nat.isDigit_of_mem_toDigits (by decide) (by decide) hc
  · obtain ⟨hit, _, rfl⟩ := List.mem_map.1 h
    exact isWord_hitWord hit

theorem isWord_of_mem_flatMap {rows : List ReportRow} {l : List Char}
    (h : l ∈ rows.flatMap rowLines) : Text.IsWord l := by
  obtain ⟨r, _, hl⟩ := List.mem_flatMap.1 h
  exact isWord_of_mem_rowLines hl

theorem line?_hitWord (hit : Bool) : line? (hitWord hit) = some (.hit hit) := by
  cases hit <;> decide

theorem isCell_iff {cs : List Char} : IsCell cs ↔ ∃ hit, cs = hitWord hit := by
  constructor
  · rintro (rfl | rfl)
    · exact ⟨true, rfl⟩
    · exact ⟨false, rfl⟩
  · rintro ⟨_ | _, rfl⟩
    · exact .inr rfl
    · exact .inl rfl

theorem line?_of_not_isCell {cs : List Char} (h : ¬IsCell cs) :
    line? cs = (Text.readWord? cs).map .index := by
  rw [isCell_iff, not_exists] at h
  rw [line?, if_neg (h true), if_neg (h false)]

theorem IsCell.not_isWordNumeral {cs : List Char} (h : IsCell cs) : ¬Text.IsWordNumeral cs := by
  rintro ⟨digits, hcs, _, hdigits, _⟩
  obtain ⟨hit, rfl⟩ := isCell_iff.1 h
  rcases hcs with rfl | hplus
  · cases hit
    · exact absurd (hdigits 'f' (by decide)) (by decide)
    · exact absurd (hdigits 't' (by decide)) (by decide)
  · cases hit <;> exact absurd (congrArg List.head? hplus) (by simp [hitWord])

theorem line?_toDigits (n : UInt32) : line? (Nat.toDigits 10 n.toNat) = some (.index n) := by
  have hread := Text.readWord?_toDigits n
  have hnot : ¬IsCell (Nat.toDigits 10 n.toNat) := fun h =>
    h.not_isWordNumeral (Text.readWord?_ne_none_iff.1 (by rw [hread]; exact Option.some_ne_none _))
  rw [line?_of_not_isCell hnot, hread, Option.map_some]

theorem line?_eq_none_iff {cs : List Char} :
    line? cs = none ↔ ¬IsCell cs ∧ ¬Text.IsWordNumeral cs := by
  by_cases h : IsCell cs
  · obtain ⟨hit, rfl⟩ := isCell_iff.1 h
    simp [line?_hitWord, h]
  · rw [line?_of_not_isCell h, Option.map_eq_none_iff, ← Text.readWord?_ne_none_iff, not_not]
    exact (and_iff_right h).symm

/-! ## Written rows -/

/-- What the lines of a row are read as. -/
def readLines (r : ReportRow) : List Line := .index r.index :: r.hits.map .hit

theorem mapM_line?_rowLines (rows : List ReportRow) :
    (rows.flatMap rowLines).mapM line? = some (rows.flatMap readLines) := by
  have hhits (hits : List Bool) : (hits.map hitWord).mapM line? = some (hits.map .hit) := by
    induction hits with
    | nil => rfl
    | cons hit hits ih => simp [line?_hitWord, ih]
  induction rows with
  | nil => rfl
  | cons r rows ih => simp [List.mapM_append, rowLines, readLines, line?_toDigits, hhits, ih]

theorem group_readLines (rows : List ReportRow) : group (rows.flatMap readLines) = ([], rows) := by
  have hhits (hits : List Bool) (rest : List Line) :
      group (hits.map .hit ++ rest) = (hits ++ (group rest).1, (group rest).2) := by
    induction hits with
    | nil => rfl
    | cons hit hits ih => simp [group, ih]
  induction rows with
  | nil => rfl
  | cons r rows ih => simp [readLines, group, hhits, ih]

/-- **The rows that a layout of written rows reads as.** -/
theorem parse_layout {rows : List ReportRow} {cs : List Char}
    (h : Text.Layout (rows.flatMap rowLines) cs) : parse cs = some ⟨rows⟩ := by
  have hwords : ∀ l ∈ rows.flatMap rowLines, Text.IsWord l := fun l => isWord_of_mem_flatMap
  have hread := mapM_line?_rowLines rows
  rw [← Text.nonblank_of_layout h hwords] at hread
  rw [parse, show (((Text.lines cs).map Text.trim).filter (!·.isEmpty)).mapM line? = _ from hread]
  simp only [group_readLines]

/-! ## Texts that are refused -/

theorem mapM_line?_eq_none_iff {ws : List (List Char)} :
    ws.mapM line? = none ↔ ∃ w ∈ ws, line? w = none := by
  induction ws with
  | nil => simp
  | cons w ws ih =>
    cases hw : line? w with
    | none => simp [hw]
    | some line =>
      cases hws : ws.mapM line? with
      | none => simpa [hw, hws] using ih.1 hws
      | some lines => simpa [hw, hws] using ih

/-- A line is read as a cell exactly if it is one. -/
theorem isCell_iff_of_line? {cs : List Char} {line : Line} (h : line? cs = some line) :
    IsCell cs ↔ ∃ hit, line = .hit hit := by
  by_cases hcell : IsCell cs
  · obtain ⟨hit, rfl⟩ := isCell_iff.1 hcell
    rw [line?_hitWord] at h
    exact iff_of_true hcell ⟨hit, (Option.some.inj h).symm⟩
  · rw [line?_of_not_isCell hcell] at h
    obtain ⟨index, _, rfl⟩ := Option.map_eq_some_iff.1 h
    exact iff_of_false hcell fun ⟨hit, hline⟩ => nomatch hline

/-- Rows begin with an index, so cells are left over exactly if the first line is one. -/
theorem group_cons_eq_nil_iff (line : Line) (lines : List Line) :
    (group (line :: lines)).1 = [] ↔ ¬∃ hit, line = .hit hit := by
  cases line <;> simp [group]

theorem parse_eq_none_iff_words (cs : List Char) :
    parse cs = none ↔ (∃ w ∈ Text.nonblank (Text.lines cs), line? w = none) ∨
      ∃ w rest, Text.nonblank (Text.lines cs) = w :: rest ∧ IsCell w := by
  have hwords : ((Text.lines cs).map Text.trim).filter (!·.isEmpty) =
      Text.nonblank (Text.lines cs) := rfl
  rw [parse, hwords]
  generalize Text.nonblank (Text.lines cs) = ws
  cases hread : ws.mapM line? with
  | none => exact iff_of_true rfl (.inl (mapM_line?_eq_none_iff.1 hread))
  | some lines =>
    have hall : ¬∃ w ∈ ws, line? w = none := by
      rw [← mapM_line?_eq_none_iff, hread]
      exact Option.some_ne_none _
    rw [or_iff_right hall]
    cases ws with
    | nil =>
      cases hread
      simp [group]
    | cons w ws =>
      rw [List.mapM_cons] at hread
      obtain ⟨line, hline, hread⟩ := Option.bind_eq_some_iff.1 hread
      obtain ⟨lines, _, hlines⟩ := Option.bind_eq_some_iff.1 hread
      obtain rfl := Option.some.inj hlines
      have hcell : IsCell w ↔ (group (line :: lines)).1 ≠ [] := by
        rw [isCell_iff_of_line? hline, ne_eq, group_cons_eq_nil_iff, not_not]
      have hfirst : (∃ w' rest, w :: ws = w' :: rest ∧ IsCell w') ↔ IsCell w :=
        ⟨fun ⟨_, _, heq, h⟩ => (List.cons.inj heq).1 ▸ h, fun h => ⟨w, ws, rfl, h⟩⟩
      rw [hfirst, hcell]
      dsimp only
      rcases group (line :: lines) with ⟨_ | ⟨hit, hits⟩, rows⟩ <;> simp

/-- The first line that is not blank is a cell if some cell has no index before it, and all lines
can be read. -/
theorem exists_head_isCell {before after : List (List Char)} {l : List Char}
    (hl : IsCell (Text.trim l)) (hbefore : ∀ l' ∈ before, ¬Text.IsWordNumeral (Text.trim l'))
    (hread : ∀ w ∈ Text.nonblank (before ++ l :: after), line? w ≠ none) :
    ∃ w rest, Text.nonblank (before ++ l :: after) = w :: rest ∧ IsCell w := by
  have hne : Text.trim l ≠ [] := by
    obtain ⟨hit, hhit⟩ := isCell_iff.1 hl
    exact hhit ▸ (isWord_hitWord hit).1
  rw [Text.nonblank_append, Text.nonblank_cons rfl hne] at hread ⊢
  cases hwords : Text.nonblank before with
  | nil => exact ⟨_, _, rfl, hl⟩
  | cons w ws =>
    have hw : w ∈ Text.nonblank before := hwords ▸ List.mem_cons_self
    obtain ⟨_, l', hl', rfl⟩ := Text.mem_nonblank.1 hw
    have hsome := hread _ (List.mem_append_left _ hw)
    rw [ne_eq, line?_eq_none_iff, not_and_or, not_not, not_not] at hsome
    exact ⟨_, _, rfl, hsome.resolve_right (hbefore l' hl')⟩

/-- **The texts that are refused.** -/
theorem parse_eq_none_iff (cs : List Char) :
    parse cs = none ↔
      (∃ l ∈ Text.lines cs, Text.trim l ≠ [] ∧ ¬IsCell (Text.trim l) ∧
        ¬Text.IsWordNumeral (Text.trim l)) ∨
      ∃ before l after, Text.lines cs = before ++ l :: after ∧ IsCell (Text.trim l) ∧
        ∀ l' ∈ before, ¬Text.IsWordNumeral (Text.trim l') := by
  have hbad : (∃ w ∈ Text.nonblank (Text.lines cs), line? w = none) ↔
      ∃ l ∈ Text.lines cs, Text.trim l ≠ [] ∧ ¬IsCell (Text.trim l) ∧
        ¬Text.IsWordNumeral (Text.trim l) := by
    simp only [Text.mem_nonblank, line?_eq_none_iff]
    constructor
    · rintro ⟨_, ⟨hne, l, hl, rfl⟩, hnot⟩
      exact ⟨l, hl, hne, hnot⟩
    · rintro ⟨l, hl, hne, hnot⟩
      exact ⟨_, ⟨hne, l, hl, rfl⟩, hnot⟩
  rw [parse_eq_none_iff_words, ← hbad]
  constructor
  · rintro (h | ⟨w, rest, hwords, hcell⟩)
    · exact .inl h
    · obtain ⟨trimmed, trimmed', htrim, hblank, _, _⟩ := List.filter_eq_cons_iff.1 hwords
      obtain ⟨before, tail, hlines, rfl, htail⟩ := List.map_eq_append_iff.1 htrim
      obtain ⟨l, after, rfl, rfl, _⟩ := List.map_eq_cons_iff.1 htail
      refine .inr ⟨before, l, after, hlines, hcell, fun l' hl' hnumeral => ?_⟩
      have := hblank _ (List.mem_map_of_mem hl')
      exact hnumeral.ne_nil (by simpa using this)
  · rintro (h | ⟨before, l, after, hlines, hcell, hbefore⟩)
    · exact .inl h
    · by_cases hread : ∃ w ∈ Text.nonblank (Text.lines cs), line? w = none
      · exact .inl hread
      · rw [hlines] at hread ⊢
        exact .inr (exists_head_isCell hcell hbefore fun w hw hnone => hread ⟨w, hw, hnone⟩)

/-- **Texts of reports decode.**  A text that lays out the texts of some reports anew reads as the
report with the rows of all of them; and a text is refused exactly if one of its lines is neither
blank nor a cell nor an index, or if one is a cell and no index comes before it. -/
theorem texts_decode :
    (∀ (rs : List Report) (cs : List Char), Text.Relaid (rs.flatMap chars) cs →
      parse cs = some ⟨rs.flatMap rows⟩) ∧
    (∀ cs : List Char, parse cs = none ↔
      (∃ l ∈ Text.lines cs, Text.trim l ≠ [] ∧ ¬IsCell (Text.trim l) ∧
        ¬Text.IsWordNumeral (Text.trim l)) ∨
      ∃ before l after, Text.lines cs = before ++ l :: after ∧ IsCell (Text.trim l) ∧
        ∀ l' ∈ before, ¬Text.IsWordNumeral (Text.trim l')) := by
  refine ⟨?_, parse_eq_none_iff⟩
  rintro rs cs ⟨lines, hfree, htext, hlayout⟩
  refine parse_layout ?_
  have hchars : rs.flatMap chars = ((rs.flatMap rows).flatMap rowLines).flatMap (· ++ ['\n']) := by
    show rs.flatMap (fun r => (r.rows.flatMap rowLines).flatMap (· ++ ['\n'])) = _
    simp only [List.flatMap_assoc]
  have hlines : lines = (rs.flatMap rows).flatMap rowLines :=
    Text.eq_of_flatMap_eq hfree (fun l hl => (isWord_of_mem_flatMap hl).lineFeed) (htext ▸ hchars)
  exact hlines ▸ hlayout

/-- A report with an index that comes twice and an empty row, in two texts with other line ends. -/
theorem dressed_decode :
    Text.Relaid ([⟨[⟨7, [true]⟩, ⟨7, []⟩]⟩, ⟨[⟨4294967295, [false]⟩]⟩].flatMap chars)
        "\t7 \r\n \u2003\ntrue\n\u00857\r\n4294967295\n  false".toList ∧
      parse "\t7 \r\n \u2003\ntrue\n\u00857\r\n4294967295\n  false".toList =
        some ⟨[⟨7, [true]⟩, ⟨7, []⟩, ⟨4294967295, [false]⟩]⟩ := by
  have hlayout : Text.Relaid
      ([⟨[⟨7, [true]⟩, ⟨7, []⟩]⟩, ⟨[⟨4294967295, [false]⟩]⟩].flatMap chars)
      "\t7 \r\n \u2003\ntrue\n\u00857\r\n4294967295\n  false".toList := by
    refine ⟨["7".toList, "true".toList, "7".toList, "4294967295".toList, "false".toList], by decide,
      by decide, ?_⟩
    have bare : Text.IsPadding [] := by decide
    exact .line (by decide : Text.IsPadding ['\t']) (by decide : Text.IsPadding [' ']) (.inr rfl) <|
      .blank (by decide : Text.IsPadding [' ', '\u2003']) (.inl rfl) <|
      .line bare bare (.inl rfl) <|
      .line (by decide : Text.IsPadding ['\u0085']) bare (.inr rfl) <|
      .line bare bare (.inl rfl) <| .last (by decide : Text.IsPadding [' ', ' ']) bare
  exact ⟨hlayout, texts_decode.1 _ _ hlayout⟩

end Report

end SpanCoverage
