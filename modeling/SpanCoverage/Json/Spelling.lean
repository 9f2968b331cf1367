import SpanCoverage.Json.Reader

/-!
# Spellings of JSON documents

Which texts spell a document, said without a reader: a document is a row of tokens, and a text
spells it if it holds these tokens with white space around them.  Numerals and string literals
follow the grammar of JSON.  The text on one line is the spelling without any white space.

The main results are:

* `Json.flatten_tokens` — the tokens, put together, are the text on one line.
* `Json.Spaced.flatten` — so that text spells the document.
-/

namespace SpanCoverage.Json

/-! ## Numerals and literals -/

/-- A run of digits. -/
def IsDigits (cs : List Char) : Prop := cs ≠ [] ∧ ∀ c ∈ cs, c.isDigit = true

/-- The digits in front of a point: a run that begins with a zero is a zero alone. -/
def IsWhole (cs : List Char) : Prop := IsDigits cs ∧ (cs.head? = some '0' → cs = ['0'])

/-- A point and the digits behind it, or nothing. -/
def IsFraction (cs : List Char) : Prop := cs = [] ∨ ∃ digits, cs = '.' :: digits ∧ IsDigits digits

/-- A letter `e`, an optional sign and digits, or nothing. -/
def IsExponent (cs : List Char) : Prop :=
  cs = [] ∨ ∃ e sign digits, cs = e :: sign ++ digits ∧ (e = 'e' ∨ e = 'E') ∧
    (sign = [] ∨ sign = ['+'] ∨ sign = ['-']) ∧ IsDigits digits

/-- A numeral of JSON. -/
def IsNumeral (cs : List Char) : Prop :=
  ∃ sign whole fraction exponent, cs = sign ++ (whole ++ (fraction ++ exponent)) ∧
    (sign = [] ∨ sign = ['-']) ∧ IsWhole whole ∧ IsFraction fraction ∧ IsExponent exponent

/-- A string literal of JSON, as it stands between its quotes. -/
inductive IsLiteral : List Char → Prop
  | nil : IsLiteral []
  | plain {c : Char} {cs : List Char} (hquote : c ≠ '\"') (hbackslash : c ≠ '\\')
    (hcontrol : 0x20 ≤ c.toNat) (h : IsLiteral cs) : IsLiteral (c :: cs)
  | short {c : Char} {cs : List Char} (hc : c ∈ ['\"', '\\', '/', 'b', 'f', 'n', 'r', 't'])
    (h : IsLiteral cs) : IsLiteral ('\\' :: c :: cs)
  | unicode {a b c d : Char} {cs : List Char}
    (hdigits : ∀ x ∈ [a, b, c, d], (Text.hexValue? x).isSome = true) (h : IsLiteral cs) :
    IsLiteral ('\\' :: 'u' :: a :: b :: c :: d :: cs)

mutual

/-- Whether all numerals and literals of a document follow the grammar. -/
def Proper : Json → Prop
  | .null | .bool _ => True
  | .num numeral => IsNumeral numeral
  | .str literal => IsLiteral literal
  | .arr items => ProperItems items
  | .obj members => ProperMembers members

/-- The same for the items of a list. -/
def ProperItems : List Json → Prop
  | [] => True
  | item :: items => item.Proper ∧ ProperItems items

/-- The same for the members of an object and their keys. -/
def ProperMembers : List (List Char × Json) → Prop
  | [] => True
  | (key, value) :: members => IsLiteral key ∧ value.Proper ∧ ProperMembers members

end

/-! ## Tokens -/

mutual

/-- The tokens of a document, in order. -/
def tokens : Json → List (List Char)
  | .null => [['n', 'u', 'l', 'l']]
  | .bool true => [['t', 'r', 'u', 'e']]
  | .bool false => [['f', 'a', 'l', 's', 'e']]
  | .num numeral => [numeral]
  | .str literal => [quote literal]
  | .arr items => ['['] :: tokensItems items ++ [[']']]
  | .obj members => ['\x7b'] :: tokensMembers members ++ [['\x7d']]

/-- The tokens of items with commas between. -/
def tokensItems : List Json → List (List Char)
  | [] => []
  | [item] => item.tokens
  | item :: items => item.tokens ++ [','] :: tokensItems items

/-- The tokens of members with commas between. -/
def tokensMembers : List (List Char × Json) → List (List Char)
  | [] => []
  | [(key, value)] => quote key :: [':'] :: value.tokens
  | (key, value) :: members => quote key :: [':'] :: value.tokens ++ [','] :: tokensMembers members

end

theorem tokensItems_cons (item : Json) {items : List Json} (h : items ≠ []) :
    tokensItems (item :: items) = item.tokens ++ [','] :: tokensItems items := by
  cases items with
  | nil => exact absurd rfl h
  | cons next items => simp only [tokensItems]

theorem tokensMembers_cons (key : List Char) (value : Json) {members : List (List Char × Json)}
    (h : members ≠ []) :
    tokensMembers ((key, value) :: members) =
      quote key :: [':'] :: (value.tokens ++ [','] :: tokensMembers members) := by
  cases members with
  | nil => exact absurd rfl h
  | cons next members => simp only [tokensMembers, List.cons_append]

/-- White space between tokens. -/
def IsSpacing (cs : List Char) : Prop := ∀ c ∈ cs, isSpace c = true

/-- The texts that hold some tokens, with white space in front of each and behind the last. -/
inductive Spaced : List (List Char) → List Char → Prop
  | done {space : List Char} (h : IsSpacing space) : Spaced [] space
  | token {space token rest : List Char} {tokens : List (List Char)} (h : IsSpacing space)
    (htokens : Spaced tokens rest) : Spaced (token :: tokens) (space ++ (token ++ rest))

/-- The texts that spell a document. -/
def Spells (document : Json) (cs : List Char) : Prop :=
  document.Proper ∧ Spaced document.tokens cs

/-- Induction on documents, with a hypothesis for every item and every member's value. -/
theorem induct {motive : Json → Prop} (null : motive .null) (bool : ∀ b, motive (.bool b))
    (num : ∀ n, motive (.num n)) (str : ∀ l, motive (.str l))
    (arr : ∀ items, (∀ item ∈ items, motive item) → motive (.arr items))
    (obj : ∀ members, (∀ member ∈ members, motive member.2) → motive (.obj members))
    (document : Json) : motive document :=
  Json.rec (motive_1 := motive) (motive_2 := fun items => ∀ item ∈ items, motive item)
    (motive_3 := fun members => ∀ member ∈ members, motive member.2)
    (motive_4 := fun member => motive member.2)
    null bool num str arr obj (by simp) (fun _ _ h hs => List.forall_mem_cons.2 ⟨h, hs⟩) (by simp)
    (fun _ _ h hs => List.forall_mem_cons.2 ⟨h, hs⟩) (fun _ _ h => h) document

/-! ## The text on one line -/

theorem flatten_tokensItems {items : List Json}
    (h : ∀ item ∈ items, item.tokens.flatten = item.compact) :
    (tokensItems items).flatten = compactItems items := by
  induction items with
  | nil => rfl
  | cons item items ih =>
    rw [List.forall_mem_cons] at h
    cases items with
    | nil => exact h.1
    | cons next items => simp [tokensItems, compactItems, h.1, ih h.2]

theorem flatten_tokensMembers {members : List (List Char × Json)}
    (h : ∀ member ∈ members, member.2.tokens.flatten = member.2.compact) :
    (tokensMembers members).flatten = compactMembers members := by
  induction members with
  | nil => rfl
  | cons member members ih =>
    rw [List.forall_mem_cons] at h
    cases members with
    | nil => simp [tokensMembers, compactMembers, h.1]
    | cons next members => simp [tokensMembers, compactMembers, h.1, ih h.2]

/-- **The tokens, put together, are the text on one line.** -/
theorem flatten_tokens (document : Json) : document.tokens.flatten = document.compact := by
  induction document using Json.induct with
  | null => rfl
  | bool b => cases b <;> rfl
  | num n => simp [tokens, compact]
  | str l => simp [tokens, compact]
  | arr items ih => simp [tokens, compact, flatten_tokensItems ih]
  | obj members ih => simp [tokens, compact, flatten_tokensMembers ih]

/-- **Tokens without white space are a text that holds them.** -/
theorem Spaced.flatten (tokens : List (List Char)) : Spaced tokens tokens.flatten := by
  have hnone : IsSpacing [] := fun c hc => nomatch hc
  induction tokens with
  | nil => exact .done hnone
  | cons token tokens ih => exact .token hnone ih

/-- The text on one line spells its document. -/
theorem spells_compact {document : Json} (h : document.Proper) :
    Spells document document.compact :=
  ⟨h, document.flatten_tokens ▸ Spaced.flatten document.tokens⟩

/-! ## What is written -/

theorem all_hexValue?_control : ∀ n < 32,
    (['0', '0', Nat.digitChar (n / 16), Nat.digitChar (n % 16)].all
      fun x => (Text.hexValue? x).isSome) = true := by decide

theorem IsLiteral.encodeChar (c : Char) {cs : List Char} (h : IsLiteral cs) :
    IsLiteral (encodeChar c ++ cs) := by
  unfold Json.encodeChar
  split
  · exact .short (by decide) h
  split
  · exact .short (by decide) h
  split
  · exact .short (by decide) h
  split
  · exact .short (by decide) h
  split
  · exact .short (by decide) h
  split
  · exact .short (by decide) h
  split
  · exact .short (by decide) h
  split
  · rename_i hcontrol
    rw [hexPadded_control hcontrol]
    exact .unicode (List.all_eq_true.1 (all_hexValue?_control c.toNat hcontrol)) h
  · rename_i hquote hbackslash _ _ _ _ _ hcontrol
    exact .plain hquote hbackslash (Nat.le_of_not_lt hcontrol) h

/-- What is written for a text is a literal. -/
theorem isLiteral_encodeText (cs : List Char) : IsLiteral (encodeText cs) := by
  induction cs with
  | nil => exact .nil
  | cons c cs ih => exact ih.encodeChar c

/-- Only the digits of zero begin with a zero. -/
theorem eq_zero_of_head_toDigits {n : Nat} (h : (Nat.toDigits 10 n).head? = some '0') : n = 0 := by
  have hdigit : ∀ d < 10, Nat.digitChar d = '0' → d = 0 := by decide
  induction n using Nat.strongRecOn with
  | ind n ih =>
    rw [Nat.toDigits_eq_if (by decide)] at h
    split at h
    · rename_i hlt
      exact hdigit n hlt (Option.some.inj h)
    · rename_i hge
      -- the first digit is that of the quotient
      rw [List.head?_append, Option.or_of_isSome (by simp [Nat.toDigits_ne_nil])] at h
      have hquotient := ih (n / 10) (by omega) h
      omega

theorem isDigits_toDigits (n : Nat) : IsDigits (Nat.toDigits 10 n) :=
  ⟨Nat.toDigits_ne_nil, fun _ hc => Nat.isDigit_of_mem_toDigits (by decide) (by decide) hc⟩

/-- What is written for a number is a numeral. -/
theorem isNumeral_toDigits (n : Nat) : IsNumeral (Nat.toDigits 10 n) := by
  refine ⟨[], Nat.toDigits 10 n, [], [], by simp, .inl rfl, ⟨isDigits_toDigits n, ?_⟩, .inl rfl,
    .inl rfl⟩
  intro hhead
  rw [eq_zero_of_head_toDigits hhead]
  rfl

@[simp] theorem proper_ofText (text : String) : (ofText text).Proper := isLiteral_encodeText _

@[simp] theorem proper_ofNat (n : Nat) : (ofNat n).Proper := isNumeral_toDigits n

theorem proper_arr {items : List Json} (h : ∀ item ∈ items, item.Proper) : (arr items).Proper := by
  show ProperItems _
  induction items with
  | nil => trivial
  | cons item items ih =>
    rw [List.forall_mem_cons] at h
    exact ⟨h.1, ih h.2⟩

theorem proper_ofMembers {fields : List (String × Json)} (h : ∀ field ∈ fields, field.2.Proper) :
    (ofMembers fields).Proper := by
  show ProperMembers _
  induction fields with
  | nil => trivial
  | cons field fields ih =>
    rw [List.forall_mem_cons] at h
    exact ⟨isLiteral_encodeText _, h.1, ih h.2⟩

end SpanCoverage.Json
