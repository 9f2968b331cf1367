import SpanCoverage.Program.Reading
import SpanCoverage.Program.Signs
import SpanCoverage.Text.Decimal

/-!
# What listings of expressions tell

A reader that is given the text of an expression finds the expression, up to one thing: a sign in
front of a call may be a sign of the callee.  The reader's steps are taken one after the other along
the text; an operand is read up to any calls behind it, so the signs that are read in front of a
callee end up in front of the call.  From this it follows which expressions share a text.

The main results are:

* `Expr.reads` — what is read from the text of an expression.
* `Expr.text_eq_iff` — the expressions with one text.
* `Expr.listing_unambiguous` — where a text stands for one expression.
-/

namespace SpanCoverage

namespace Listing

/-! ## Words -/

/-- A text that does not go on with a word. -/
def Stops (cs : List Char) : Prop := ∀ c ∈ cs.head?, isWordChar c = false

/-- A text that can stand behind an expression: it is at its end, or a list or a pair of parentheses
goes on or closes. -/
def Closed (cs : List Char) : Prop := ∀ c ∈ cs.head?, c = ')' ∨ c = ','

theorem stops_cons {c : Char} (cs : List Char) (h : isWordChar c = false) : Stops (c :: cs) := by
  rintro _ ⟨⟩
  exact h

theorem closed_paren (cs : List Char) : Closed (')' :: cs) := by
  rintro _ ⟨⟩
  exact .inl rfl

theorem closed_comma (cs : List Char) : Closed (',' :: cs) := by
  rintro _ ⟨⟩
  exact .inr rfl

theorem Closed.stops {cs : List Char} (h : Closed cs) : Stops cs := by
  intro c hc
  obtain rfl | rfl := h c hc <;> decide

/-! ## Steps of the reader -/

section Gives

variable {α : Type} {read : Nat → List Char → Option (α × List Char)} {cs rest behind : List Char}
  {a b : α}

/-- With any fuel that is enough, one and the same result is given. -/
theorem Gives.unique (h : Gives read cs a rest) (h' : Gives read cs b behind) : a = b := by
  obtain ⟨n, hn⟩ := h
  obtain ⟨m, hm⟩ := h'
  have hread := hn (max n m) (Nat.le_max_left n m)
  rw [hm (max n m) (Nat.le_max_right n m)] at hread
  exact (Prod.mk.inj (Option.some.inj hread)).1.symm

/-- A call of the reader takes one unit of fuel. -/
theorem Gives.succ (enough : Nat)
    (h : ∀ fuel ≥ enough, read (fuel + 1) cs = some (a, rest)) : Gives read cs a rest := by
  refine ⟨enough + 1, fun fuel hfuel => ?_⟩
  obtain ⟨fuel, rfl⟩ : ∃ f, fuel = f + 1 := ⟨fuel - 1, by omega⟩
  exact h fuel (by omega)

end Gives

section Steps

variable {cs rest behind : List Char}

/-- Where no parenthesis opens, no call is read. -/
theorem readCalls_nil (h : ∀ c ∈ cs.head?, c ≠ '(') : Gives readCalls cs [] cs := by
  refine .succ 0 fun fuel _ => ?_
  unfold readCalls
  split
  · exact absurd rfl (h _ rfl)
  · exact absurd rfl (h _ rfl)
  · rfl

/-- Behind a head that is no sign all calls are read. -/
theorem readOperand_head {c : Char} {head : Expr} {calls : List (List Expr)}
    (hc : c ≠ '-' ∧ c ≠ '!') (hhead : Gives readHead (c :: cs) head rest)
    (hcalls : Gives readCalls rest calls behind) :
    Gives readOperand (c :: cs) (calls.foldl .call head) behind := by
  obtain ⟨n, hn⟩ := hhead
  obtain ⟨m, hm⟩ := hcalls
  refine .succ (max n m) fun fuel hfuel => ?_
  rw [readOperand]
  · simp [hn fuel (by omega), hm fuel (by omega)]
  · simp [hc.1]
  · simp [hc.2]

theorem readOperand_sign (op : UnaryOp) {operand : Expr}
    (h : Gives readOperand cs operand rest) :
    Gives readOperand (op.text.toList ++ cs) (.unary op operand) rest := by
  obtain ⟨n, hn⟩ := h
  refine .succ n fun fuel hfuel => ?_
  cases op with
  | neg =>
    show readOperand (fuel + 1) ('-' :: cs) = _
    simp [readOperand, hn fuel hfuel]
  | not =>
    show readOperand (fuel + 1) ('!' :: cs) = _
    simp [readOperand, hn fuel hfuel]

theorem readOperator_text (op : BinaryOp) (cs : List Char) :
    readOperator (op.text.toList ++ ' ' :: cs) = some (op, cs) := by
  cases op <;> simp [readOperator, BinaryOp.all, BinaryOp.text]

theorem readHead_parens {e : Expr} (h : Gives readExpr cs e (')' :: rest)) :
    Gives readHead ('(' :: cs) e rest := by
  obtain ⟨n, hn⟩ := h
  exact .succ n fun fuel hfuel => by simp [readHead, hn fuel hfuel]

theorem readHead_quote {text : List Char} (h : Text.readQuoted cs = some (text, rest)) :
    Gives readHead ('\"' :: cs) (.const (.str (String.ofList text))) rest :=
  .succ 0 fun fuel _ => by simp [readHead, h]

section Words

variable {c : Char} {word : List Char}

/-- A head that begins with a word. -/
theorem readHead_of_word (hword : (c :: word).all isWordChar = true) (hrest : Stops rest)
    (fuel : Nat) :
    readHead (fuel + 1) (c :: word ++ rest) =
      if c :: word = "probe".toList then readProbe fuel rest else readWord (c :: word) rest := by
  have hrun := List.all_eq_true.1 hword
  have hc := hrun c List.mem_cons_self
  have hparen : c ≠ '(' := by rintro rfl; exact absurd hc (by decide)
  have hquote : c ≠ '\"' := by rintro rfl; exact absurd hc (by decide)
  rw [readHead, Text.takeWhile_run hrun hrest, Text.dropWhile_run hrun hrest]
  · rfl
  · simp [hparen]
  · simp [hquote]

theorem readHead_word {e : Expr} (hword : (c :: word).all isWordChar = true) (hrest : Stops rest)
    (hprobe : c :: word ≠ "probe".toList) (h : readWord (c :: word) rest = some (e, behind)) :
    Gives readHead (c :: word ++ rest) e behind :=
  .succ 0 fun fuel _ => by rw [readHead_of_word hword hrest, if_neg hprobe, h]

end Words

theorem readHead_probe {e : Expr} (hrest : Stops rest) (h : Gives readProbe rest e behind) :
    Gives readHead (['p', 'r', 'o', 'b', 'e'] ++ rest) e behind := by
  obtain ⟨n, hn⟩ := h
  refine .succ n fun fuel hfuel => ?_
  rw [readHead_of_word (by decide) hrest, if_pos (by decide), hn fuel hfuel]

/-- No expression begins with a closing parenthesis. -/
theorem readExpr_close (fuel : Nat) (cs : List Char) : readExpr fuel (')' :: cs) = none := by
  have hword : isWordChar ')' = false := by decide
  have hhead (fuel : Nat) : readHead fuel (')' :: cs) = none := by
    cases fuel <;> simp [readHead, hword]
  have hoperand (fuel : Nat) : readOperand fuel (')' :: cs) = none := by
    cases fuel <;> simp [readOperand, hhead]
  cases fuel <;> simp [readExpr, hoperand]

theorem readArgs_last {e : Expr} (h : Gives readExpr cs e (')' :: rest)) :
    Gives readArgs cs [e] rest := by
  obtain ⟨n, hn⟩ := h
  exact .succ n fun fuel hfuel => by simp [readArgs, hn fuel hfuel]

theorem readArgs_more {e : Expr} {es : List Expr} (h : Gives readExpr cs e (',' :: ' ' :: rest))
    (hes : Gives readArgs rest es behind) : Gives readArgs cs (e :: es) behind := by
  obtain ⟨n, hn⟩ := h
  obtain ⟨m, hm⟩ := hes
  refine .succ (max n m) fun fuel hfuel => ?_
  simp [readArgs, hn fuel (by omega), hm fuel (by omega)]

theorem readCalls_none {calls : List (List Expr)} (hcalls : Gives readCalls rest calls behind) :
    Gives readCalls ('(' :: ')' :: rest) ([] :: calls) behind := by
  obtain ⟨n, hn⟩ := hcalls
  exact .succ n fun fuel hfuel => by simp [readCalls, hn fuel hfuel]

theorem readCalls_some {args : List Expr} {calls : List (List Expr)}
    (hargs : Gives readArgs cs args rest) (hcalls : Gives readCalls rest calls behind) :
    Gives readCalls ('(' :: cs) (args :: calls) behind := by
  obtain ⟨n, hn⟩ := hargs
  obtain ⟨m, hm⟩ := hcalls
  refine .succ (max n m) fun fuel hfuel => ?_
  rw [readCalls]
  · simp [hn fuel (by omega), hm fuel (by omega)]
  · rintro cs' rfl
    have hread := hn (n + 1) (by omega)
    rw [readArgs, readExpr_close] at hread
    cases hread

theorem readProbe_text (span : Nat) {e : Expr} (h : Gives readExpr cs e (')' :: rest)) :
    Gives readProbe ('(' :: (Nat.toDigits 10 span ++ ',' :: ' ' :: cs)) (.probed span e) rest := by
  obtain ⟨n, hn⟩ := h
  have hdigits : ∀ c ∈ Nat.toDigits 10 span, c.isDigit = true := fun c hc =>
    Nat.isDigit_of_mem_toDigits (by decide) (by decide) hc
  have hcomma : ∀ c ∈ (',' :: ' ' :: cs).head?, c.isDigit = false := by
    rintro _ ⟨⟩
    decide
  refine .succ n fun fuel hfuel => ?_
  simp [readProbe, Text.takeWhile_run hdigits hcomma, Text.dropWhile_run hdigits hcomma,
    hn fuel hfuel, Nat.ofDigitChars_toDigits]

theorem readToken_text (unit : MethodToken) (cs : List Char) :
    readToken (' ' :: (unit.text.toList ++ cs)) = some (unit, cs) := by
  have hlength := Text.length_hexPadded 8 unit.raw.toNat
  have hvalue : Text.hexNumber (Text.hexPadded 8 unit.raw.toNat) = unit.raw.toNat := by
    rw [Text.hexNumber_hexPadded]
    exact Nat.mod_eq_of_lt unit.raw.toNat_lt
  rw [MethodToken.text, String.toList_ofList, List.cons_append, List.cons_append, readToken,
    List.take_left' hlength, List.drop_left' hlength, hvalue, UInt32.ofNat_toNat]

theorem readCalls_closed (h : Closed cs) : Gives readCalls cs [] cs := by
  refine readCalls_nil fun c hc => ?_
  obtain rfl | rfl := h c hc <;> decide

/-- An operand in front of a closed text is an expression. -/
theorem readExpr_operand {e : Expr} (hrest : Closed rest) (h : Gives readOperand cs e rest) :
    Gives readExpr cs e rest := by
  obtain ⟨n, hn⟩ := h
  refine .succ n fun fuel hfuel => ?_
  unfold readExpr
  simp only [hn fuel hfuel, Option.bind_eq_bind, Option.bind_some]
  split
  · exact absurd (hrest ' ' rfl) (by decide)
  · rfl

theorem readExpr_binary {l r : Expr} (op : BinaryOp)
    (hl : Gives readOperand cs l (' ' :: (op.text.toList ++ ' ' :: rest)))
    (hr : Gives readOperand rest r behind) : Gives readExpr cs (.binary op l r) behind := by
  obtain ⟨n, hn⟩ := hl
  obtain ⟨m, hm⟩ := hr
  refine .succ (max n m) fun fuel hfuel => ?_
  simp [readExpr, hn fuel (by omega), hm fuel (by omega), readOperator_text]

end Steps

end Listing

namespace Expr

open Listing

theorem foldl_applyCall {e : Expr} (h : e.isSigned = false) (calls : List (List Expr)) :
    calls.foldl applyCall e = calls.foldl .call e := by
  induction calls generalizing e with
  | nil => rfl
  | cons args calls ih =>
    rw [List.foldl_cons, List.foldl_cons, applyCall_of_not_signed h]
    exact ih rfl

theorem foldl_applyCall_unary (op : UnaryOp) (e : Expr) (calls : List (List Expr)) :
    calls.foldl applyCall (.unary op e) = .unary op (calls.foldl applyCall e) := by
  induction calls generalizing e with
  | nil => rfl
  | cons args calls ih => exact ih (e.applyCall args)

/-! ## Reading -/

/-- A reader of listings gives the expression as its text has it, with the calls behind it if it is
read as an operand. -/
structure Reads (e : Expr) : Prop where
  expr : ∀ rest, Closed rest → Gives readExpr (e.text.toList ++ rest) e.hoisted rest
  operand : ∀ rest calls behind, Stops rest → Gives readCalls rest calls behind →
    Gives readOperand ((e.operand e.text).toList ++ rest) (calls.foldl applyCall e.hoisted) behind

/-- An expression that stands bare as an operand. -/
theorem Reads.of_operand {e : Expr} (hcompound : e.isCompound = false)
    (h : ∀ rest calls behind, Stops rest → Gives readCalls rest calls behind →
      Gives readOperand (e.text.toList ++ rest) (calls.foldl applyCall e.hoisted) behind) :
    Reads e where
  expr rest hrest := readExpr_operand hrest (h rest [] rest hrest.stops (readCalls_closed hrest))
  operand := by rwa [operand_of_not_compound hcompound e.text]

/-- An expression that stands in parentheses as an operand. -/
theorem Reads.of_expr {e : Expr} (hcompound : e.isCompound = true)
    (hsigned : e.hoisted.isSigned = false)
    (h : ∀ rest, Closed rest → Gives readExpr (e.text.toList ++ rest) e.hoisted rest) :
    Reads e where
  expr := h
  operand rest calls behind hrest hcalls := by
    have htext : (e.operand e.text).toList ++ rest = '(' :: (e.text.toList ++ ')' :: rest) := by
      simp [Expr.operand, hcompound]
    rw [htext, foldl_applyCall hsigned]
    exact readOperand_head (by decide) (readHead_parens (h _ (closed_paren rest))) hcalls

/-- A head that stands bare as an operand. -/
theorem Reads.of_head {e : Expr} {c : Char} {cs : List Char} (hcompound : e.isCompound = false)
    (hsigned : e.hoisted.isSigned = false) (htext : e.text.toList = c :: cs)
    (hc : c ≠ '-' ∧ c ≠ '!')
    (h : ∀ rest, Stops rest → Gives readHead (c :: cs ++ rest) e.hoisted rest) :
    Reads e := by
  refine .of_operand hcompound fun rest calls behind hrest hcalls => ?_
  rw [foldl_applyCall hsigned, htext]
  exact readOperand_head hc (h rest hrest) hcalls

theorem not_sign_of_isWordChar {c : Char} (h : isWordChar c = true) : c ≠ '-' ∧ c ≠ '!' := by
  constructor
  · rintro rfl
    exact absurd h (by decide)
  · rintro rfl
    exact absurd h (by decide)

/-- A word that stands for itself. -/
theorem Reads.of_word {e : Expr} {c : Char} {word : List Char} (hcompound : e.isCompound = false)
    (hsigned : e.hoisted.isSigned = false) (htext : e.text.toList = c :: word)
    (hword : (c :: word).all isWordChar = true) (hfn : c :: word ≠ "fn".toList)
    (hclosure : c :: word ≠ "closure".toList) (hprobe : c :: word ≠ "probe".toList)
    (hatom : atom (c :: word) = e.hoisted) : Reads e := by
  have hc := List.all_eq_true.1 hword c List.mem_cons_self
  refine .of_head hcompound hsigned htext (not_sign_of_isWordChar hc) fun rest hrest => ?_
  refine readHead_word hword hrest hprobe ?_
  rw [readWord, if_neg hfn, if_neg hclosure, hatom]

/-- A reference to a unit, which stands in parentheses as an operand. -/
theorem Reads.of_unit {e : Expr} (unit : MethodToken) {c : Char} {word : List Char}
    (hcompound : e.isCompound = true) (hsigned : e.hoisted.isSigned = false)
    (htext : e.text.toList = c :: word ++ ' ' :: unit.text.toList)
    (hword : (c :: word).all isWordChar = true) (hprobe : c :: word ≠ "probe".toList)
    (h : ∀ rest, readWord (c :: word) (' ' :: (unit.text.toList ++ rest)) =
      some (e.hoisted, rest)) : Reads e := by
  have hc := List.all_eq_true.1 hword c List.mem_cons_self
  refine .of_expr hcompound hsigned fun rest hrest => ?_
  have hspace : Stops (' ' :: (unit.text.toList ++ rest)) := stops_cons _ (by decide)
  have hhead := readHead_word hword hspace hprobe (h rest)
  rw [htext, List.append_assoc, List.cons_append]
  exact readExpr_operand hrest
    (readOperand_head (not_sign_of_isWordChar hc) hhead (readCalls_closed hrest))

/-! ## The forms of expressions -/

theorem reads_text (s : String) : Reads (.const (.str s)) := by
  have htext : (const (.str s)).text.toList =
      '\"' :: (s.toList.flatMap Text.escape ++ ['\"']) := by
    simp [text, Constant.text, Text.quoted]
  refine .of_head rfl rfl htext (by decide) fun rest _ => ?_
  have hhead := readHead_quote (Text.readQuoted_quoted s.toList rest)
  rw [String.ofList_toList] at hhead
  rwa [List.cons_append, List.append_assoc, List.singleton_append]

theorem reads_int {i : Int64} (h : 0 ≤ i.toInt) : Reads (.const (.int i)) := by
  obtain ⟨n, hn⟩ := Int.eq_ofNat_of_zero_le h
  have htext : (const (.int i)).text.toList = Nat.toDigits 10 n := by
    rw [text, Constant.text, hn]
    exact Nat.toList_repr
  have hdigits : ∀ c ∈ Nat.toDigits 10 n, c.isDigit = true := fun c hc =>
    Nat.isDigit_of_mem_toDigits (by decide) (by decide) hc
  have hword : (Nat.toDigits 10 n).all isWordChar = true :=
    List.all_eq_true.2 fun c hc => by simp [isWordChar, Char.isAlphanum, hdigits c hc]
  have hvalue : Int64.ofInt (Nat.ofDigitChars 10 (Nat.toDigits 10 n) 0) = i := by
    rw [Nat.ofDigitChars_toDigits (by decide) (by decide), ← Int64.ofInt_toInt i, hn]
  obtain ⟨c, word, hdigit⟩ := List.exists_cons_of_ne_nil (Nat.toDigits_ne_nil (b := 10) (n := n))
  rw [hdigit] at hword hvalue htext hdigits
  have hc : c.isDigit = true := hdigits c List.mem_cons_self
  have hother (key : List Char) (hkey : key.head?.any Char.isDigit = false) : c :: word ≠ key := by
    rintro rfl
    simp [hc] at hkey
  refine .of_word rfl rfl htext hword (hother _ (by decide)) (hother _ (by decide))
    (hother _ (by decide)) ?_
  rw [atom, if_neg (hother _ (by decide)), if_neg (hother _ (by decide)),
    if_neg (hother _ (by decide)), if_pos (by simp [hc]), hvalue, hoisted]

theorem reads_const {c : Constant} (h : (const c).Ordinary) : Reads (.const c) := by
  cases c with
  | null => exact .of_word rfl rfl rfl (by decide) (by decide) (by decide) (by decide) rfl
  | bool b =>
    cases b
    all_goals exact .of_word rfl rfl rfl (by decide) (by decide) (by decide) (by decide) rfl
  | int i => exact reads_int h
  | str s => exact reads_text s

theorem reads_var {name : String} (h : IsIdentifier name) : Reads (.var name) := by
  obtain ⟨hne, hword, hdigit, hkey⟩ := h
  obtain ⟨c, word, hname⟩ := List.exists_cons_of_ne_nil (mt String.toList_eq_nil_iff.1 hne)
  have hother (key : String) (h : key ∈ keywords) : c :: word ≠ key.toList := by
    intro heq
    rw [← hname, String.toList_inj] at heq
    exact hkey (heq ▸ h)
  rw [hname] at hword hdigit
  refine .of_word rfl rfl hname hword (hother _ (by decide)) (hother _ (by decide))
    (hother _ (by decide)) ?_
  rw [atom, if_neg (hother _ (by decide)), if_neg (hother _ (by decide)),
    if_neg (hother _ (by decide)), if_neg (Bool.eq_false_iff.1 hdigit), ← hname,
    String.ofList_toList]
  rfl

theorem reads_unary (op : UnaryOp) {e : Expr} (h : Reads e) : Reads (.unary op e) := by
  refine .of_operand rfl fun rest calls behind hrest hcalls => ?_
  have htext : (unary op e).text.toList ++ rest =
      op.text.toList ++ ((e.operand e.text).toList ++ rest) := by
    rw [text, String.toList_append, List.append_assoc]
  -- calls behind the operand are read with it, and so belong to it and not to the sign
  rw [htext, hoisted, foldl_applyCall_unary]
  exact readOperand_sign op (h.operand rest calls behind hrest hcalls)

theorem reads_binary (op : BinaryOp) {l r : Expr} (hl : Reads l) (hr : Reads r) :
    Reads (.binary op l r) := by
  refine .of_expr rfl rfl fun rest hrest => ?_
  have htext : (binary op l r).text.toList ++ rest = (l.operand l.text).toList ++
      ' ' :: (op.text.toList ++ ' ' :: ((r.operand r.text).toList ++ rest)) := by
    simp [text]
  have hspace : Stops (' ' :: (op.text.toList ++ ' ' :: ((r.operand r.text).toList ++ rest))) :=
    stops_cons _ (by decide)
  have hleft := hl.operand _ _ _ hspace (readCalls_nil (by rintro _ ⟨⟩; decide))
  have hright := hr.operand rest [] rest hrest.stops (readCalls_closed hrest)
  rw [htext]
  exact readExpr_binary op hleft hright

theorem reads_function (unit : MethodToken) : Reads (.function unit) := by
  have htext : (function unit).text.toList = ['f', 'n'] ++ ' ' :: unit.text.toList := by
    simp [text]
  refine .of_unit unit rfl rfl htext (by decide) (by decide) fun rest => ?_
  rw [readWord, if_pos (by decide), readToken_text]
  rfl

theorem reads_closure (unit : MethodToken) : Reads (.closure unit) := by
  have htext : (closure unit).text.toList =
      ['c', 'l', 'o', 's', 'u', 'r', 'e'] ++ ' ' :: unit.text.toList := by
    simp [text]
  refine .of_unit unit rfl rfl htext (by decide) (by decide) fun rest => ?_
  rw [readWord, if_neg (by decide), if_pos (by decide), readToken_text]
  rfl

theorem readArgs_text {args : List Expr} (h : ∀ a ∈ args, Reads a) (hne : args ≠ [])
    (rest : List Char) :
    Gives readArgs ((textAll args).toList ++ ')' :: rest) (hoistedAll args) rest := by
  induction args with
  | nil => exact absurd rfl hne
  | cons arg args ih =>
    rw [List.forall_mem_cons] at h
    cases args with
    | nil => exact readArgs_last (h.1.expr _ (closed_paren rest))
    | cons next args =>
      have htext : (textAll (arg :: next :: args)).toList ++ ')' :: rest =
          arg.text.toList ++ ',' :: ' ' :: ((textAll (next :: args)).toList ++ ')' :: rest) := by
        simp [textAll]
      rw [htext]
      exact readArgs_more (h.1.expr _ (closed_comma _)) (ih h.2 (List.cons_ne_nil _ _))

theorem readCalls_text {args : List Expr} {calls : List (List Expr)} {rest behind : List Char}
    (h : ∀ a ∈ args, Reads a) (hcalls : Gives readCalls rest calls behind) :
    Gives readCalls ('(' :: ((textAll args).toList ++ ')' :: rest))
      (hoistedAll args :: calls) behind := by
  cases args with
  | nil => exact readCalls_none hcalls
  | cons arg args => exact readCalls_some (readArgs_text h (List.cons_ne_nil _ _) rest) hcalls

theorem reads_call {f : Expr} {args : List Expr} (hf : Reads f) (hargs : ∀ a ∈ args, Reads a) :
    Reads (.call f args) := by
  refine .of_operand rfl fun rest calls behind _ hcalls => ?_
  have htext : (call f args).text.toList ++ rest =
      (f.operand f.text).toList ++ '(' :: ((textAll args).toList ++ ')' :: rest) := by
    simp [text]
  rw [htext]
  -- the callee is read up to all calls behind it, and this call is the first of them
  exact hf.operand _ _ _ (stops_cons _ (by decide)) (readCalls_text hargs hcalls)

theorem reads_probed (span : Nat) {e : Expr} (h : Reads e) : Reads (.probed span e) := by
  have htext : (probed span e).text.toList = ['p', 'r', 'o', 'b', 'e'] ++
      '(' :: (Nat.toDigits 10 span ++ ',' :: ' ' :: (e.text.toList ++ [')'])) := by
    simp [text]
  refine .of_head rfl rfl htext (by decide) fun rest _ => ?_
  have hprobe := readProbe_text span (h.expr _ (closed_paren rest))
  simpa [hoisted] using readHead_probe (stops_cons _ (by decide)) hprobe

theorem ordinaryAll_iff {es : List Expr} : OrdinaryAll es ↔ ∀ e ∈ es, e.Ordinary := by
  induction es with
  | nil => simp [OrdinaryAll]
  | cons e es ih => simp [OrdinaryAll, ih]

/-- **Every ordinary expression is read as its text has it.** -/
theorem reads {e : Expr} (h : e.Ordinary) : Reads e := by
  induction e using Expr.induct with
  | const c => exact reads_const h
  | var name => exact reads_var h
  | unary op e ih => exact reads_unary op (ih h)
  | binary op l r ihl ihr => exact reads_binary op (ihl h.1) (ihr h.2)
  | function unit => exact reads_function unit
  | closure unit => exact reads_closure unit
  | call f args ihf ihargs =>
    exact reads_call (ihf h.1) fun arg harg => ihargs arg harg (ordinaryAll_iff.1 h.2 arg harg)
  | probed span e ih => exact reads_probed span (ih h)

/-! ## What a text tells -/

theorem Ordinary.applyCall {e : Expr} {args : List Expr} (h : e.Ordinary)
    (hargs : OrdinaryAll args) : (e.applyCall args).Ordinary := by
  induction e using Expr.induct with
  | unary op e ih => exact ih h
  | const | var | binary | function | closure | call | probed => exact ⟨h, hargs⟩

theorem Ordinary.hoisted {e : Expr} (h : e.Ordinary) : e.hoisted.Ordinary := by
  induction e using Expr.induct with
  | const | var | function | closure => exact h
  | unary op e ih => exact ih h
  | binary op l r ihl ihr => exact ⟨ihl h.1, ihr h.2⟩
  | probed span e ih => exact ih h
  | call f args ihf ihargs =>
    have hargs : OrdinaryAll (hoistedAll args) := by
      rw [hoistedAll_eq_map, ordinaryAll_iff, List.forall_mem_map]
      exact fun arg harg => ihargs arg harg (ordinaryAll_iff.1 h.2 arg harg)
    exact (ihf h.1).applyCall hargs

theorem Ordinary.applySign {e : Expr} (op : UnaryOp) (h : e.Ordinary) :
    (applySign op e).Ordinary := by
  cases e <;> exact h

theorem Ordinary.sunk {e : Expr} (h : e.Ordinary) : e.sunk.Ordinary := by
  induction e using Expr.induct with
  | const | var | function | closure => exact h
  | unary op e ih => exact (ih h).applySign op
  | binary op l r ihl ihr => exact ⟨ihl h.1, ihr h.2⟩
  | probed span e ih => exact ih h
  | call f args ihf ihargs =>
    refine ⟨ihf h.1, ?_⟩
    rw [sunkAll_eq_map, ordinaryAll_iff, List.forall_mem_map]
    exact fun arg harg => ihargs arg harg (ordinaryAll_iff.1 h.2 arg harg)

/-- **Two ordinary expressions have one text exactly if they differ only in where signs stand at
calls.** -/
theorem text_eq_iff {e e' : Expr} (h : e.Ordinary) (h' : e'.Ordinary) :
    e.text = e'.text ↔ e.hoisted = e'.hoisted := by
  constructor
  · intro htext
    have hclosed : Closed [] := by rintro _ ⟨⟩
    have hread := (reads h).expr [] hclosed
    rw [htext] at hread
    exact hread.unique ((reads h').expr [] hclosed)
  · intro hhoisted
    rw [← text_hoisted e, hhoisted, text_hoisted]

/-- **A listing shows expressions unambiguously where no sign stands at a call.**  What it does not
show is whether the signs in front of a call are those of the callee: two expressions have one text
exactly if they are the same once these signs are hoisted.  So among the expressions whose callees
have no signs each text stands for one expression, and an expression shares its text with no other
at all exactly if no callee has a sign and no sign has a call as its operand. -/
theorem listing_unambiguous {e : Expr} (h : e.Ordinary) :
    (∀ e' : Expr, e'.Ordinary → (e.text = e'.text ↔ e.hoisted = e'.hoisted)) ∧
    (e.PlainCallees → ∀ e' : Expr, e'.Ordinary → e'.PlainCallees → e.text = e'.text → e = e') ∧
    ((∀ e' : Expr, e'.Ordinary → e.text = e'.text → e = e') ↔
      e.PlainCallees ∧ e.PlainOperands) := by
  refine ⟨fun e' h' => text_eq_iff h h', ?_, ?_, ?_⟩
  · intro hplain e' h' hplain' htext
    have hhoisted := (text_eq_iff h h').1 htext
    rwa [hoisted_eq_self_iff.2 hplain, hoisted_eq_self_iff.2 hplain'] at hhoisted
  · intro hunique
    -- both ways of moving signs keep the text, so they must leave the expression alone
    have hhoisted := hunique e.hoisted h.hoisted (text_hoisted e).symm
    have hsunk := hunique e.sunk h.sunk (text_sunk e).symm
    exact ⟨hoisted_eq_self_iff.1 hhoisted.symm, sunk_eq_self_iff.1 hsunk.symm⟩
  · rintro ⟨hcallees, hoperands⟩ e' h' htext
    have hhoisted := (text_eq_iff h h').1 htext
    rw [hoisted_eq_self_iff.2 hcallees] at hhoisted
    rw [hhoisted, hoisted_eq_self (hhoisted ▸ hoperands)]

/-- The call of a negated callee. -/
def negatedCallee : Expr := .call (.unary .neg (.var "x")) [.var "y"]

/-- The negation of a call. -/
def negatedCall : Expr := .unary .neg (.call (.var "x") [.var "y"])

/-- A sum of a negated name and the call of a difference, all behind a probe. -/
def probedSum : Expr :=
  .probed 3 (.binary .add (.unary .neg (.var "x"))
    (.call (.binary .sub (.var "f") (.const (.int 7)))
      [.const (.str "a\")"), .function ⟨0x06000001⟩]))

theorem probedSum_unambiguous :
    probedSum.Ordinary ∧ (∀ e : Expr, e.Ordinary → probedSum.text = e.text → probedSum = e) ∧
      (negatedCall.text = negatedCallee.text ↔ negatedCall.hoisted = negatedCallee.hoisted) := by
  have hf : IsIdentifier "f" := by decide
  have hx : IsIdentifier "x" := by decide
  have hy : IsIdentifier "y" := by decide
  have hseven : 0 ≤ (7 : Int64).toInt := by decide
  have hsum : probedSum.Ordinary := ⟨hx, ⟨hf, hseven⟩, trivial, trivial, trivial⟩
  have hcallees : probedSum.PlainCallees :=
    ⟨trivial, rfl, ⟨trivial, trivial⟩, trivial, trivial, trivial⟩
  have hoperands : probedSum.PlainOperands :=
    ⟨⟨rfl, trivial⟩, ⟨trivial, trivial⟩, trivial, trivial, trivial⟩
  exact ⟨hsum, (listing_unambiguous hsum).2.2.2 ⟨hcallees, hoperands⟩,
    (listing_unambiguous (show negatedCall.Ordinary from ⟨hx, hy, trivial⟩)).1 negatedCallee
      ⟨hx, hy, trivial⟩⟩

theorem negatedCallee_ambiguous :
    negatedCallee.Ordinary ∧ negatedCall.Ordinary ∧ negatedCallee.text = negatedCall.text ∧
      negatedCallee ≠ negatedCall := by
  have hx : IsIdentifier "x" := by decide
  have hy : IsIdentifier "y" := by decide
  exact ⟨⟨hx, hy, trivial⟩, ⟨hx, hy, trivial⟩, (text_hoisted negatedCallee).symm, nofun⟩

end Expr

end SpanCoverage
