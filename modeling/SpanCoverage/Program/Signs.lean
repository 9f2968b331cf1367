import SpanCoverage.Program.Listing

/-!
# Signs at calls

A callee with a sign stands in a listing without parentheses, so the call of a negated callee and
the negation of a call have one text. `hoisted` puts the signs of every callee in front of its call,
and `sunk` puts a sign in front of a call on the callee; neither changes the text. Main statements:
`text_hoisted` and `text_sunk`, and the expressions that each of them leaves alone.
-/

namespace SpanCoverage

namespace Expr

/-- Whether the expression begins with a sign of its own. -/
def isSigned : Expr → Bool
  | .unary .. => true
  | _ => false

/-- Whether the expression is a call. -/
def isCall : Expr → Bool
  | .call .. => true
  | _ => false

mutual

/-- Whether no callee has a sign. -/
def PlainCallees : Expr → Prop
  | .const _ | .var _ | .function _ | .closure _ => True
  | .unary _ e => e.PlainCallees
  | .binary _ l r => l.PlainCallees ∧ r.PlainCallees
  | .call f args => f.isSigned = false ∧ f.PlainCallees ∧ PlainCalleesAll args
  | .probed _ e => e.PlainCallees

/-- The same for a list of expressions. -/
def PlainCalleesAll : List Expr → Prop
  | [] => True
  | e :: es => e.PlainCallees ∧ PlainCalleesAll es

end

mutual

/-- Whether no sign has a call as its operand. -/
def PlainOperands : Expr → Prop
  | .const _ | .var _ | .function _ | .closure _ => True
  | .unary _ e => e.isCall = false ∧ e.PlainOperands
  | .binary _ l r => l.PlainOperands ∧ r.PlainOperands
  | .call f args => f.PlainOperands ∧ PlainOperandsAll args
  | .probed _ e => e.PlainOperands

/-- The same for a list of expressions. -/
def PlainOperandsAll : List Expr → Prop
  | [] => True
  | e :: es => e.PlainOperands ∧ PlainOperandsAll es

end

theorem plainCalleesAll_iff {es : List Expr} :
    PlainCalleesAll es ↔ ∀ e ∈ es, e.PlainCallees := by
  induction es with
  | nil => simp [PlainCalleesAll]
  | cons e es ih => simp [PlainCalleesAll, ih]

theorem plainOperandsAll_iff {es : List Expr} :
    PlainOperandsAll es ↔ ∀ e ∈ es, e.PlainOperands := by
  induction es with
  | nil => simp [PlainOperandsAll]
  | cons e es ih => simp [PlainOperandsAll, ih]

/-! ## Lists of expressions -/

section Lists

variable {f : Expr → Expr} {es : List Expr}

theorem map_eq_self_iff : es.map f = es ↔ ∀ e ∈ es, f e = e := by
  simpa using List.map_inj_left (l := es) (f := f) (g := id)

theorem textAll_map (h : ∀ e ∈ es, (f e).text = e.text) : textAll (es.map f) = textAll es := by
  induction es with
  | nil => rfl
  | cons e es ih =>
    rw [List.forall_mem_cons] at h
    cases es with
    | nil => exact h.1
    | cons next es => simp [textAll, h.1, ← ih h.2]

end Lists

/-! ## Signs in front of calls -/

/-- The call of an expression, behind its signs. -/
def applyCall : Expr → List Expr → Expr
  | .unary op e, args => .unary op (e.applyCall args)
  | f, args => .call f args

mutual

/-- The expression with the signs of each callee in front of its call. -/
def hoisted : Expr → Expr
  | .const c => .const c
  | .var name => .var name
  | .unary op e => .unary op e.hoisted
  | .binary op l r => .binary op l.hoisted r.hoisted
  | .function unit => .function unit
  | .closure unit => .closure unit
  | .call f args => f.hoisted.applyCall (hoistedAll args)
  | .probed span e => .probed span e.hoisted

/-- The same for a list of expressions. -/
def hoistedAll : List Expr → List Expr
  | [] => []
  | e :: es => e.hoisted :: hoistedAll es

end

theorem hoistedAll_eq_map (es : List Expr) : hoistedAll es = es.map hoisted := by
  induction es with
  | nil => rfl
  | cons e es ih => rw [hoistedAll, ih, List.map_cons]

theorem applyCall_of_not_signed {e : Expr} (h : e.isSigned = false) (args : List Expr) :
    e.applyCall args = .call e args := by
  cases e with
  | unary => cases h
  | _ => rfl

@[simp] theorem isSigned_applyCall (e : Expr) (args : List Expr) :
    (e.applyCall args).isSigned = e.isSigned := by
  cases e <;> rfl

@[simp] theorem isCompound_applyCall (e : Expr) (args : List Expr) :
    (e.applyCall args).isCompound = false := by
  cases e <;> rfl

@[simp] theorem isCompound_hoisted (e : Expr) : e.hoisted.isCompound = e.isCompound := by
  cases e with
  | call f args => exact isCompound_applyCall f.hoisted (hoistedAll args)
  | _ => rfl

theorem operand_of_not_compound {e : Expr} (h : e.isCompound = false) (text : String) :
    e.operand text = text := by
  simp [operand, h]

/-- The text of a call does not tell whether its callee's signs are in front of the call. -/
theorem text_applyCall (e : Expr) (args : List Expr) :
    (e.applyCall args).text = (call e args).text := by
  induction e using Expr.induct with
  | unary op e ih =>
    have hinner := operand_of_not_compound (isCompound_applyCall e args) (e.applyCall args).text
    rw [applyCall, text, hinner, ih]
    simp [text, operand, isCompound, String.append_assoc]
  | const | var | binary | function | closure | call | probed => rfl

/-- **Hoisting does not change the text.** -/
@[simp] theorem text_hoisted (e : Expr) : e.hoisted.text = e.text := by
  have hoperand {e : Expr} (h : e.hoisted.text = e.text) :
      e.hoisted.operand e.hoisted.text = e.operand e.text := by
    simp [operand, h]
  induction e using Expr.induct with
  | const | var | function | closure => rfl
  | unary op e ih => rw [hoisted, text, text, hoperand ih]
  | binary op l r ihl ihr => rw [hoisted, text, text, hoperand ihl, hoperand ihr]
  | call f args ihf ihargs =>
    rw [hoisted, text_applyCall, text, text, hoperand ihf, hoistedAll_eq_map, textAll_map ihargs]
  | probed span e ih => rw [hoisted, text, text, ih]

/-- **The expressions in which no callee has a sign are left alone.** -/
theorem hoisted_eq_self_iff {e : Expr} : e.hoisted = e ↔ e.PlainCallees := by
  induction e using Expr.induct with
  | const | var | function | closure => simp [hoisted, PlainCallees]
  | unary op e ih => simp [hoisted, PlainCallees, ih]
  | binary op l r ihl ihr => simp [hoisted, PlainCallees, ihl, ihr]
  | probed span e ih => simp [hoisted, PlainCallees, ih]
  | call f args ihf ihargs =>
    have hargs : hoistedAll args = args ↔ PlainCalleesAll args := by
      rw [hoistedAll_eq_map, map_eq_self_iff, plainCalleesAll_iff]
      exact forall₂_congr ihargs
    rw [hoisted, PlainCallees, ← ihf, ← hargs]
    constructor
    · intro h
      have hsigned : f.hoisted.isSigned = false := by
        rw [← isSigned_applyCall f.hoisted (hoistedAll args), h]
        rfl
      rw [applyCall_of_not_signed hsigned, call.injEq] at h
      exact ⟨h.1 ▸ hsigned, h⟩
    · rintro ⟨hsigned, hf, hargs⟩
      rw [hf, hargs, applyCall_of_not_signed hsigned]

/-! ## Signs on callees -/

/-- A sign and its operand, with the sign on the callee if the operand is a call. -/
def applySign (op : UnaryOp) : Expr → Expr
  | .call f args => .call (.unary op f) args
  | e => .unary op e

mutual

/-- The expression with each sign in front of a call on the callee. -/
def sunk : Expr → Expr
  | .const c => .const c
  | .var name => .var name
  | .unary op e => applySign op e.sunk
  | .binary op l r => .binary op l.sunk r.sunk
  | .function unit => .function unit
  | .closure unit => .closure unit
  | .call f args => .call f.sunk (sunkAll args)
  | .probed span e => .probed span e.sunk

/-- The same for a list of expressions. -/
def sunkAll : List Expr → List Expr
  | [] => []
  | e :: es => e.sunk :: sunkAll es

end

theorem sunkAll_eq_map (es : List Expr) : sunkAll es = es.map sunk := by
  induction es with
  | nil => rfl
  | cons e es ih => rw [sunkAll, ih, List.map_cons]

theorem applySign_of_not_call {e : Expr} (h : e.isCall = false) (op : UnaryOp) :
    applySign op e = .unary op e := by
  cases e with
  | call => cases h
  | _ => rfl

@[simp] theorem isCall_applySign (op : UnaryOp) (e : Expr) :
    (applySign op e).isCall = e.isCall := by
  cases e <;> rfl

@[simp] theorem isCompound_applySign (op : UnaryOp) (e : Expr) :
    (applySign op e).isCompound = false := by
  cases e <;> rfl

@[simp] theorem isCompound_sunk (e : Expr) : e.sunk.isCompound = e.isCompound := by
  cases e with
  | unary op e => exact isCompound_applySign op e.sunk
  | _ => rfl

theorem text_applySign (op : UnaryOp) (e : Expr) : (applySign op e).text = (unary op e).text := by
  cases e with
  | call f args => simp [applySign, text, operand, isCompound, String.append_assoc]
  | _ => rfl

/-- **Sinking does not change the text.** -/
@[simp] theorem text_sunk (e : Expr) : e.sunk.text = e.text := by
  have hoperand {e : Expr} (h : e.sunk.text = e.text) :
      e.sunk.operand e.sunk.text = e.operand e.text := by
    simp [operand, h]
  induction e using Expr.induct with
  | const | var | function | closure => rfl
  | unary op e ih => rw [sunk, text_applySign, text, text, hoperand ih]
  | binary op l r ihl ihr => rw [sunk, text, text, hoperand ihl, hoperand ihr]
  | call f args ihf ihargs =>
    rw [sunk, text, text, hoperand ihf, sunkAll_eq_map, textAll_map ihargs]
  | probed span e ih => rw [sunk, text, text, ih]

/-- **The expressions in which no sign has a call as its operand are left alone.** -/
theorem sunk_eq_self_iff {e : Expr} : e.sunk = e ↔ e.PlainOperands := by
  induction e using Expr.induct with
  | const | var | function | closure => simp [sunk, PlainOperands]
  | binary op l r ihl ihr => simp [sunk, PlainOperands, ihl, ihr]
  | call f args ihf ihargs =>
    have hargs : sunkAll args = args ↔ PlainOperandsAll args := by
      rw [sunkAll_eq_map, map_eq_self_iff, plainOperandsAll_iff]
      exact forall₂_congr ihargs
    simp [sunk, PlainOperands, ihf, hargs]
  | probed span e ih => simp [sunk, PlainOperands, ih]
  | unary op e ih =>
    rw [sunk, PlainOperands, ← ih]
    constructor
    · intro h
      have hcall : e.sunk.isCall = false := by
        rw [← isCall_applySign op e.sunk, h]
        rfl
      rw [applySign_of_not_call hcall, unary.injEq] at h
      exact ⟨h.2 ▸ hcall, h.2⟩
    · rintro ⟨hcall, he⟩
      rw [he, applySign_of_not_call hcall]

/-! ## Neither -/

/-- A callee's sign that is hoisted has a call as its operand. -/
theorem not_plainOperands_applyCall {e : Expr} (h : e.isSigned = true) (args : List Expr) :
    ¬(e.applyCall args).PlainOperands := by
  induction e using Expr.induct with
  | unary op e ih =>
    rintro ⟨hcall, hplain⟩
    cases he : e.isSigned with
    | true => exact ih he hplain
    | false =>
      rw [applyCall_of_not_signed he] at hcall
      cases hcall
  | const | var | binary | function | closure | call | probed => cases h

/-- Where hoisting leaves no sign in front of a call, there was no sign on a callee. -/
theorem hoisted_eq_self {e : Expr} (h : e.hoisted.PlainOperands) : e.hoisted = e := by
  induction e using Expr.induct with
  | const | var | function | closure => rfl
  | unary op e ih => rw [hoisted, ih h.2]
  | binary op l r ihl ihr => rw [hoisted, ihl h.1, ihr h.2]
  | probed span e ih => rw [hoisted, ih h]
  | call f args ihf ihargs =>
    have hsigned : f.hoisted.isSigned = false :=
      Bool.eq_false_iff.2 fun hs => not_plainOperands_applyCall hs (hoistedAll args) h
    rw [hoisted, applyCall_of_not_signed hsigned] at h ⊢
    obtain ⟨hf, hargs⟩ := h
    rw [plainOperandsAll_iff, hoistedAll_eq_map, List.forall_mem_map] at hargs
    rw [ihf hf, hoistedAll_eq_map,
      map_eq_self_iff.2 fun arg harg => ihargs arg harg (hargs arg harg)]

end Expr

end SpanCoverage
