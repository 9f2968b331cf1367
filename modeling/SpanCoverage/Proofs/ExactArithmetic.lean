import SpanCoverage.Host.Eval

/-!
# Exact arithmetic

An arithmetic operator of the host ends in one of three ways: with the exact result, with a division
by zero, or with an overflow.  The exact results are stated here over all integers: a quotient and a
remainder belong to a division toward zero, however they are computed.  Two operations on 64-bit
integers do not follow the rule, both on the least integer.  Its remainder by minus one is zero, but
overflows with the quotient; and its negation, which does not fit, is refused like a value that is
no integer.

The main results are:

* `Division.iff_tdiv_tmod` — a division toward zero determines its quotient and its remainder.
* `applyInts_exactOrFault` — the ways in which an arithmetic operator ends.
* `arithmetic_exactOrFault` — the same for expressions, with negation and the types of operands.
* `least_not_exact` — the two operations on the least integer.
-/

namespace SpanCoverage

/-- The operators that compute an integer from two. -/
def BinaryOp.arithmetic : List BinaryOp := [.add, .sub, .mul, .div, .mod]

namespace Host

/-! ## Exact results -/

/-- A division toward zero: the remainder is less than the divisor and has the dividend's sign. -/
structure Division (dividend divisor quotient remainder : Int) : Prop where
  whole : dividend = divisor * quotient + remainder
  smaller : remainder.natAbs < divisor.natAbs
  sign : remainder = 0 ∨ remainder.sign = dividend.sign

/-- **A division toward zero determines its quotient and its remainder**, and only zero does not
divide. -/
theorem Division.iff_tdiv_tmod {a b q m : Int} :
    Division a b q m ↔ b ≠ 0 ∧ q = a.tdiv b ∧ m = a.tmod b := by
  constructor
  · rintro ⟨whole, smaller, sign⟩
    have hb : b ≠ 0 := by rintro rfl; simp at smaller
    rcases Int.le_total 0 a with ha | ha
    · have hm : 0 ≤ m := by
        rcases sign with rfl | sign
        · exact Int.le_refl 0
        · exact Int.sign_nonneg_iff.1 (sign ▸ Int.sign_nonneg_iff.2 ha)
      have hsum : m + b * q = a := by rw [whole, Int.add_comm]
      obtain ⟨hq, hm⟩ := (Int.tdiv_tmod_unique ha hb).2 ⟨hsum, hm, by omega⟩
      exact ⟨hb, hq.symm, hm.symm⟩
    · have hm : m ≤ 0 := by
        rcases sign with rfl | sign
        · exact Int.le_refl 0
        · exact Int.sign_nonpos_iff.1 (sign ▸ Int.sign_nonpos_iff.2 ha)
      have hsum : m + b * q = a := by rw [whole, Int.add_comm]
      obtain ⟨hq, hm⟩ := (Int.tdiv_tmod_unique' ha hb).2 ⟨hsum, by omega, hm⟩
      exact ⟨hb, hq.symm, hm.symm⟩
  · rintro ⟨hb, rfl, rfl⟩
    refine ⟨(Int.mul_tdiv_add_tmod a b).symm, ?_, ?_⟩
    · rw [Int.natAbs_tmod]
      exact Nat.mod_lt _ (Int.natAbs_pos.2 hb)
    · by_cases h : b ∣ a
      · exact .inl (Int.tmod_eq_zero_of_dvd h)
      · exact .inr (by rw [Int.sign_tmod, if_neg h])

/-- The exact result of an arithmetic operator.  Nothing is a quotient or a remainder by zero. -/
def ExactResult : BinaryOp → Int → Int → Int → Prop
  | .add, a, b, i => i = a + b
  | .sub, a, b, i => i = a - b
  | .mul, a, b, i => i = a * b
  | .div, a, b, i => ∃ m, Division a b i m
  | .mod, a, b, i => ∃ q, Division a b q i
  | _, _, _, _ => False

theorem exactResult_div_iff {a b i : Int} :
    ExactResult .div a b i ↔ b ≠ 0 ∧ i = a.tdiv b := by
  simp [ExactResult, Division.iff_tdiv_tmod]

theorem exactResult_mod_iff {a b i : Int} :
    ExactResult .mod a b i ↔ b ≠ 0 ∧ i = a.tmod b := by
  simp [ExactResult, Division.iff_tdiv_tmod]

/-! ## Results that fit -/

theorem exact_toInt (v : Int64) : exact v.toInt = .ok (.int v) := by
  simp [exact, (ofInt?_eq_some_iff v.toInt v).2 rfl]

theorem exact_eq_overflow {i : Int} (h : ¬∃ v : Int64, v.toInt = i) :
    exact i = .error .overflow := by
  cases hi : ofInt? i with
  | none => simp [exact, hi]
  | some v => exact absurd ⟨v, (ofInt?_eq_some_iff i v).1 hi⟩ h

theorem toInt_ne_zero {b : Int64} (h : b ≠ 0) : b.toInt ≠ 0 :=
  fun hb => h (Int64.toInt_inj.1 hb)

/-- The negative of every integer but the least one fits. -/
theorem toInt_neg_of_ne {a : Int64} (h : a ≠ Int64.minValue) : (-a).toInt = -a.toInt := by
  have hne : a.toInt ≠ -2 ^ 63 := fun ha => h (Int64.toInt_inj.1 ha)
  have hlow := Int64.le_toInt a
  have hhigh := Int64.toInt_lt a
  rw [Int64.toInt_neg, Int.bmod_eq_of_le (by omega) (by omega)]

/-- A divisor other than one and minus one at least halves its dividend; so the least integer by
minus one is the only quotient that does not fit. -/
theorem inRange_tdiv_iff {a b : Int64} (hb : b ≠ 0) :
    inRange (a.toInt.tdiv b.toInt) = true ↔ ¬(a = Int64.minValue ∧ b = -1) := by
  have hlow := Int64.le_toInt a
  have hhigh := Int64.toInt_lt a
  rw [inRange_iff]
  constructor
  · rintro h ⟨rfl, rfl⟩
    exact absurd h (by decide)
  · intro h
    by_cases hone : b.toInt.natAbs = 1
    · rcases (by omega : b.toInt = 1 ∨ b.toInt = -1) with hb1 | hb1
      · rw [hb1, Int.tdiv_one]
        omega
      · have hne : a.toInt ≠ -2 ^ 63 := fun ha =>
          h ⟨Int64.toInt_inj.1 ha, Int64.toInt_inj.1 hb1⟩
        rw [hb1, Int.tdiv_neg, Int.tdiv_one]
        omega
    · have hpos := Int.natAbs_pos.2 (toInt_ne_zero hb)
      have hhalf : (a.toInt.tdiv b.toInt).natAbs ≤ a.toInt.natAbs / 2 := by
        rw [Int.natAbs_tdiv]
        exact Nat.div_le_div_left (by omega) (by decide)
      omega

/-! ## Operators -/

/-- The exception that carries a text. -/
def raised (text : String) : Except Abort Value := .error (.thrown (.str text))

/-- How an arithmetic operator on integers ends: with the exact result where that fits, the
remainder of the least integer by minus one apart; and otherwise with one of two exceptions. -/
structure ExactOrFault (op : BinaryOp) (a b : Int64) (outcome : Except Abort Value) : Prop where
  result (v : Int64) : ExactResult op a.toInt b.toInt v.toInt →
    ¬(op = .mod ∧ a = Int64.minValue ∧ b = -1) → outcome = .ok (.int v)
  byZero : op = .div ∨ op = .mod → b = 0 → outcome = raised "DivideByZeroException"
  overflow : (¬∃ v : Int64, ExactResult op a.toInt b.toInt v.toInt) →
    ¬((op = .div ∨ op = .mod) ∧ b = 0) → outcome = raised "OverflowException"
  leastByMinusOne : op = .mod → a = Int64.minValue → b = -1 → outcome = raised "OverflowException"

/-- The end of a run that computes a value or faults. -/
def endOf : Except Fault Value → Except Abort Value
  | .ok v => .ok v
  | .error fault => raised fault.message

theorem ofFault_apply {σ : Type} (x : Except Fault Value) (w : World σ) :
    Run.ofFault x w = (some (endOf x), w) := by
  cases x <;> rfl

theorem endOf_eq_raised {f : Except Fault Value} {text : String} (h : endOf f = raised text) :
    ∃ fault, f = .error fault ∧ fault.message = text := by
  cases f with
  | ok v => cases h
  | error fault =>
    simp only [endOf, raised, Except.error.injEq, Abort.thrown.injEq, Value.str.injEq] at h
    exact ⟨fault, rfl, h⟩

theorem endOf_exact {i : Int} {v : Int64} (h : v.toInt = i) : endOf (exact i) = .ok (.int v) := by
  rw [← h, exact_toInt]
  rfl

theorem endOf_exact_overflow {i : Int} (h : ¬∃ v : Int64, v.toInt = i) :
    endOf (exact i) = raised "OverflowException" := by
  rw [exact_eq_overflow h]
  rfl

theorem exactOrFault_of_exact {op : BinaryOp} {a b : Int64} {i : Int}
    (hresult : ∀ j, ExactResult op a.toInt b.toInt j ↔ j = i)
    (hzero : op = .div ∨ op = .mod → b ≠ 0)
    (hleast : ¬(op = .mod ∧ a = Int64.minValue ∧ b = -1)) :
    ExactOrFault op a b (endOf (exact i)) where
  result _ hv _ := endOf_exact ((hresult _).1 hv)
  byZero hop hb := absurd hb (hzero hop)
  overflow h _ := endOf_exact_overflow fun ⟨v, hv⟩ => h ⟨v, (hresult _).2 hv⟩
  leastByMinusOne hop ha hb := absurd ⟨hop, ha, hb⟩ hleast

theorem exactOrFault_by_zero {op : BinaryOp} (hop : op = .div ∨ op = .mod) (a : Int64) :
    ExactOrFault op a 0 (raised "DivideByZeroException") where
  result _ hv := by
    rcases hop with rfl | rfl
    · exact absurd rfl (exactResult_div_iff.1 hv).1
    · exact absurd rfl (exactResult_mod_iff.1 hv).1
  byZero _ _ := rfl
  overflow _ h := absurd ⟨hop, rfl⟩ h
  leastByMinusOne _ _ h := absurd h (by decide)

/-- The remainder zero fits, so an overflow is none of the ways in which other results end. -/
theorem exactOrFault_least :
    ExactOrFault .mod Int64.minValue (-1) (raised "OverflowException") where
  result _ _ h := absurd ⟨rfl, rfl, rfl⟩ h
  byZero _ h := absurd h (by decide)
  overflow _ _ := rfl
  leastByMinusOne _ _ _ := rfl

/-- **The ways in which an arithmetic operator ends.** -/
theorem applyInts_exactOrFault {op : BinaryOp} (h : op ∈ BinaryOp.arithmetic) (a b : Int64) :
    ExactOrFault op a b (endOf (applyInts op a b)) := by
  cases op with
  | add | sub | mul => exact exactOrFault_of_exact (fun _ => Iff.rfl) (by simp) (by simp)
  | div =>
    by_cases hb : b = 0
    · subst hb
      exact exactOrFault_by_zero (.inl rfl) a
    · rw [show applyInts .div a b = exact (a.toInt.tdiv b.toInt) from if_neg hb]
      exact exactOrFault_of_exact
        (fun _ => exactResult_div_iff.trans (and_iff_right (toInt_ne_zero hb))) (fun _ => hb)
        (by simp)
  | mod =>
    by_cases hb : b = 0
    · subst hb
      exact exactOrFault_by_zero (.inr rfl) a
    by_cases hleast : a = Int64.minValue ∧ b = -1
    · obtain ⟨rfl, rfl⟩ := hleast
      exact exactOrFault_least
    · have hend : applyInts .mod a b = exact (a.toInt.tmod b.toInt) := by
        simp only [applyInts, if_neg hb, if_pos ((inRange_tdiv_iff hb).2 hleast)]
      rw [hend]
      exact exactOrFault_of_exact
        (fun _ => exactResult_mod_iff.trans (and_iff_right (toInt_ne_zero hb))) (fun _ => hb)
        (fun h => hleast h.2)
  | equal | notEqual | less | lessEqual | greater | greaterEqual | and | or =>
    exact absurd h (by decide)

/-- The negative of every integer but the least one fits, so negation is a difference from zero. -/
theorem negate_int {a : Int64} (h : a ≠ Int64.minValue) : negate (.int a) = .ok (.int (-a)) := by
  simp [negate, (ofInt?_eq_some_iff _ _).2 (toInt_neg_of_ne h)]

theorem zero_sub_int {a : Int64} (h : a ≠ Int64.minValue) :
    applyBinary .sub (.int 0) (.int a) = .ok (.int (-a)) := by
  show exact ((0 : Int64).toInt - a.toInt) = .ok (.int (-a))
  rw [Int64.toInt_zero, Int.zero_sub, ← toInt_neg_of_ne h, exact_toInt]

theorem exact_fault {i : Int} {fault : Fault} (h : exact i = .error fault) : fault = .overflow := by
  unfold exact at h
  split at h <;> cases h
  rfl

/-- No operator faults over the types of two integers. -/
theorem applyBinary_ints {op : BinaryOp} {a b : Int64} {fault : Fault}
    (h : applyBinary op (.int a) (.int b) = .error fault) :
    fault = .divideByZero ∨ fault = .overflow := by
  cases op with
  | add | sub | mul => exact .inr (exact_fault h)
  | div =>
    by_cases hb : b = 0
    · subst hb
      cases h
      exact .inl rfl
    · exact .inr (exact_fault (by rwa [← show applyInts .div a b = _ from if_neg hb]))
  | mod =>
    simp only [applyBinary, applyInts] at h
    split at h
    · cases h
      exact .inl rfl
    split at h
    · exact .inr (exact_fault h)
    · cases h
      exact .inr rfl
  | equal | notEqual | less | lessEqual | greater | greaterEqual | and | or => cases h

theorem int?_of_applyBinary_fault {op : BinaryOp} {x y : Value} {fault : Fault}
    (h : applyBinary op x y = .error fault) (htype : fault ≠ .divideByZero ∧ fault ≠ .overflow) :
    x.int? = none ∨ y.int? = none := by
  cases x with
  | int a =>
    cases y with
    | int b => exact absurd (applyBinary_ints h) (not_or.2 htype)
    | null | bool | str | function | closure => exact .inr rfl
  | null | bool | str | function | closure => exact .inl rfl

theorem ne_of_typeError {fault : Fault} (h : "TypeError".toList <+: fault.message.toList) :
    fault ≠ .divideByZero ∧ fault ≠ .overflow := by
  constructor <;> rintro rfl <;> exact absurd h (by decide)

/-- Only the least integer is refused by negation like a value that is no integer. -/
theorem int?_of_negate_fault {x : Value} {fault : Fault} (h : negate x = .error fault) :
    x.int? = none ∨ x = .int Int64.minValue := by
  cases x with
  | int a =>
    by_cases ha : a = Int64.minValue
    · exact .inr (by rw [ha])
    · rw [negate_int ha] at h
      cases h
  | null | bool | str | function | closure => exact .inl rfl

/-! ## Expressions -/

section Expressions

variable {σ : Type} {r : Recorder σ} {resume : Resume σ} {frame : Frame} {e e' : Expr}
  {x y : Value} {w w₁ w₂ : World σ}

theorem eval_unary (op : UnaryOp) (hx : eval r resume frame e w = (some (.ok x), w₁)) :
    eval r resume frame (.unary op e) w = (some (endOf (applyUnary op x)), w₁) := by
  simp only [eval, Run.bind_apply, hx, ofFault_apply]

theorem eval_binary {op : BinaryOp} (hop : op.isLogical = false)
    (hx : eval r resume frame e w = (some (.ok x), w₁))
    (hy : eval r resume frame e' w₁ = (some (.ok y), w₂)) :
    eval r resume frame (.binary op e e') w = (some (endOf (applyBinary op x y)), w₂) := by
  have hand : op ≠ .and := by rintro rfl; cases hop
  have hor : op ≠ .or := by rintro rfl; cases hop
  simp [eval, Run.bind_apply, hx, hy, hand, hor, hop, ofFault_apply]

/-- A logical operator ends with a Boolean, whether or not it evaluates its right operand. -/
theorem eval_logical {op : BinaryOp} (hop : op.isLogical = true)
    (hx : eval r resume frame e w = (some (.ok x), w₁))
    (hy : eval r resume frame e' w₁ = (some (.ok y), w₂)) :
    ∃ b, (eval r resume frame (.binary op e e') w).1 = some (.ok (.bool b)) := by
  cases op with
  | and =>
    cases hb : x.truth with
    | false => exact ⟨false, by simp [eval, Run.bind_apply, hx, hb]⟩
    | true => exact ⟨y.truth, by
        simp [eval, Run.bind_apply, hx, hb, hy, BinaryOp.isLogical, -bind_pure_comp]⟩
  | or =>
    cases hb : x.truth with
    | false => exact ⟨y.truth, by
        simp [eval, Run.bind_apply, hx, hb, hy, BinaryOp.isLogical, -bind_pure_comp]⟩
    | true => exact ⟨true, by simp [eval, Run.bind_apply, hx, hb]⟩
  | add | sub | mul | div | mod | equal | notEqual | less | lessEqual | greater | greaterEqual =>
    cases hop

end Expressions

/-- **Arithmetic is exact or raises the right exception.** -/
theorem arithmetic_exactOrFault {σ : Type} (r : Recorder σ) (resume : Resume σ) (frame : Frame) :
    (∀ op ∈ BinaryOp.arithmetic, ∀ (e e' : Expr) (a b : Int64) (w w₁ w₂ : World σ),
      eval r resume frame e w = (some (.ok (.int a)), w₁) →
      eval r resume frame e' w₁ = (some (.ok (.int b)), w₂) →
      ∃ outcome, eval r resume frame (.binary op e e') w = (some outcome, w₂) ∧
        ExactOrFault op a b outcome) ∧
    (∀ (e : Expr) (a : Int64) (w w₁ : World σ),
      eval r resume frame e w = (some (.ok (.int a)), w₁) → a ≠ Int64.minValue →
      ∃ v : Int64, v.toInt = -a.toInt ∧
        eval r resume frame (.unary .neg e) w = (some (.ok (.int v)), w₁) ∧
        eval r resume frame (.binary .sub (.const (.int 0)) e) w =
          eval r resume frame (.unary .neg e) w) ∧
    (∀ (op : BinaryOp) (e e' : Expr) (x y : Value) (w w₁ w₂ : World σ) (text : String),
      eval r resume frame e w = (some (.ok x), w₁) →
      eval r resume frame e' w₁ = (some (.ok y), w₂) →
      (eval r resume frame (.binary op e e') w).1 = some (raised text) →
      "TypeError".toList <+: text.toList → x.int? = none ∨ y.int? = none) ∧
    (∀ (op : UnaryOp) (e : Expr) (x : Value) (w w₁ : World σ) (text : String),
      eval r resume frame e w = (some (.ok x), w₁) →
      (eval r resume frame (.unary op e) w).1 = some (raised text) →
      "TypeError".toList <+: text.toList → x.int? = none ∨ x = .int Int64.minValue) := by
  refine ⟨?_, ?_, ?_, ?_⟩
  · intro op hop e e' a b w w₁ w₂ hx hy
    have hlogical : op.isLogical = false := by revert op; decide
    have happly : applyBinary op (.int a) (.int b) = applyInts op a b := by
      cases op with
      | add | sub | mul | div | mod => rfl
      | equal | notEqual | less | lessEqual | greater | greaterEqual | and | or =>
        exact absurd hop (by decide)
    exact ⟨_, eval_binary hlogical hx hy, happly ▸ applyInts_exactOrFault hop a b⟩
  · intro e a w w₁ hx ha
    have hneg := eval_unary .neg hx
    rw [applyUnary, negate_int ha] at hneg
    have hzero : eval r resume frame (.const (.int 0)) w = (some (.ok (.int 0)), w) := rfl
    have hsub := eval_binary (show BinaryOp.sub.isLogical = false from rfl) hzero hx
    rw [zero_sub_int ha] at hsub
    exact ⟨-a, toInt_neg_of_ne ha, hneg, hsub.trans hneg.symm⟩
  · intro op e e' x y w w₁ w₂ text hx hy hend htext
    cases hlogical : op.isLogical with
    | true =>
      obtain ⟨b, hb⟩ := eval_logical hlogical hx hy
      rw [hb] at hend
      cases hend
    | false =>
      rw [eval_binary hlogical hx hy] at hend
      obtain ⟨fault, hfault, rfl⟩ := endOf_eq_raised (Option.some.inj hend)
      exact int?_of_applyBinary_fault hfault (ne_of_typeError htext)
  · intro op e x w w₁ text hx hend htext
    rw [eval_unary op hx] at hend
    obtain ⟨fault, hfault, rfl⟩ := endOf_eq_raised (Option.some.inj hend)
    cases op with
    | neg => exact int?_of_negate_fault hfault
    | not => cases hfault

/-- The remainder of minus seven by two is minus one, the negative of seven is the difference of
zero and seven, and a text is refused over its type as an operand of either kind of operator. -/
theorem remainder_exactOrFault :
    let frame : Frame := ⟨⟨0x06000001⟩, ⟨0, []⟩, 0⟩
    let world : World Log := ⟨{}, #[], 0, {}⟩
    let run (e : Expr) := eval .log (.spent Log) frame e world
    run (.binary .mod (.const (.int (-7))) (.const (.int 2))) = (some (.ok (.int (-1))), world) ∧
      run (.binary .sub (.const (.int 0)) (.const (.int 7))) = run (.unary .neg (.const (.int 7))) ∧
      (run (.binary .sub (.const (.str "a")) (.const (.int 1))) =
        (some (raised "TypeError: string - int"), world) ∧ (Value.str "a").int? = none) ∧
      run (.unary .neg (.const (.str "a"))) =
        (some (raised "TypeError: cannot negate string"), world) ∧
      ((Value.str "a").int? = none ∨ Value.str "a" = .int Int64.minValue) := by
  intro frame world run
  obtain ⟨arithmetic, negation, operands, operand⟩ :=
    arithmetic_exactOrFault .log (.spent Log) frame
  have hremainder : ExactResult .mod (-7 : Int64).toInt (2 : Int64).toInt (-1 : Int64).toInt :=
    ⟨-3, by decide, by decide, by decide⟩
  obtain ⟨outcome, hrun, hends⟩ := arithmetic .mod (by decide) (.const (.int (-7)))
    (.const (.int 2)) (-7) 2 world world world rfl rfl
  obtain ⟨v, _, _, hsub⟩ := negation (.const (.int 7)) 7 world world rfl (by decide)
  refine ⟨?_, hsub, ⟨rfl, ?_⟩, rfl, ?_⟩
  · rw [show run _ = _ from hrun, hends.result (-1) hremainder (by decide)]
  · exact (operands .sub (.const (.str "a")) (.const (.int 1)) (.str "a") (.int 1) world world world
      "TypeError: string - int" rfl rfl rfl (by decide)).resolve_right (by decide)
  · exact operand .neg (.const (.str "a")) (.str "a") world world
      "TypeError: cannot negate string" rfl rfl (by decide)

/-- The least integer has a remainder by minus one that fits, and the operator overflows; its
negative does not fit, and negation raises another exception than the difference from zero. -/
theorem least_not_exact :
    let frame : Frame := ⟨⟨0x06000001⟩, ⟨0, []⟩, 0⟩
    let world : World Log := ⟨{}, #[], 0, {}⟩
    let least : Expr := .const (.int Int64.minValue)
    let run (e : Expr) := eval .log (.spent Log) frame e world
    (ExactResult .mod Int64.minValue.toInt (-1 : Int64).toInt (0 : Int64).toInt ∧
        run (.binary .mod least (.const (.int (-1)))) =
          (some (raised "OverflowException"), world)) ∧
      (¬∃ v : Int64, v.toInt = -Int64.minValue.toInt) ∧
      run (.unary .neg least) = (some (raised "TypeError: cannot negate int"), world) ∧
      run (.binary .sub (.const (.int 0)) least) = (some (raised "OverflowException"), world) := by
  refine ⟨⟨⟨0x8000000000000000, by decide, by decide, by decide⟩, rfl⟩, ?_, rfl, rfl⟩
  rintro ⟨v, hv⟩
  have hhigh := Int64.toInt_lt v
  rw [hv] at hhigh
  exact absurd hhigh (by decide)

end Host

end SpanCoverage
