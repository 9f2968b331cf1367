import SpanCoverage.Host.Eval

/-!
# Folded conditions

The analysis closes the branch that a constant condition cannot take.  It may do so because such a
condition does nothing but give the Boolean that `Expr.knownTruth` says: it reads no variable, calls
nothing, and raises no exception.

The main result is `eval_of_knownTruth`.
-/

namespace SpanCoverage.Host

/-- Constants are equal to a program exactly if they are the same constant. -/
theorem same_ofConstant (a b : Constant) :
    (Value.ofConstant a).same (Value.ofConstant b) = (a == b) := by
  rw [Bool.eq_iff_iff]
  cases a <;> cases b <;> simp [Value.ofConstant, Value.same]

/-- A comparison of constants that needs no run has the outcome that a run gives it. -/
theorem applyBinary_of_relates? {op : BinaryOp} {a b : Constant} {truth : Bool}
    (hop : op.isComparison = true) (h : op.relates? a b = some truth) :
    applyBinary op (.ofConstant a) (.ofConstant b) = .ok (.bool truth) := by
  cases op with
  | equal =>
    cases h
    simp only [applyBinary, same_ofConstant]
  | notEqual =>
    cases h
    simp only [applyBinary, same_ofConstant]
    rfl
  | less | lessEqual | greater | greaterEqual =>
    cases a <;> cases b <;> cases h
    rfl
  | add | sub | mul | div | mod | and | or => cases hop

theorem eval_of_knownRelation {σ : Type} (r : Recorder σ) (s : Resume σ) (frame : Frame)
    {op : BinaryOp} {left right : Expr} {truth : Bool}
    (h : Expr.knownRelation op left right = some truth) :
    eval r s frame (.binary op left right) = pure (.bool truth) := by
  unfold Expr.knownRelation at h
  split at h
  · rename_i a b
    by_cases hop : op.isComparison = true
    · rw [if_pos hop] at h
      have happly := applyBinary_of_relates? hop h
      -- A comparison evaluates both operands, whatever they are.
      have hboth : eval r s frame (.binary op (.const a) (.const b)) =
          Run.ofFault (applyBinary op (.ofConstant a) (.ofConstant b)) := by
        cases op <;> first | rfl | cases hop
      rw [hboth, happly]
      rfl
    · rw [if_neg hop] at h
      cases h
  · cases h

/-- **A condition of known truth does nothing but give that truth.** -/
theorem eval_of_knownTruth {σ : Type} (r : Recorder σ) (s : Resume σ) (frame : Frame) (e : Expr) :
    ∀ {truth : Bool}, e.knownTruth = some truth → eval r s frame e = pure (.bool truth) := by
  induction e using Expr.induct with
  | const c =>
    intro truth h
    cases c <;> cases h
    rfl
  | unary op e ih =>
    intro truth h
    cases op with
    | neg => cases h
    | not =>
      obtain ⟨inner, hinner, rfl⟩ := Option.map_eq_some_iff.1 h
      simp only [eval, ih hinner]
      rfl
  | binary op l r ihl ihr =>
    intro truth h
    cases op with
    | and =>
      cases hl : l.knownTruth with
      | none => simp [Expr.knownTruth, hl] at h
      | some left =>
        cases left with
        | false =>
          simp only [Expr.knownTruth, hl, Option.some.injEq] at h
          subst h
          simp only [eval, ihl hl]
          rfl
        | true =>
          simp only [Expr.knownTruth, hl] at h
          simp only [eval, ihl hl, ihr h]
          rfl
    | or =>
      cases hl : l.knownTruth with
      | none => simp [Expr.knownTruth, hl] at h
      | some left =>
        cases left with
        | true =>
          simp only [Expr.knownTruth, hl, Option.some.injEq] at h
          subst h
          simp only [eval, ihl hl]
          rfl
        | false =>
          simp only [Expr.knownTruth, hl] at h
          simp only [eval, ihl hl, ihr h]
          rfl
    | add | sub | mul | div | mod | equal | notEqual | less | lessEqual | greater | greaterEqual =>
      exact eval_of_knownRelation _ s frame h
  | var | function | closure | call | probed => intro truth h; cases h

end SpanCoverage.Host
