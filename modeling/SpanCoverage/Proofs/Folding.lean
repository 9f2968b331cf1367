import SpanCoverage.Proofs.KnownTruth

/-!
# Which conditions fold

Folding and evaluation are two ways to find the truth of a condition.  Folding knows what constants
decide by negation, comparison, and the logical operators, whose right operand does not count where
the left one decides alone.  Where it knows the truth, evaluation gives the same and does nothing
else, even if an operand that is left out would raise an exception or fail.

The main results are:

* `Expr.knownTruth_eq_some_iff` — the conditions that constants decide are those of known truth.
* `folding_agrees` — evaluation gives a known truth, in every state of a run.
-/

namespace SpanCoverage

/-! ## Conditions that constants decide -/

/-- The conditions that constants decide, with their truth.  A left operand that decides a logical
operator alone does so whatever the right operand is. -/
inductive Expr.Decides : Expr → Bool → Prop
  | bool (b : Bool) : Decides (.const (.bool b)) b
  | equal (a b : Constant) : Decides (.binary .equal (.const a) (.const b)) (decide (a = b))
  | notEqual (a b : Constant) : Decides (.binary .notEqual (.const a) (.const b)) (!decide (a = b))
  | less (i j : Int64) :
    Decides (.binary .less (.const (.int i)) (.const (.int j))) (decide (i < j))
  | lessEqual (i j : Int64) :
    Decides (.binary .lessEqual (.const (.int i)) (.const (.int j))) (decide (i ≤ j))
  | greater (i j : Int64) :
    Decides (.binary .greater (.const (.int i)) (.const (.int j))) (decide (j < i))
  | greaterEqual (i j : Int64) :
    Decides (.binary .greaterEqual (.const (.int i)) (.const (.int j))) (decide (j ≤ i))
  | not {e : Expr} {truth : Bool} (h : e.Decides truth) : Decides (.unary .not e) (!truth)
  | andLeft {l : Expr} (h : l.Decides false) (r : Expr) : Decides (.binary .and l r) false
  | andRight {l r : Expr} {truth : Bool} (h : l.Decides true) (h' : r.Decides truth) :
    Decides (.binary .and l r) truth
  | orLeft {l : Expr} (h : l.Decides true) (r : Expr) : Decides (.binary .or l r) true
  | orRight {l r : Expr} {truth : Bool} (h : l.Decides false) (h' : r.Decides truth) :
    Decides (.binary .or l r) truth

namespace Expr

theorem Decides.knownTruth_eq {e : Expr} {truth : Bool} (h : e.Decides truth) :
    e.knownTruth = some truth := by
  induction h with
  | bool | equal | notEqual | less | lessEqual | greater | greaterEqual => rfl
  | not _ ih => rw [knownTruth, ih, Option.map_some]
  | andLeft _ _ ih | orLeft _ _ ih => simp only [knownTruth, ih]
  | andRight _ _ ih ih' | orRight _ _ ih ih' => simp only [knownTruth, ih, ih']

theorem decides_of_knownRelation {op : BinaryOp} {l r : Expr} {truth : Bool}
    (h : knownRelation op l r = some truth) : Decides (.binary op l r) truth := by
  unfold knownRelation at h
  split at h
  · rename_i a b
    cases op with
    | equal =>
      obtain rfl := Option.some.inj h
      exact .equal a b
    | notEqual =>
      obtain rfl := Option.some.inj h
      exact .notEqual a b
    | less | lessEqual | greater | greaterEqual =>
      cases a <;> cases b <;> cases h
      constructor
    | add | sub | mul | div | mod | and | or => cases h
  · cases h

theorem decides_of_knownTruth (e : Expr) :
    ∀ {truth : Bool}, e.knownTruth = some truth → e.Decides truth := by
  induction e using Expr.induct with
  | const c =>
    intro truth h
    cases c <;> cases h
    exact .bool _
  | unary op e ih =>
    intro truth h
    cases op with
    | neg => cases h
    | not =>
      obtain ⟨inner, hinner, rfl⟩ := Option.map_eq_some_iff.1 h
      exact .not (ih hinner)
  | binary op l r ihl ihr =>
    intro truth h
    cases op with
    | and =>
      rcases hl : l.knownTruth with _ | _ | _ <;> simp only [knownTruth, hl] at h
      · cases h
      · obtain rfl := Option.some.inj h
        exact .andLeft (ihl hl) r
      · exact .andRight (ihl hl) (ihr h)
    | or =>
      rcases hl : l.knownTruth with _ | _ | _ <;> simp only [knownTruth, hl] at h
      · cases h
      · exact .orRight (ihl hl) (ihr h)
      · obtain rfl := Option.some.inj h
        exact .orLeft (ihl hl) r
    | add | sub | mul | div | mod | equal | notEqual | less | lessEqual | greater | greaterEqual =>
      exact decides_of_knownRelation h
  | var | function | closure | call | probed => intro truth h; cases h

/-- **The conditions that constants decide are those of known truth.** -/
theorem knownTruth_eq_some_iff {e : Expr} {truth : Bool} :
    e.knownTruth = some truth ↔ e.Decides truth :=
  ⟨e.decides_of_knownTruth, Decides.knownTruth_eq⟩

end Expr

/-! ## Evaluation -/

namespace Host

/-- **Folding agrees with evaluation.**  The conditions that fold are those that constants decide,
and such a condition ends with its truth and leaves the world as it was: the scopes, the printed
lines, the depth and the record.  This holds for every recorder, so that nothing is noted, created
or marked, and whatever a call would do, so that nothing is called. -/
theorem folding_agrees (e : Expr) (truth : Bool) :
    (e.knownTruth = some truth ↔ e.Decides truth) ∧
      (e.knownTruth = some truth → ∀ (σ : Type) (r : Recorder σ) (resume : Resume σ)
        (frame : Frame) (w : World σ),
          eval r resume frame e w = (some (.ok (.bool truth)), w)) := by
  refine ⟨Expr.knownTruth_eq_some_iff, fun h σ r resume frame w => ?_⟩
  rw [eval_of_knownTruth r resume frame e h]
  rfl

/-- A disjunction decided on the left, whose right operand calls a variable that is not defined. -/
def prudent : Expr :=
  .binary .or (.unary .not (.binary .equal (.const (.int 1)) (.const (.str "1"))))
    (.call (.var "missing") [])

/-- On its own the right operand fails, and the host notes the failure. -/
theorem prudent_folds :
    eval .log (.spent Log) ⟨⟨0x06000001⟩, ⟨0, []⟩, 0⟩ (.call (.var "missing") []) ⟨{}, #[], 0, {}⟩ =
        (some (.error (.failed (.undefinedVariable "missing"))),
          ⟨{}, #[], 0, Log.note (.failed (.undefinedVariable "missing")) {}⟩) ∧
      eval .log (.spent Log) ⟨⟨0x06000001⟩, ⟨0, []⟩, 0⟩ prudent ⟨{}, #[], 0, {}⟩ =
        (some (.ok (.bool true)), ⟨{}, #[], 0, {}⟩) :=
  ⟨rfl, (folding_agrees prudent true).2 (by decide) Log .log (.spent Log) _ _⟩

end Host

end SpanCoverage
