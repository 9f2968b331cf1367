import SpanCoverage.Analysis.Validity

/-!
# What valid units are like

The list of a unit's defects is empty if nothing is wrong with the unit.  This file says in three
predicates what that means for the unit's tree, so that later proofs need not look at the list.

* `Plain` — the tree holds no injected form, and its labels stand directly in sequences.
* `Confined` — every jump of the tree has its target around it: a `goto` its label, a `break` a
  loop or a switch, a `continue` a loop.
* `Analysis.Fresh` — labels differ from each other and from those declared before.

The main result is `CodeUnit.defects_eq_nil_iff`: a unit has no defects exactly if its root is plain
and confined and no label of it comes twice.
-/

namespace SpanCoverage

open Analysis

/-- Only a label has a label's name. -/
theorem Analysis.labelName?_eq_some_iff {n : Node} {l : String} :
    labelName? n = some l ↔ ∃ r, n = .label l r := by
  cases n <;> simp [labelName?]

/-! ## Plain trees -/

/-- A node without injected forms whose labels stand directly in sequences. -/
inductive Plain : Node → Prop
  | stmt {s : Stmt} {r : SourceRange} (h : s.hasProbe = false) : Plain (.stmt s r)
  | seq {ns : List Node} (h : ∀ n ∈ ns, labelName? n = none → Plain n) : Plain (.seq ns)
  | branch {c : Expr} {t : Node} {e : Option Node} {r : SourceRange} (hc : c.hasProbe = false)
    (ht : Plain t) (he : ∀ n ∈ e, Plain n) : Plain (.branch c t e r)
  | loop {k : TestTime} {i : Option Node} {c : Expr} {u : Option Node} {b : Node} {r : SourceRange}
    (hc : c.hasProbe = false) (hi : ∀ n ∈ i, Plain n) (hu : ∀ n ∈ u, Plain n) (hb : Plain b) :
    Plain (.loop k i c u b r)
  | switch {v : Expr} {arms : List Arm} {r : SourceRange} (hv : v.hasProbe = false)
    (ha : ∀ a ∈ arms, Plain a.body) : Plain (.switch v arms r)
  | attempt {b : Node} {handlers : List Handler} {f : Option Node} {r : SourceRange} (hb : Plain b)
    (hh : ∀ h ∈ handlers, Plain h.body) (hf : ∀ n ∈ f, Plain n) : Plain (.attempt b handlers f r)
  | guarded {k : GuardKind} {e : Expr} {b : Node} {r : SourceRange} (he : e.hasProbe = false)
    (hb : Plain b) : Plain (.guarded k e b r)
  | nested {h : UnitHeader} {b : Node} : Plain (.nested h b)

/-- A label cannot stand where a plain tree does. -/
theorem Plain.isLabel_eq_false {n : Node} (h : Plain n) (label : String) :
    n.isLabel label = false := by
  cases h <;> rfl

/-! ## Confined trees -/

/-- Whether the surroundings of a statement hold the target of its jump, if it is one. -/
def Analysis.Context.Admits (ctx : Context) : Stmt → Prop
  | .goto label => label ∈ ctx.labels
  | .leave => ctx.canLeave = true
  | .next => ctx.canRepeat = true
  | _ => True

/-- A node whose jumps all have their targets in the node or in its surroundings. -/
inductive Confined : Context → Node → Prop
  | stmt {ctx : Context} {s : Stmt} {r : SourceRange} (h : ctx.Admits s) : Confined ctx (.stmt s r)
  | seq {ctx : Context} {ns : List Node} (h : ∀ n ∈ ns, Confined (ctx.inSeq ns) n) :
    Confined ctx (.seq ns)
  | branch {ctx : Context} {c : Expr} {t : Node} {e : Option Node} {r : SourceRange}
    (ht : Confined ctx t) (he : ∀ n ∈ e, Confined ctx n) : Confined ctx (.branch c t e r)
  | loop {ctx : Context} {k : TestTime} {i : Option Node} {c : Expr} {u : Option Node} {b : Node}
    {r : SourceRange} (hi : ∀ n ∈ i, Confined ctx n) (hu : ∀ n ∈ u, Confined ctx.inLoop n)
    (hb : Confined ctx.inLoop b) : Confined ctx (.loop k i c u b r)
  | switch {ctx : Context} {v : Expr} {arms : List Arm} {r : SourceRange}
    (ha : ∀ a ∈ arms, Confined ctx.inSwitch a.body) : Confined ctx (.switch v arms r)
  | attempt {ctx : Context} {b : Node} {handlers : List Handler} {f : Option Node}
    {r : SourceRange} (hb : Confined ctx b) (hh : ∀ h ∈ handlers, Confined ctx h.body)
    (hf : ∀ n ∈ f, Confined ctx n) : Confined ctx (.attempt b handlers f r)
  | guarded {ctx : Context} {k : GuardKind} {e : Expr} {b : Node} {r : SourceRange}
    (hb : Confined ctx b) : Confined ctx (.guarded k e b r)
  | label {ctx : Context} {l : String} {r : SourceRange} : Confined ctx (.label l r)
  | nested {ctx : Context} {h : UnitHeader} {b : Node} : Confined ctx (.nested h b)
  | probe {ctx : Context} {i : Nat} : Confined ctx (.probe i)
  | acquire {ctx : Context} : Confined ctx .acquire

/-- A tree with its surroundings, and a node of it with the surroundings that the node has there. -/
inductive Occurs : Context → Node → Context → Node → Prop
  | self {ctx : Context} {n : Node} : Occurs ctx n ctx n
  | seq {ctx ctx' : Context} {ns : List Node} {m n : Node} (hm : m ∈ ns)
    (h : Occurs (ctx.inSeq ns) m ctx' n) : Occurs ctx (.seq ns) ctx' n
  | thenPart {ctx ctx' : Context} {c : Expr} {t : Node} {e : Option Node} {r : SourceRange}
    {n : Node} (h : Occurs ctx t ctx' n) : Occurs ctx (.branch c t e r) ctx' n
  | elsePart {ctx ctx' : Context} {c : Expr} {t e : Node} {r : SourceRange} {n : Node}
    (h : Occurs ctx e ctx' n) : Occurs ctx (.branch c t (some e) r) ctx' n
  | init {ctx ctx' : Context} {k : TestTime} {i : Node} {c : Expr} {u : Option Node} {b : Node}
    {r : SourceRange} {n : Node} (h : Occurs ctx i ctx' n) :
    Occurs ctx (.loop k (some i) c u b r) ctx' n
  | update {ctx ctx' : Context} {k : TestTime} {i : Option Node} {c : Expr} {u b : Node}
    {r : SourceRange} {n : Node} (h : Occurs ctx.inLoop u ctx' n) :
    Occurs ctx (.loop k i c (some u) b r) ctx' n
  | body {ctx ctx' : Context} {k : TestTime} {i : Option Node} {c : Expr} {u : Option Node}
    {b : Node} {r : SourceRange} {n : Node} (h : Occurs ctx.inLoop b ctx' n) :
    Occurs ctx (.loop k i c u b r) ctx' n
  | arm {ctx ctx' : Context} {v : Expr} {arms : List Arm} {r : SourceRange} {a : Arm} {n : Node}
    (ha : a ∈ arms) (h : Occurs ctx.inSwitch a.body ctx' n) : Occurs ctx (.switch v arms r) ctx' n
  | tried {ctx ctx' : Context} {b : Node} {handlers : List Handler} {f : Option Node}
    {r : SourceRange} {n : Node} (h : Occurs ctx b ctx' n) :
    Occurs ctx (.attempt b handlers f r) ctx' n
  | handler {ctx ctx' : Context} {b : Node} {handlers : List Handler} {f : Option Node}
    {r : SourceRange} {a : Handler} {n : Node} (ha : a ∈ handlers) (h : Occurs ctx a.body ctx' n) :
    Occurs ctx (.attempt b handlers f r) ctx' n
  | cleanup {ctx ctx' : Context} {b : Node} {handlers : List Handler} {f : Node} {r : SourceRange}
    {n : Node} (h : Occurs ctx f ctx' n) : Occurs ctx (.attempt b handlers (some f) r) ctx' n
  | guarded {ctx ctx' : Context} {k : GuardKind} {e : Expr} {b : Node} {r : SourceRange} {n : Node}
    (h : Occurs ctx b ctx' n) : Occurs ctx (.guarded k e b r) ctx' n

/-- Every node of a confined tree is confined to its own surroundings. -/
theorem Confined.of_occurs {ctx ctx' : Context} {root n : Node} (h : Occurs ctx root ctx' n)
    (hroot : Confined ctx root) : Confined ctx' n := by
  induction h with
  | self => exact hroot
  | seq hm h ih => cases hroot with | seq hns => exact ih (hns _ hm)
  | thenPart h ih => cases hroot with | branch ht he => exact ih ht
  | elsePart h ih => cases hroot with | branch ht he => exact ih (he _ rfl)
  | init h ih => cases hroot with | loop hi hu hb => exact ih (hi _ rfl)
  | update h ih => cases hroot with | loop hi hu hb => exact ih (hu _ rfl)
  | body h ih => cases hroot with | loop hi hu hb => exact ih hb
  | arm hm h ih => cases hroot with | switch ha => exact ih (ha _ hm)
  | tried h ih => cases hroot with | attempt hb hh hf => exact ih hb
  | handler hm h ih => cases hroot with | attempt hb hh hf => exact ih (hh _ hm)
  | cleanup h ih => cases hroot with | attempt hb hh hf => exact ih (hf _ rfl)
  | guarded h ih => cases hroot with | guarded hb => exact ih hb

/-! ## Trees without defects -/

namespace Analysis

/-- Labels that differ from each other and from all that are declared already. -/
def Fresh (declared ls : List String) : Prop := ls.Nodup ∧ ∀ l ∈ ls, l ∉ declared

/-- A tree has no defects exactly if it is plain and confined and its labels are new. -/
def DefectsFound (n : Node) : Prop :=
  ∀ {ctx : Context} {declared : List String},
    defects ctx declared n = [] ↔ (Plain n ∧ Confined ctx n) ∧ Fresh declared (labels n)

section Defects

variable {ctx : Context} {declared : List String}

theorem fresh_nil : Fresh declared [] := ⟨.nil, nofun⟩

theorem fresh_append {xs ys : List String} :
    Fresh declared (xs ++ ys) ↔ Fresh declared xs ∧ Fresh (declared ++ xs) ys := by
  simp only [Fresh, List.nodup_append, List.mem_append, not_or]
  constructor
  · rintro ⟨⟨hx, hy, hxy⟩, hnew⟩
    exact ⟨⟨hx, fun l hl => hnew l (.inl hl)⟩, hy,
      fun l hl => ⟨hnew l (.inr hl), fun hlx => hxy l hlx l hl rfl⟩⟩
  · rintro ⟨⟨hx, hxnew⟩, hy, hynew⟩
    refine ⟨⟨hx, hy, ?_⟩, ?_⟩
    · rintro a ha b hb rfl
      exact (hynew a hb).2 ha
    · rintro l (hl | hl)
      · exact hxnew l hl
      · exact (hynew l hl).1

theorem repeatedLabels_eq_nil_iff {ls : List String} :
    repeatedLabels ctx declared ls = [] ↔ Fresh declared ls := by
  induction ls generalizing declared with
  | nil => simp [repeatedLabels, Fresh]
  | cons l ls ih =>
    have hcons : l :: ls = [l] ++ ls := rfl
    rw [repeatedLabels, List.append_eq_nil_iff, ih, hcons, fresh_append]
    refine and_congr_left fun _ => ?_
    by_cases h : l ∈ declared <;> simp [Fresh, h]

theorem exprDefects_eq_nil_iff {e : Expr} : exprDefects ctx e = [] ↔ e.hasProbe = false := by
  by_cases h : e.hasProbe = true <;> simp [exprDefects, h]

theorem stmtDefects_eq_nil_iff {s : Stmt} :
    stmtDefects ctx s = [] ↔ s.hasProbe = false ∧ ctx.Admits s := by
  cases s with
  | goto label =>
    by_cases h : label ∈ ctx.labels <;> simp [stmtDefects, Context.Admits, Stmt.hasProbe, h]
  | leave =>
    by_cases h : ctx.canLeave = true <;> simp [stmtDefects, Context.Admits, Stmt.hasProbe, h]
  | next =>
    by_cases h : ctx.canRepeat = true <;> simp [stmtDefects, Context.Admits, Stmt.hasProbe, h]
  | assign | eval | print | skip | ret | raise => simp [stmtDefects, Context.Admits]

theorem defects?_eq_nil_iff {e : Option Node} (h : ∀ n ∈ e, DefectsFound n) :
    defects? ctx declared e = [] ↔
      (∀ n ∈ e, Plain n ∧ Confined ctx n) ∧ Fresh declared (labels? e) := by
  cases e with
  | none => simp [defects?, labels?, fresh_nil]
  | some n => simpa [defects?, labels?] using h n rfl

theorem defectsAll_eq_nil_iff {ns : List Node} (h : ∀ n ∈ ns, DefectsFound n) :
    defectsAll ctx declared ns = [] ↔
      (∀ n ∈ ns, (labelName? n = none → Plain n) ∧ Confined ctx n) ∧
        Fresh declared (labelsAll ns) := by
  induction ns generalizing declared with
  | nil => simp [defectsAll, labelsAll, fresh_nil]
  | cons n ns ih =>
    simp only [List.mem_cons, forall_eq_or_imp] at h ⊢
    -- A label is in place here, and it holds no labels of its own.
    have first : (if (labelName? n).isSome then [] else defects ctx declared n) = [] ↔
        ((labelName? n = none → Plain n) ∧ Confined ctx n) ∧ Fresh declared (labels n) := by
      cases hl : labelName? n with
      | none => simpa using h.1
      | some l =>
        obtain ⟨r, rfl⟩ := labelName?_eq_some_iff.1 hl
        simp [labels, fresh_nil, Confined.label]
    rw [defectsAll, List.append_eq_nil_iff, first, ih h.2, labelsAll, fresh_append]
    exact and_and_and_comm

theorem defectsArms_eq_nil_iff {arms : List Arm} (h : ∀ a ∈ arms, DefectsFound a.body) :
    defectsArms ctx declared arms = [] ↔
      (∀ a ∈ arms, Plain a.body ∧ Confined ctx a.body) ∧ Fresh declared (labelsArms arms) := by
  induction arms generalizing declared with
  | nil => simp [defectsArms, labelsArms, fresh_nil]
  | cons a arms ih =>
    obtain ⟨case, body, range⟩ := a
    simp only [List.mem_cons, forall_eq_or_imp] at h ⊢
    rw [defectsArms, List.append_eq_nil_iff, h.1, ih h.2, labelsArms, fresh_append]
    exact and_and_and_comm

theorem defectsHandlers_eq_nil_iff {handlers : List Handler}
    (h : ∀ a ∈ handlers, DefectsFound a.body) :
    defectsHandlers ctx declared handlers = [] ↔
      (∀ a ∈ handlers, Plain a.body ∧ Confined ctx a.body) ∧
        Fresh declared (labelsHandlers handlers) := by
  induction handlers generalizing declared with
  | nil => simp [defectsHandlers, labelsHandlers, fresh_nil]
  | cons a handlers ih =>
    obtain ⟨binding, body, range⟩ := a
    simp only [List.mem_cons, forall_eq_or_imp] at h ⊢
    rw [defectsHandlers, List.append_eq_nil_iff, h.1, ih h.2, labelsHandlers, fresh_append]
    exact and_and_and_comm

/-- **A tree has no defects exactly if it is plain and confined and its labels are new.** -/
theorem defects_eq_nil_iff (n : Node) : DefectsFound n := by
  induction n using Node.induct with
  | stmt s r =>
    intro ctx declared
    rw [defects, stmtDefects_eq_nil_iff, labels]
    constructor
    · exact fun ⟨hp, ha⟩ => ⟨⟨.stmt hp, .stmt ha⟩, fresh_nil⟩
    · intro ⟨⟨.stmt hp, .stmt ha⟩, _⟩
      exact ⟨hp, ha⟩
  | seq ns ih =>
    intro ctx declared
    rw [defects, List.append_eq_nil_iff, repeatedLabels_eq_nil_iff, defectsAll_eq_nil_iff ih,
      labels, fresh_append]
    constructor
    · rintro ⟨hnames, hns, hlabels⟩
      exact ⟨⟨.seq fun n hn => (hns n hn).1, .seq fun n hn => (hns n hn).2⟩, hnames, hlabels⟩
    · intro ⟨⟨.seq hplain, .seq hconfined⟩, hnames, hlabels⟩
      exact ⟨hnames, fun n hn => ⟨hplain n hn, hconfined n hn⟩, hlabels⟩
  | branch c t e r iht ihe =>
    intro ctx declared
    rw [defects, List.append_eq_nil_iff, List.append_eq_nil_iff, exprDefects_eq_nil_iff, iht,
      defects?_eq_nil_iff ihe, labels, fresh_append]
    constructor
    · rintro ⟨⟨hc, ht, htl⟩, he, hel⟩
      exact ⟨⟨.branch hc ht.1 fun n hn => (he n hn).1, .branch ht.2 fun n hn => (he n hn).2⟩,
        htl, hel⟩
    · intro ⟨⟨.branch hc ht he, .branch ht' he'⟩, htl, hel⟩
      exact ⟨⟨hc, ⟨ht, ht'⟩, htl⟩, fun n hn => ⟨he n hn, he' n hn⟩, hel⟩
  | loop k i c u b r ihi ihu ihb =>
    intro ctx declared
    rw [defects, List.append_eq_nil_iff, List.append_eq_nil_iff, List.append_eq_nil_iff,
      exprDefects_eq_nil_iff, defects?_eq_nil_iff ihi, ihb, defects?_eq_nil_iff ihu, labels,
      fresh_append, fresh_append, ← List.append_assoc]
    constructor
    · rintro ⟨⟨⟨hc, hi, hil⟩, hb, hbl⟩, hu, hul⟩
      exact ⟨⟨.loop hc (fun n hn => (hi n hn).1) (fun n hn => (hu n hn).1) hb.1,
        .loop (fun n hn => (hi n hn).2) (fun n hn => (hu n hn).2) hb.2⟩, ⟨hil, hbl⟩, hul⟩
    · intro ⟨⟨.loop hc hi hu hb, .loop hi' hu' hb'⟩, ⟨hil, hbl⟩, hul⟩
      exact ⟨⟨⟨hc, fun n hn => ⟨hi n hn, hi' n hn⟩, hil⟩, ⟨hb, hb'⟩, hbl⟩,
        fun n hn => ⟨hu n hn, hu' n hn⟩, hul⟩
  | switch v arms r ih =>
    intro ctx declared
    rw [defects, List.append_eq_nil_iff, exprDefects_eq_nil_iff, defectsArms_eq_nil_iff ih, labels]
    constructor
    · rintro ⟨hv, ha, hal⟩
      exact ⟨⟨.switch hv fun a h => (ha a h).1, .switch fun a h => (ha a h).2⟩, hal⟩
    · intro ⟨⟨.switch hv ha, .switch ha'⟩, hal⟩
      exact ⟨hv, fun a h => ⟨ha a h, ha' a h⟩, hal⟩
  | attempt b handlers f r ihb ihh ihf =>
    intro ctx declared
    rw [defects, List.append_eq_nil_iff, List.append_eq_nil_iff, ihb,
      defectsHandlers_eq_nil_iff ihh, defects?_eq_nil_iff ihf, labels, fresh_append, fresh_append,
      ← List.append_assoc]
    constructor
    · rintro ⟨⟨⟨hb, hbl⟩, hh, hhl⟩, hf, hfl⟩
      exact ⟨⟨.attempt hb.1 (fun a h => (hh a h).1) fun n hn => (hf n hn).1,
        .attempt hb.2 (fun a h => (hh a h).2) fun n hn => (hf n hn).2⟩, ⟨hbl, hhl⟩, hfl⟩
    · intro ⟨⟨.attempt hb hh hf, .attempt hb' hh' hf'⟩, ⟨hbl, hhl⟩, hfl⟩
      exact ⟨⟨⟨⟨hb, hb'⟩, hbl⟩, fun a h => ⟨hh a h, hh' a h⟩, hhl⟩,
        fun n hn => ⟨hf n hn, hf' n hn⟩, hfl⟩
  | guarded k e b r ihb =>
    intro ctx declared
    rw [defects, List.append_eq_nil_iff, exprDefects_eq_nil_iff, ihb, labels]
    constructor
    · rintro ⟨he, hb, hbl⟩
      exact ⟨⟨.guarded he hb.1, .guarded hb.2⟩, hbl⟩
    · intro ⟨⟨.guarded he hb, .guarded hb'⟩, hbl⟩
      exact ⟨he, ⟨hb, hb'⟩, hbl⟩
  | nested h b =>
    intro ctx declared
    exact iff_of_true rfl ⟨⟨.nested, .nested⟩, fresh_nil⟩
  | label | probe | acquire =>
    -- None of these is plain, and each has a defect of its own.
    intro ctx declared
    refine iff_of_false (by simp [defects]) ?_
    rintro ⟨⟨hplain, -⟩, -⟩
    cases hplain

end Defects

end Analysis

/-- **A unit has no defects exactly if its root is plain and confined and no label comes twice.** -/
theorem CodeUnit.defects_eq_nil_iff {u : CodeUnit} :
    u.defects = [] ↔
      (Plain u.root ∧ Confined { unit := u.name } u.root) ∧ (Analysis.labels u.root).Nodup := by
  rw [defects, Analysis.defects_eq_nil_iff u.root]
  simp [Analysis.Fresh]

/-- The root of a unit without defects is plain, and its jumps stay in the unit. -/
theorem CodeUnit.wellFormed {u : CodeUnit} (h : u.defects = []) :
    Plain u.root ∧ Confined { unit := u.name } u.root :=
  (CodeUnit.defects_eq_nil_iff.1 h).1

end SpanCoverage
