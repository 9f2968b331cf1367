import SpanCoverage.Program.Enclosure
import SpanCoverage.Proofs.Accepted
import SpanCoverage.Proofs.Sites
import SpanCoverage.Proofs.WellFormed

/-!
# Which programs are accepted

The analysis looks for defects in the order of a unit's tree, and keeps books of the labels it has
met.  This file says without any order which programs it accepts: each node of a unit is in place,
which depends on its enclosures only, no label of a unit comes twice, and no token of the program
does.

The main results are:

* `CodeUnit.defects_eq_nil_iff_wellFormed` — a unit has no defects exactly if it is well-formed.
* `Program.accepted_iff_wellFormed` — a program is accepted exactly if it is well-formed.
-/

namespace SpanCoverage

open Analysis

/-! ## Well-formed programs -/

namespace Node

/-- Whether a node may stand where it does, by its enclosures. -/
def Allowed (around : List Enclosure) : Node → Prop
  -- Injected forms may stand nowhere.
  | .probe _ | .acquire => False
  -- A label stands directly in a sequence.
  | .label _ _ => ∃ ns outer, around = .seq ns :: outer
  -- A jump has its target around it.
  | .stmt (.goto l) _ => ∃ ns r, .seq ns ∈ around ∧ .label l r ∈ ns
  | .stmt .leave _ => .rounds ∈ around ∨ .arm ∈ around
  | .stmt .next _ => .rounds ∈ around
  | _ => True

/-- A node is in place: it may stand where it does, and its expressions hold no probe. -/
structure InPlace (around : List Enclosure) (n : Node) : Prop where
  allowed : n.Allowed around
  exprs : ∀ e ∈ n.exprs, ∀ span x, ¬ e.Holds (.probed span x)

/-- The names of the labels among the nodes of a tree. -/
def labelsAmong (nodes : List (Nat × Node)) : List String :=
  nodes.filterMap fun (_, n) => labelName? n

/-- The names of all labels of a tree, wherever they stand, in the order of their sites. -/
def labelsWithin (n : Node) : List String := labelsAmong (n.sited 0)

end Node

/-- A unit whose nodes are in place and whose labels differ.  The nodes of units nested in it are
no nodes of the unit. -/
structure CodeUnit.WellFormed (u : CodeUnit) : Prop where
  inPlace : ∀ around n, u.root.Holds [] around n → n.InPlace around
  labels : u.root.labelsWithin.Nodup

/-- A program whose units are well-formed and have tokens of their own. -/
structure Program.WellFormed (p : Program) : Prop where
  units : ∀ u ∈ p.allUnits, u.WellFormed
  tokens : (p.allUnits.map (·.token)).Nodup

/-! ## Nodes in place -/

namespace Node

/-- Every node of a tree that stands in `outer` is in place. -/
def AllInPlace (outer : List Enclosure) (n : Node) : Prop :=
  ∀ around m, n.Holds outer around m → m.InPlace around

section InPlace

variable {outer : List Enclosure} {range : SourceRange}

theorem inPlace_iff {n : Node} :
    n.InPlace outer ↔ n.Allowed outer ∧ ∀ e ∈ n.exprs, e.hasProbe = false := by
  have hexpr (e : Expr) : e.hasProbe = false ↔ ∀ span x, ¬ e.Holds (.probed span x) := by
    rw [← Bool.not_eq_true, Expr.hasProbe_iff, not_exists]
    exact forall_congr' fun span => not_exists
  simp only [hexpr]
  exact ⟨fun h => ⟨h.allowed, h.exprs⟩, fun h => ⟨h.1, h.2⟩⟩

/-- Its root is in place, and so is every node of its parts. -/
theorem allInPlace_iff {n : Node} :
    n.AllInPlace outer ↔ (n.Allowed outer ∧ ∀ e ∈ n.exprs, e.hasProbe = false) ∧
      ∀ p ∈ n.parts, p.2.AllInPlace (p.1 :: outer) := by
  rw [← inPlace_iff]
  exact forall_holds

theorem allInPlace_stmt {s : Stmt} :
    (stmt s range).AllInPlace outer ↔
      (stmt s range).Allowed outer ∧ s.hasProbe = false := by
  rw [allInPlace_iff]
  simp [parts, exprs, Stmt.hasProbe_eq_false_iff]

theorem allInPlace_seq {ns : List Node} :
    (seq ns).AllInPlace outer ↔ ∀ m ∈ ns, m.AllInPlace (.seq ns :: outer) := by
  rw [allInPlace_iff]
  simp [Allowed, parts, exprs]

theorem allInPlace_branch {c : Expr} {t : Node} {e : Option Node} :
    (branch c t e range).AllInPlace outer ↔
      c.hasProbe = false ∧ t.AllInPlace (.other :: outer) ∧
        ∀ m ∈ e, m.AllInPlace (.other :: outer) := by
  rw [allInPlace_iff]
  simp [Allowed, parts, exprs]

theorem allInPlace_loop {k : TestTime} {i : Option Node} {c : Expr} {u : Option Node} {b : Node} :
    (loop k i c u b range).AllInPlace outer ↔
      c.hasProbe = false ∧ (∀ m ∈ i, m.AllInPlace (.other :: outer)) ∧
        b.AllInPlace (.rounds :: outer) ∧ ∀ m ∈ u, m.AllInPlace (.rounds :: outer) := by
  rw [allInPlace_iff]
  simp [Allowed, parts, exprs, or_imp, forall_and]

theorem allInPlace_switch {v : Expr} {arms : List Arm} :
    (switch v arms range).AllInPlace outer ↔
      v.hasProbe = false ∧ ∀ a ∈ arms, a.body.AllInPlace (.arm :: outer) := by
  rw [allInPlace_iff]
  simp [Allowed, parts, exprs]

theorem allInPlace_attempt {b : Node} {handlers : List Handler} {f : Option Node} :
    (attempt b handlers f range).AllInPlace outer ↔
      b.AllInPlace (.other :: outer) ∧ (∀ h ∈ handlers, h.body.AllInPlace (.other :: outer)) ∧
        ∀ m ∈ f, m.AllInPlace (.other :: outer) := by
  rw [allInPlace_iff]
  simp [Allowed, parts, exprs, or_imp, forall_and]

theorem allInPlace_guarded {k : GuardKind} {e : Expr} {b : Node} :
    (guarded k e b range).AllInPlace outer ↔
      e.hasProbe = false ∧ b.AllInPlace (.other :: outer) := by
  rw [allInPlace_iff]
  simp [Allowed, parts, exprs]

end InPlace

end Node

/-! ## Surroundings -/

/-- The surroundings that a node has by its enclosures. -/
structure Analysis.Context.Describes (ctx : Context) (around : List Enclosure) : Prop where
  labels : ∀ l, l ∈ ctx.labels ↔ ∃ ns r, .seq ns ∈ around ∧ .label l r ∈ ns
  canLeave : ctx.canLeave = true ↔ .rounds ∈ around ∨ .arm ∈ around
  canRepeat : ctx.canRepeat = true ↔ .rounds ∈ around

section Describes

variable {ctx : Context} {around : List Enclosure}

theorem mem_labelNames {l : String} {ns : List Node} :
    l ∈ labelNames ns ↔ ∃ r, .label l r ∈ ns := by
  rw [labelNames, List.mem_filterMap]
  constructor
  · rintro ⟨n, hn, hl⟩
    obtain ⟨r, rfl⟩ := labelName?_eq_some_iff.1 hl
    exact ⟨r, hn⟩
  · rintro ⟨r, hr⟩
    exact ⟨_, hr, rfl⟩

namespace Analysis.Context.Describes

theorem inSeq (h : ctx.Describes around) (ns : List Node) :
    (ctx.inSeq ns).Describes (.seq ns :: around) where
  labels l := by
    simp [Context.inSeq, h.labels, mem_labelNames, or_and_right, exists_or, or_comm]
  canLeave := by simpa [Context.inSeq] using h.canLeave
  canRepeat := by simpa [Context.inSeq] using h.canRepeat

theorem inLoop (h : ctx.Describes around) : ctx.inLoop.Describes (.rounds :: around) where
  labels l := by simpa [Context.inLoop] using h.labels l
  canLeave := by simp [Context.inLoop]
  canRepeat := by simp [Context.inLoop]

theorem inSwitch (h : ctx.Describes around) : ctx.inSwitch.Describes (.arm :: around) where
  labels l := by simpa [Context.inSwitch] using h.labels l
  canLeave := by simp [Context.inSwitch]
  canRepeat := by simpa [Context.inSwitch] using h.canRepeat

theorem inOther (h : ctx.Describes around) : ctx.Describes (.other :: around) where
  labels l := by simpa using h.labels l
  canLeave := by simpa using h.canLeave
  canRepeat := by simpa using h.canRepeat

/-- A statement may stand where its surroundings hold the target of its jump. -/
theorem allowed_iff (h : ctx.Describes around) {s : Stmt} {r : SourceRange} :
    (Node.stmt s r).Allowed around ↔ ctx.Admits s := by
  cases s with
  | goto l => exact (h.labels l).symm
  | leave => exact h.canLeave.symm
  | next => exact h.canRepeat.symm
  | assign | eval | print | skip | ret | raise => exact Iff.rfl

end Analysis.Context.Describes

end Describes

/-! ## Plain and confined trees -/

/-- A tree is plain and confined exactly if its nodes are in place.  Only a label that stands
directly in a sequence is in place without being plain. -/
def Placed (n : Node) : Prop :=
  ∀ {ctx : Context} {outer : List Enclosure}, ctx.Describes outer →
    labelName? n = none ∨ (∀ ns rest, outer ≠ .seq ns :: rest) →
      (n.AllInPlace outer ↔ Plain n ∧ Confined ctx n)

theorem placed (n : Node) : Placed n := by
  induction n using Node.induct with
  | stmt s r =>
    intro ctx outer hctx _
    rw [Node.allInPlace_stmt, hctx.allowed_iff]
    exact ⟨fun h => ⟨.stmt h.2, .stmt h.1⟩, fun ⟨.stmt hp, .stmt ha⟩ => ⟨ha, hp⟩⟩
  | seq ns ih =>
    intro ctx outer hctx _
    have child : ∀ n ∈ ns, (n.AllInPlace (.seq ns :: outer) ↔
        (labelName? n = none → Plain n) ∧ Confined (ctx.inSeq ns) n) := by
      intro n hn
      cases hl : labelName? n with
      | none => simpa using ih n hn (hctx.inSeq ns) (.inl hl)
      | some l =>
        obtain ⟨r, rfl⟩ := labelName?_eq_some_iff.1 hl
        refine iff_of_true (Node.allInPlace_iff.2 ⟨⟨⟨ns, outer, rfl⟩, nofun⟩, nofun⟩) ?_
        exact ⟨nofun, .label⟩
    rw [Node.allInPlace_seq, forall₂_congr child]
    exact ⟨fun h => ⟨.seq fun n hn => (h n hn).1, .seq fun n hn => (h n hn).2⟩,
      fun ⟨.seq hp, .seq hc⟩ n hn => ⟨hp n hn, hc n hn⟩⟩
  | branch c t e r iht ihe =>
    intro ctx outer hctx _
    rw [Node.allInPlace_branch, iht hctx.inOther (.inr nofun),
      forall₂_congr fun n hn => ihe n hn hctx.inOther (.inr nofun)]
    exact ⟨fun ⟨hc, ht, he⟩ => ⟨.branch hc ht.1 fun n hn => (he n hn).1,
        .branch ht.2 fun n hn => (he n hn).2⟩,
      fun ⟨.branch hc ht he, .branch ht' he'⟩ =>
        ⟨hc, ⟨ht, ht'⟩, fun n hn => ⟨he n hn, he' n hn⟩⟩⟩
  | loop k i c u b r ihi ihu ihb =>
    intro ctx outer hctx _
    rw [Node.allInPlace_loop, forall₂_congr fun n hn => ihi n hn hctx.inOther (.inr nofun),
      ihb hctx.inLoop (.inr nofun), forall₂_congr fun n hn => ihu n hn hctx.inLoop (.inr nofun)]
    exact ⟨fun ⟨hc, hi, hb, hu⟩ =>
        ⟨.loop hc (fun n hn => (hi n hn).1) (fun n hn => (hu n hn).1) hb.1,
          .loop (fun n hn => (hi n hn).2) (fun n hn => (hu n hn).2) hb.2⟩,
      fun ⟨.loop hc hi hu hb, .loop hi' hu' hb'⟩ =>
        ⟨hc, fun n hn => ⟨hi n hn, hi' n hn⟩, ⟨hb, hb'⟩, fun n hn => ⟨hu n hn, hu' n hn⟩⟩⟩
  | switch v arms r ih =>
    intro ctx outer hctx _
    rw [Node.allInPlace_switch, forall₂_congr fun a ha => ih a ha hctx.inSwitch (.inr nofun)]
    exact ⟨fun ⟨hv, ha⟩ => ⟨.switch hv fun a h => (ha a h).1, .switch fun a h => (ha a h).2⟩,
      fun ⟨.switch hv ha, .switch ha'⟩ => ⟨hv, fun a h => ⟨ha a h, ha' a h⟩⟩⟩
  | attempt b handlers f r ihb ihh ihf =>
    intro ctx outer hctx _
    rw [Node.allInPlace_attempt, ihb hctx.inOther (.inr nofun),
      forall₂_congr fun a ha => ihh a ha hctx.inOther (.inr nofun),
      forall₂_congr fun n hn => ihf n hn hctx.inOther (.inr nofun)]
    exact ⟨fun ⟨hb, hh, hf⟩ =>
        ⟨.attempt hb.1 (fun a h => (hh a h).1) fun n hn => (hf n hn).1,
          .attempt hb.2 (fun a h => (hh a h).2) fun n hn => (hf n hn).2⟩,
      fun ⟨.attempt hb hh hf, .attempt hb' hh' hf'⟩ =>
        ⟨⟨hb, hb'⟩, fun a h => ⟨hh a h, hh' a h⟩, fun n hn => ⟨hf n hn, hf' n hn⟩⟩⟩
  | guarded k e b r ihb =>
    intro ctx outer hctx _
    rw [Node.allInPlace_guarded, ihb hctx.inOther (.inr nofun)]
    exact ⟨fun ⟨he, hb⟩ => ⟨.guarded he hb.1, .guarded hb.2⟩,
      fun ⟨.guarded he hb, .guarded hb'⟩ => ⟨he, hb, hb'⟩⟩
  | label l r =>
    intro ctx outer hctx h
    refine iff_of_false (fun hall => ?_) nofun
    obtain ⟨ns, rest, rfl⟩ := (Node.allInPlace_iff.1 hall).1.1
    rcases h with h | h
    · cases h
    · exact h ns rest rfl
  | nested header b =>
    intro ctx outer _ _
    exact iff_of_true (Node.allInPlace_iff.2 ⟨⟨trivial, nofun⟩, nofun⟩) ⟨.nested, .nested⟩
  | probe | acquire =>
    intro ctx outer _ _
    exact iff_of_false (fun hall => (Node.allInPlace_iff.1 hall).1.1) nofun

/-! ## Labels -/

/-- In a plain tree the labels of its sequences are all of its labels. -/
def LabelsFound (n : Node) : Prop :=
  Plain n → ∀ site, (Node.labelsAmong (n.sited site)).Perm (labels n)

section Labels

open Node

theorem labelsAmong_append {xs ys : List (Nat × Node)} {ls ms : List String}
    (hx : (labelsAmong xs).Perm ls) (hy : (labelsAmong ys).Perm ms) :
    (labelsAmong (xs ++ ys)).Perm (ls ++ ms) := by
  have hsplit : labelsAmong (xs ++ ys) = labelsAmong xs ++ labelsAmong ys := List.filterMap_append
  rw [hsplit]
  exact hx.append hy

theorem labelsFound? {e : Option Node} (h : ∀ n ∈ e, LabelsFound n) (he : ∀ n ∈ e, Plain n)
    (site : Nat) : (labelsAmong (sited? site e)).Perm (labels? e) := by
  cases e with
  | none => exact .refl _
  | some n => exact h n rfl (he n rfl) site

/-- The labels of a sequence are its own and those inside of its other children. -/
theorem labelsFoundAll {ns : List Node} (h : ∀ n ∈ ns, LabelsFound n)
    (hns : ∀ n ∈ ns, labelName? n = none → Plain n) (site : Nat) :
    (labelsAmong (sitedAll site ns)).Perm (labelNames ns ++ labelsAll ns) := by
  induction ns generalizing site with
  | nil => exact .refl _
  | cons n ns ih =>
    simp only [List.mem_cons, forall_eq_or_imp] at h hns
    have rest := ih h.2 hns.2 (site + n.siteCount)
    cases hl : labelName? n with
    | some l =>
      obtain ⟨r, rfl⟩ := labelName?_eq_some_iff.1 hl
      exact rest.cons l
    | none =>
      have hnames : labelNames (n :: ns) = labelNames ns := by simp [labelNames, hl]
      rw [hnames, labelsAll, sitedAll]
      exact (labelsAmong_append (h.1 (hns.1 hl) site) rest).trans (List.perm_append_comm_assoc ..)

theorem labelsFoundArms {arms : List Arm} (h : ∀ a ∈ arms, LabelsFound a.body)
    (harms : ∀ a ∈ arms, Plain a.body) (site : Nat) :
    (labelsAmong (sitedArms site arms)).Perm (labelsArms arms) := by
  induction arms generalizing site with
  | nil => exact .refl _
  | cons a arms ih =>
    obtain ⟨case, body, range⟩ := a
    simp only [List.mem_cons, forall_eq_or_imp] at h harms
    exact labelsAmong_append (h.1 harms.1 site) (ih h.2 harms.2 _)

theorem labelsFoundHandlers {handlers : List Handler} (h : ∀ a ∈ handlers, LabelsFound a.body)
    (hhandlers : ∀ a ∈ handlers, Plain a.body) (site : Nat) :
    (labelsAmong (sitedHandlers site handlers)).Perm (labelsHandlers handlers) := by
  induction handlers generalizing site with
  | nil => exact .refl _
  | cons a handlers ih =>
    obtain ⟨binding, body, range⟩ := a
    simp only [List.mem_cons, forall_eq_or_imp] at h hhandlers
    exact labelsAmong_append (h.1 hhandlers.1 site) (ih h.2 hhandlers.2 _)

theorem labelsFound (n : Node) : LabelsFound n := by
  induction n using Node.induct with
  | stmt | nested => exact fun _ _ => .refl _
  | label | probe | acquire => exact nofun
  | seq ns ih =>
    intro (.seq hns) site
    exact labelsFoundAll ih hns _
  | branch c t e r iht ihe =>
    intro (.branch _ ht he) site
    have hparts := labelsAmong_append (iht ht (site + 1))
      (labelsFound? ihe he (site + 1 + t.siteCount))
    exact hparts
  | loop k i c u b r ihi ihu ihb =>
    intro (.loop _ hi hu hb) site
    let bodySite := site + 1 + siteCount? i
    have hparts := labelsAmong_append
      (labelsAmong_append (labelsFound? ihi hi (site + 1)) (ihb hb bodySite))
      (labelsFound? ihu hu (bodySite + b.siteCount))
    exact hparts
  | switch v arms r ih =>
    intro (.switch _ ha) site
    exact labelsFoundArms ih ha _
  | attempt b handlers f r ihb ihh ihf =>
    intro (.attempt hb hh hf) site
    let handlerSite := site + 1 + b.siteCount
    have hparts := labelsAmong_append
      (labelsAmong_append (ihb hb (site + 1)) (labelsFoundHandlers ihh hh handlerSite))
      (labelsFound? ihf hf (handlerSite + siteCountHandlers handlers))
    exact hparts
  | guarded k e b r ihb =>
    intro (.guarded _ hb) site
    exact ihb hb _

end Labels

/-! ## Acceptance -/

/-- **A unit has no defects exactly if it is well-formed.** -/
theorem CodeUnit.defects_eq_nil_iff_wellFormed {u : CodeUnit} : u.defects = [] ↔ u.WellFormed := by
  have hctx : ({ unit := u.name } : Context).Describes [] :=
    ⟨fun l => by simp, by simp, by simp⟩
  have hplaced := placed u.root hctx (.inr nofun)
  rw [CodeUnit.defects_eq_nil_iff, ← hplaced]
  constructor
  · rintro ⟨hall, hlabels⟩
    exact ⟨hall, (labelsFound u.root (hplaced.1 hall).1 0).nodup_iff.2 hlabels⟩
  · rintro ⟨hall, hlabels⟩
    exact ⟨hall, (labelsFound u.root (hplaced.1 hall).1 0).nodup_iff.1 hlabels⟩

/-- Whether a unit is well-formed is found by looking for its defects. -/
instance (u : CodeUnit) : Decidable u.WellFormed :=
  decidable_of_iff (u.defects = []) CodeUnit.defects_eq_nil_iff_wellFormed

/-- A unit that is one loop, which stops itself at its start or in its update. -/
def stopping (start update : Option Node) : CodeUnit where
  token := ⟨0x06000001⟩
  name := "stopping"
  range := .none
  root := .loop .before start (.const (.bool true)) update (.seq []) .none

-- The update of a loop belongs to its rounds, and its start does not.
example : (stopping none (some (.stmt .leave .none))).WellFormed := by decide
example : ¬ (stopping (some (.stmt .leave .none)) none).WellFormed := by decide

/-- **A program is accepted exactly if it is well-formed.**  Every unit counts, at any depth, and in
it every node, in live code and in code that nothing reaches. -/
theorem Program.accepted_iff_wellFormed (p : Program) :
    (∃ coverage, p.analyze = .ok coverage) ↔ p.WellFormed := by
  simp only [Program.analyze_eq_ok_iff, CodeUnit.defects_eq_nil_iff_wellFormed]
  exact ⟨fun ⟨_, hunits, htokens, _⟩ => ⟨hunits, htokens⟩,
    fun ⟨hunits, htokens⟩ => ⟨_, hunits, htokens, rfl⟩⟩

end SpanCoverage
