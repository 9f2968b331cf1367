import SpanCoverage.Proofs.Accepted
import SpanCoverage.Proofs.WellFormed

/-!
# Injection keeps every jump inside its target

Injection wraps blocks into sequences and takes boundaries out of them.  Neither adds a label nor
takes one away, so a tree whose jumps have their targets around them stays one.

The main results are:

* `Confined.splice` — a confined tree is confined with its probes in it.
* `Confined.injected` — so is the root of a unit that injection made of a confined one.
-/

namespace SpanCoverage

open Analysis Injection

/-! ## Labels of spliced sequences -/

theorem mem_labelNames_iff {label : String} {ns : List Node} :
    label ∈ labelNames ns ↔ ns.any (·.isLabel label) = true := by
  simp only [labelNames, List.mem_filterMap, List.any_eq_true]
  refine exists_congr fun n => and_congr_right fun _ => ?_
  cases n <;> simp [labelName?, Node.isLabel]

theorem labelNames_probeNodes (span : Option Nat) : labelNames (probeNodes span) = [] := by
  cases span <;> rfl

theorem labelNames_append (ns ms : List Node) :
    labelNames (ns ++ ms) = labelNames ns ++ labelNames ms :=
  List.filterMap_append

/-- Splicing keeps the labels of a sequence. -/
theorem labelNames_spliceAll (place : Placement) (site : Nat) (ns : List Node) :
    labelNames (spliceAll place site ns) = labelNames ns := by
  have child (site : Nat) (n : Node) :
      labelNames (asChild place site n (splice place site n)) = labelNames [n] := by
    cases n with
    | nested header root => rfl
    | label name range =>
      show labelNames ([.label name range] ++ probeNodes _) = _
      rw [labelNames_append, labelNames_probeNodes]
      rfl
    | _ =>
      simp only [asChild]
      rw [labelNames_append, labelNames_probeNodes]
      rfl
  induction ns generalizing site with
  | nil => rfl
  | cons n ns ih => rw [spliceAll, labelNames_append, child, ih, ← labelNames_append]; rfl

theorem Analysis.Context.inSeq_eq {ctx : Context} {ns ms : List Node}
    (h : labelNames ns = labelNames ms) : ctx.inSeq ns = ctx.inSeq ms := by
  simp only [Context.inSeq, h]

/-- A sequence without labels adds nothing to the surroundings. -/
theorem Analysis.Context.inSeq_of_no_label {ctx : Context} {ns : List Node}
    (h : labelNames ns = []) : ctx.inSeq ns = ctx := by
  simp only [Context.inSeq, h, List.append_nil]

/-! ## Confined trees with probes -/

theorem Confined.of_mem_probeNodes {ctx : Context} {span : Option Nat} {m : Node}
    (hm : m ∈ probeNodes span) : Confined ctx m := by
  cases span with
  | none => cases hm
  | some span =>
    rw [List.mem_singleton.1 hm]
    exact .probe

/-- A block behind a probe. -/
theorem Confined.behindProbe {ctx : Context} {n : Node} (h : Confined ctx n) (span : Option Nat) :
    Confined ctx (behindProbe span n) := by
  cases span with
  | none => exact h
  | some span =>
    -- The sequence made for a block that is no label leaves the surroundings as they are.
    have pair (m : Node) (hm : labelName? m = none) (hc : Confined ctx m) :
        Confined ctx (.seq [.probe span, m]) := by
      have hnone : labelNames [.probe span, m] = [] := by
        show [m].filterMap labelName? = []
        rw [List.filterMap_cons_none hm, List.filterMap_nil]
      refine .seq fun x hx => ?_
      rw [Context.inSeq_of_no_label hnone]
      simp only [List.mem_cons, List.not_mem_nil, or_false] at hx
      rcases hx with rfl | rfl
      · exact .probe
      · exact hc
    cases n with
    | seq ns =>
      cases h with
      | seq hns =>
        refine .seq fun m hm => ?_
        rcases List.mem_cons.1 hm with rfl | hm
        · exact .probe
        · exact hns m hm
    | label name range =>
      refine .seq fun m hm => ?_
      simp only [List.mem_cons, List.not_mem_nil, or_false] at hm
      rcases hm with rfl | rfl
      · exact .probe
      · exact .label
    | _ => exact pair _ rfl h

section Splice

variable {place : Placement} {ctx : Context}

theorem Confined.splice? {e : Option Node}
    (h : ∀ m ∈ e, ∀ site, Confined ctx (Injection.splice place site m)) (site : Nat) :
    ∀ m ∈ splice? place site e, Confined ctx m := by
  intro m hm
  cases e with
  | none => cases hm
  | some x =>
    cases hm
    exact (h x rfl site).behindProbe _

theorem Confined.spliceAll {ns : List Node}
    (h : ∀ n ∈ ns, ∀ site, Confined ctx (Injection.splice place site n)) (site : Nat) :
    ∀ m ∈ spliceAll place site ns, Confined ctx m := by
  induction ns generalizing site with
  | nil => intro m hm; cases hm
  | cons n ns ih =>
    simp only [List.mem_cons, forall_eq_or_imp] at h
    intro m hm
    rcases List.mem_append.1 hm with hm | hm
    · have hn := h.1 site
      cases n with
      | nested header root => cases hm
      | label name range =>
        rcases List.mem_cons.1 hm with rfl | hm
        · exact .label
        · exact .of_mem_probeNodes hm
      | _ =>
        rcases List.mem_append.1 hm with hm | hm
        · exact .of_mem_probeNodes hm
        · rw [List.mem_singleton.1 hm]
          exact hn
    · exact ih h.2 _ m hm

theorem Confined.spliceArms {arms : List Arm}
    (h : ∀ a ∈ arms, ∀ site, Confined ctx (Injection.splice place site a.body)) (site : Nat) :
    ∀ a ∈ spliceArms place site arms, Confined ctx a.body := by
  induction arms generalizing site with
  | nil => intro a ha; cases ha
  | cons a arms ih =>
    obtain ⟨case, body, range⟩ := a
    simp only [List.mem_cons, forall_eq_or_imp] at h
    intro x hx
    rcases List.mem_cons.1 hx with rfl | hx
    · exact ((h.1 site).behindProbe _).behindProbe _
    · exact ih h.2 _ x hx

theorem Confined.spliceHandlers {handlers : List Handler}
    (h : ∀ a ∈ handlers, ∀ site, Confined ctx (Injection.splice place site a.body))
    (site : Nat) : ∀ a ∈ spliceHandlers place site handlers, Confined ctx a.body := by
  induction handlers generalizing site with
  | nil => intro a ha; cases ha
  | cons a handlers ih =>
    obtain ⟨binding, body, range⟩ := a
    simp only [List.mem_cons, forall_eq_or_imp] at h
    intro x hx
    rcases List.mem_cons.1 hx with rfl | hx
    · exact ((h.1 site).behindProbe _).behindProbe _
    · exact ih h.2 _ x hx

end Splice

/-- **Injection keeps every jump inside its target.** -/
theorem Confined.splice {n : Node} (place : Placement) :
    ∀ {ctx : Context} (site : Nat), Confined ctx n → Confined ctx (splice place site n) := by
  induction n using Node.induct with
  | stmt a range => intro ctx site h; cases h with | stmt ha => exact .stmt ha
  | seq ns ih =>
    intro ctx site h
    cases h with
    | seq hns =>
      refine .seq ?_
      rw [Context.inSeq_eq (labelNames_spliceAll place (site + 1) ns)]
      exact Confined.spliceAll (fun n hn s => ih n hn s (hns n hn)) _
  | branch c t e range iht ihe =>
    intro ctx site h
    cases h with
    | branch ht he =>
      exact .branch ((iht _ ht).behindProbe _)
        (Confined.splice? (fun m hm s => ihe m hm s (he m hm)) _)
  | loop test i c u b range ihi ihu ihb =>
    intro ctx site h
    cases h with
    | loop hi hu hb =>
      exact .loop (Confined.splice? (fun m hm s => ihi m hm s (hi m hm)) _)
        (Confined.splice? (fun m hm s => ihu m hm s (hu m hm)) _) ((ihb _ hb).behindProbe _)
  | switch value arms range ih =>
    intro ctx site h
    cases h with
    | switch ha => exact .switch (Confined.spliceArms (fun a hmem s => ih a hmem s (ha a hmem)) _)
  | attempt b handlers f range ihb ihh ihf =>
    intro ctx site h
    cases h with
    | attempt hb hh hf =>
      refine .attempt ((ihb _ hb).behindProbe _)
        (Confined.spliceHandlers (fun a hmem s => ihh a hmem s (hh a hmem)) _) ?_
      intro m hm
      cases f with
      | none => cases hm
      | some x =>
        cases hm
        exact ((ihf x rfl _ (hf x rfl)).behindProbe _).behindProbe _
  | guarded kind resource b range ihb =>
    intro ctx site h
    cases h with
    | guarded hb => exact .guarded ((ihb _ hb).behindProbe _)
  | label name range => exact fun _ _ => .label
  | nested header root =>
    intro ctx site h
    exact .seq fun m hm => by cases hm
  | probe span => exact fun _ _ => .probe
  | acquire => exact fun _ _ => .acquire

/-- A unit that injection made of a confined one is confined. -/
theorem Confined.injected {u : CodeUnit} {v : InstrumentedUnit} (h : Injected u v)
    (hplain : Plain u.root) (hroot : Confined { unit := u.name } u.root) :
    Confined { unit := v.unit.name } v.unit.root := by
  cases h with
  | stripped =>
    rw [u.unit_withoutProbes]
    exact (hroot.splice .none 0).behindProbe _
  | spliced table placed =>
    have hname : labelName? (Injection.splice table.placement 0 u.root) = none := by
      generalize u.root = root at hplain
      cases hplain <;> rfl
    have hnone : labelNames (.acquire :: probeNodes (table.placement 0 .entry)
        ++ probeNodes (lead table.placement 0 u.root)
        ++ [Injection.splice table.placement 0 u.root]) = [] := by
      rw [labelNames_append, labelNames_append, labelNames_probeNodes]
      show labelNames (probeNodes _) ++ [] ++ [_].filterMap labelName? = []
      rw [labelNames_probeNodes, List.filterMap_cons_none hname]
      rfl
    refine .seq fun m hm => ?_
    rw [Context.inSeq_of_no_label hnone]
    rcases List.mem_append.1 hm with hm | hm
    · rcases List.mem_append.1 hm with hm | hm
      · rcases List.mem_cons.1 hm with rfl | hm
        · exact .acquire
        · exact .of_mem_probeNodes hm
      · exact .of_mem_probeNodes hm
    · rw [List.mem_singleton.1 hm]
      exact hroot.splice _ 0

end SpanCoverage
