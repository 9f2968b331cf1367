import SpanCoverage.Program.Hollow
import SpanCoverage.Proofs.UnitOrder

/-!
# Isolation of nested units

Analysis and injection look at a unit from outside of the units nested in it.  All that they work
out on the way is the same for a tree and for the tree with blank units at its boundaries: which
labels there are and which of them are entered, in how many rounds that is found, how control leaves
each part, and at which site a part begins.  So no unit can tell what is in the units nested in it.

The main results are:

* `Analysis.enteredLabels_hollow`, `Analysis.points_hollow` — the analysis of a tree does not depend
  on the units at its boundaries.
* `Injection.splice_hollow` — neither does the injection.
* `CodeUnit.nested_units_isolated` — a unit keeps its table and its probes whatever units are nested
  in it, and nested units have the tables that they have on their own.
-/

namespace SpanCoverage

open Node (hollowAll hollow? hollowArms hollowHandlers)

/-! ## The analysis -/

namespace Analysis

@[simp] theorem labelName?_hollow (n : Node) : labelName? n.hollow = labelName? n := by
  cases n <;> rfl

@[simp] theorem labelNames_hollowAll (ns : List Node) :
    labelNames (hollowAll ns) = labelNames ns := by
  unfold labelNames
  induction ns with
  | nil => rfl
  | cons n ns ih => simp [List.filterMap_cons, ih]

/-! ### Labels -/

mutual

@[simp] theorem labels_hollow : ∀ n : Node, labels n.hollow = labels n
  | .seq ns => by simp [labels, labelsAll_hollowAll ns]
  | .branch _ t e _ => by simp [labels, labels_hollow t, labels?_hollow? e]
  | .loop _ i _ u b _ => by simp [labels, labels?_hollow? i, labels?_hollow? u, labels_hollow b]
  | .switch _ arms _ => by simp [labels, labelsArms_hollowArms arms]
  | .attempt b handlers f _ => by
    simp [labels, labels_hollow b, labelsHandlers_hollowHandlers handlers, labels?_hollow? f]
  | .guarded _ _ b _ => by simp [labels, labels_hollow b]
  | .stmt .. | .label .. | .nested .. | .probe _ | .acquire => rfl

@[simp] theorem labelsAll_hollowAll : ∀ ns : List Node, labelsAll (hollowAll ns) = labelsAll ns
  | [] => rfl
  | n :: ns => by simp [labelsAll, labels_hollow n, labelsAll_hollowAll ns]

@[simp] theorem labels?_hollow? : ∀ e : Option Node, labels? (hollow? e) = labels? e
  | none => rfl
  | some n => labels_hollow n

@[simp] theorem labelsArms_hollowArms : ∀ arms : List Arm,
    labelsArms (hollowArms arms) = labelsArms arms
  | [] => rfl
  | ⟨_, body, _⟩ :: arms => by simp [labelsArms, labels_hollow body, labelsArms_hollowArms arms]

@[simp] theorem labelsHandlers_hollowHandlers : ∀ handlers : List Handler,
    labelsHandlers (hollowHandlers handlers) = labelsHandlers handlers
  | [] => rfl
  | ⟨_, body, _⟩ :: handlers => by
    simp [labelsHandlers, labels_hollow body, labelsHandlers_hollowHandlers handlers]

end

/-! ### Defects -/

@[simp] theorem inSeq_hollowAll (ctx : Context) (ns : List Node) :
    ctx.inSeq (hollowAll ns) = ctx.inSeq ns := by
  rw [Context.inSeq, labelNames_hollowAll, Context.inSeq]

mutual

@[simp] theorem defects_hollow : ∀ (n : Node) (ctx : Context) (declared : List String),
    defects ctx declared n.hollow = defects ctx declared n
  | .seq ns, ctx, declared => by simp [defects, defectsAll_hollowAll ns]
  | .branch _ t e _, ctx, declared => by simp [defects, defects_hollow t, defects?_hollow? e]
  | .loop _ i _ u b _, ctx, declared => by
    simp [defects, defects?_hollow? i, defects_hollow b, defects?_hollow? u]
  | .switch _ arms _, ctx, declared => by simp [defects, defectsArms_hollowArms arms]
  | .attempt b handlers f _, ctx, declared => by
    simp [defects, defects_hollow b, defectsHandlers_hollowHandlers handlers, defects?_hollow? f]
  | .guarded _ _ b _, ctx, declared => by simp [defects, defects_hollow b]
  | .stmt .., _, _ | .label .., _, _ | .nested .., _, _ | .probe _, _, _ | .acquire, _, _ => rfl

@[simp] theorem defectsAll_hollowAll : ∀ (ns : List Node) (ctx : Context)
    (declared : List String),
    defectsAll ctx declared (hollowAll ns) = defectsAll ctx declared ns
  | [], _, _ => rfl
  | n :: ns, ctx, declared => by simp [defectsAll, defects_hollow n, defectsAll_hollowAll ns]

@[simp] theorem defects?_hollow? : ∀ (e : Option Node) (ctx : Context) (declared : List String),
    defects? ctx declared (hollow? e) = defects? ctx declared e
  | none, _, _ => rfl
  | some n, ctx, declared => defects_hollow n ctx declared

@[simp] theorem defectsArms_hollowArms : ∀ (arms : List Arm) (ctx : Context)
    (declared : List String),
    defectsArms ctx declared (hollowArms arms) = defectsArms ctx declared arms
  | [], _, _ => rfl
  | ⟨_, body, _⟩ :: arms, ctx, declared => by
    simp [defectsArms, defects_hollow body, defectsArms_hollowArms arms]

@[simp] theorem defectsHandlers_hollowHandlers : ∀ (handlers : List Handler) (ctx : Context)
    (declared : List String),
    defectsHandlers ctx declared (hollowHandlers handlers) = defectsHandlers ctx declared handlers
  | [], _, _ => rfl
  | ⟨_, body, _⟩ :: handlers, ctx, declared => by
    simp [defectsHandlers, defects_hollow body, defectsHandlers_hollowHandlers handlers]

end

/-! ### Exits -/

mutual

@[simp] theorem exits_hollow (entered : List String) : ∀ (n : Node) (live : Bool),
    exits entered live n.hollow = exits entered live n
  | .seq ns, live => by simp [exits, exitsAll_hollowAll entered ns]
  | .branch _ t e _, live => by simp [exits, exits_hollow entered t, exits?_hollow? entered e]
  | .loop _ i _ u b _, live => by
    simp [exits, exits?_hollow? entered i, exits_hollow entered b, exits?_hollow? entered u]
  | .switch _ arms _, live => by simp [exits, exitsArms_hollowArms entered arms]
  | .attempt b handlers f _, live => by
    simp [exits, exits_hollow entered b, exitsHandlers_hollowHandlers entered handlers,
      exits?_hollow? entered f]
  | .guarded _ _ b _, live => by simp [exits, exits_hollow entered b]
  | .stmt .., _ | .label .., _ | .nested .., _ | .probe _, _ | .acquire, _ => rfl

@[simp] theorem exitsAll_hollowAll (entered : List String) : ∀ (ns : List Node) (live : Bool),
    exitsAll entered live (hollowAll ns) = exitsAll entered live ns
  | [], _ => rfl
  | n :: ns, live => by simp [exitsAll, exits_hollow entered n, exitsAll_hollowAll entered ns]

@[simp] theorem exits?_hollow? (entered : List String) : ∀ (e : Option Node) (live : Bool),
    exits? entered live (hollow? e) = exits? entered live e
  | none, _ => rfl
  | some n, live => exits_hollow entered n live

@[simp] theorem exitsArms_hollowArms (entered : List String) : ∀ (arms : List Arm) (live : Bool),
    exitsArms entered live (hollowArms arms) = exitsArms entered live arms
  | [], _ => rfl
  | ⟨_, body, _⟩ :: arms, live => by
    simp [exitsArms, exits_hollow entered body, exitsArms_hollowArms entered arms]

@[simp] theorem exitsHandlers_hollowHandlers (entered : List String) :
    ∀ (handlers : List Handler) (live : Bool),
    exitsHandlers entered live (hollowHandlers handlers) = exitsHandlers entered live handlers
  | [], _ => rfl
  | ⟨_, body, _⟩ :: handlers, live => by
    simp [exitsHandlers, exits_hollow entered body, exitsHandlers_hollowHandlers entered handlers]

end

/-! ### Points -/

@[simp] theorem markFinally_hollow? (live : Bool) (site : Nat) (f : Option Node) :
    markFinally live site (hollow? f) = markFinally live site f := by
  cases f with
  | none => rfl
  | some n => simp [markFinally]

mutual

@[simp] theorem points_hollow (entered : List String) : ∀ (n : Node) (live : Bool) (site : Nat),
    points entered live site n.hollow = points entered live site n
  | .seq ns, live, site => by simp [points, pointsAll_hollowAll entered ns]
  | .branch _ t e _, live, site => by
    simp [points, points_hollow entered t, points?_hollow? entered e]
  | .loop _ i _ u b _, live, site => by
    simp [points, points?_hollow? entered i, points_hollow entered b, points?_hollow? entered u]
  | .switch _ arms _, live, site => by simp [points, pointsArms_hollowArms entered arms]
  | .attempt b handlers f _, live, site => by
    simp [points, points_hollow entered b, pointsHandlers_hollowHandlers entered handlers,
      points?_hollow? entered f]
  | .guarded _ _ b _, live, site => by simp [points, points_hollow entered b]
  | .stmt .., _, _ | .label .., _, _ | .nested .., _, _ | .probe _, _, _ | .acquire, _, _ => rfl

@[simp] theorem pointsAll_hollowAll (entered : List String) :
    ∀ (ns : List Node) (live : Bool) (site : Nat),
    pointsAll entered live site (hollowAll ns) = pointsAll entered live site ns
  | [], _, _ => rfl
  | n :: ns, live, site => by
    simp [pointsAll, points_hollow entered n, pointsAll_hollowAll entered ns]

@[simp] theorem points?_hollow? (entered : List String) :
    ∀ (e : Option Node) (live : Bool) (site : Nat),
    points? entered live site (hollow? e) = points? entered live site e
  | none, _, _ => rfl
  | some n, live, site => points_hollow entered n live site

@[simp] theorem pointsArms_hollowArms (entered : List String) :
    ∀ (arms : List Arm) (live : Bool) (site : Nat),
    pointsArms entered live site (hollowArms arms) = pointsArms entered live site arms
  | [], _, _ => rfl
  | ⟨_, body, _⟩ :: arms, live, site => by
    simp [pointsArms, points_hollow entered body, pointsArms_hollowArms entered arms]

@[simp] theorem pointsHandlers_hollowHandlers (entered : List String) :
    ∀ (handlers : List Handler) (live : Bool) (site : Nat),
    pointsHandlers entered live site (hollowHandlers handlers) =
      pointsHandlers entered live site handlers
  | [], _, _ => rfl
  | ⟨_, body, _⟩ :: handlers, live, site => by
    simp [pointsHandlers, points_hollow entered body,
      pointsHandlers_hollowHandlers entered handlers]

end

/-- The repetition takes the same rounds. -/
@[simp] theorem settle_hollow (root : Node) (rounds : Nat) (entered : List String) :
    settle root.hollow rounds entered = settle root rounds entered := by
  have next : reached root.hollow = reached root := by
    funext entered
    simp [reached]
  induction rounds generalizing entered with
  | zero => rfl
  | succ rounds ih => simp only [settle, next, ih]

@[simp] theorem enteredLabels_hollow (root : Node) :
    enteredLabels root.hollow = enteredLabels root := by
  simp [enteredLabels]

end Analysis

/-! ## The injection -/

namespace Injection

@[simp] theorem lead_hollow (place : Placement) (site : Nat) (n : Node) :
    lead place site n.hollow = lead place site n := by
  cases n <;> rfl

@[simp] theorem asBlock_hollow (place : Placement) (site : Nat) (n spliced : Node) :
    asBlock place site n.hollow spliced = asBlock place site n spliced := by
  rw [asBlock, lead_hollow, asBlock]

@[simp] theorem asChild_hollow (place : Placement) (site : Nat) (n spliced : Node) :
    asChild place site n.hollow spliced = asChild place site n spliced := by
  cases n <;> rfl

mutual

@[simp] theorem splice_hollow (place : Placement) : ∀ (n : Node) (site : Nat),
    splice place site n.hollow = splice place site n
  | .seq ns, site => by simp [splice, spliceAll_hollowAll place ns]
  | .branch _ t e _, site => by simp [splice, splice_hollow place t, splice?_hollow? place e]
  | .loop _ i _ u b _, site => by
    simp [splice, splice?_hollow? place i, splice_hollow place b, splice?_hollow? place u]
  | .switch _ arms _, site => by simp [splice, spliceArms_hollowArms place arms]
  | .attempt b handlers f _, site => by
    simp [splice, splice_hollow place b, spliceHandlers_hollowHandlers place handlers,
      spliceFinally_hollow? place f]
  | .guarded _ _ b _, site => by simp [splice, splice_hollow place b]
  | .stmt .., _ | .label .., _ | .nested .., _ | .probe _, _ | .acquire, _ => rfl

@[simp] theorem spliceAll_hollowAll (place : Placement) : ∀ (ns : List Node) (site : Nat),
    spliceAll place site (hollowAll ns) = spliceAll place site ns
  | [], _ => rfl
  | n :: ns, site => by simp [spliceAll, splice_hollow place n, spliceAll_hollowAll place ns]

@[simp] theorem splice?_hollow? (place : Placement) : ∀ (e : Option Node) (site : Nat),
    splice? place site (hollow? e) = splice? place site e
  | none, _ => rfl
  | some n, site => by simp [splice?, splice_hollow place n]

@[simp] theorem spliceFinally_hollow? (place : Placement) : ∀ (f : Option Node) (site : Nat),
    spliceFinally place site (hollow? f) = spliceFinally place site f
  | none, _ => rfl
  | some n, site => by simp [spliceFinally, splice_hollow place n]

@[simp] theorem spliceArms_hollowArms (place : Placement) : ∀ (arms : List Arm) (site : Nat),
    spliceArms place site (hollowArms arms) = spliceArms place site arms
  | [], _ => rfl
  | ⟨_, body, _⟩ :: arms, site => by
    simp [spliceArms, splice_hollow place body, spliceArms_hollowArms place arms]

@[simp] theorem spliceHandlers_hollowHandlers (place : Placement) :
    ∀ (handlers : List Handler) (site : Nat),
    spliceHandlers place site (hollowHandlers handlers) = spliceHandlers place site handlers
  | [], _ => rfl
  | ⟨_, body, _⟩ :: handlers, site => by
    simp [spliceHandlers, splice_hollow place body, spliceHandlers_hollowHandlers place handlers]

end

@[simp] theorem spliceRoot_hollow (place : Placement) (root : Node) :
    spliceRoot place root.hollow = spliceRoot place root := by
  rw [spliceRoot, lead_hollow, splice_hollow, spliceRoot]

@[simp] theorem stripBoundaries_hollow (root : Node) :
    stripBoundaries root.hollow = stripBoundaries root := by
  rw [stripBoundaries, asBlock_hollow, splice_hollow, stripBoundaries]

mutual

@[simp] theorem probePoints_hollow : ∀ (n : Node) (site : Nat),
    probePoints site n.hollow = probePoints site n
  | .seq ns, site => by simp [probePoints, probePointsAll_hollowAll ns]
  | .branch _ t e _, site => by simp [probePoints, probePoints_hollow t, probePoints?_hollow? e]
  | .loop _ i _ u b _, site => by
    simp [probePoints, probePoints?_hollow? i, probePoints_hollow b, probePoints?_hollow? u]
  | .switch _ arms _, site => by simp [probePoints, probePointsArms_hollowArms arms]
  | .attempt b handlers f _, site => by
    simp [probePoints, probePoints_hollow b, probePointsHandlers_hollowHandlers handlers,
      probePoints?_hollow? f]
  | .guarded _ _ b _, site => by simp [probePoints, probePoints_hollow b]
  | .stmt .., _ | .label .., _ | .nested .., _ | .probe _, _ | .acquire, _ => rfl

@[simp] theorem probePointsAll_hollowAll : ∀ (ns : List Node) (site : Nat),
    probePointsAll site (hollowAll ns) = probePointsAll site ns
  | [], _ => rfl
  | n :: ns, site => by
    simp [probePointsAll, probePoints_hollow n, probePointsAll_hollowAll ns]
    cases n <;> rfl

@[simp] theorem probePoints?_hollow? : ∀ (e : Option Node) (site : Nat),
    probePoints? site (hollow? e) = probePoints? site e
  | none, _ => rfl
  | some n, site => probePoints_hollow n site

@[simp] theorem probePointsArms_hollowArms : ∀ (arms : List Arm) (site : Nat),
    probePointsArms site (hollowArms arms) = probePointsArms site arms
  | [], _ => rfl
  | ⟨_, body, _⟩ :: arms, site => by
    simp [probePointsArms, probePoints_hollow body, probePointsArms_hollowArms arms]

@[simp] theorem probePointsHandlers_hollowHandlers : ∀ (handlers : List Handler) (site : Nat),
    probePointsHandlers site (hollowHandlers handlers) = probePointsHandlers site handlers
  | [], _ => rfl
  | ⟨_, body, _⟩ :: handlers, site => by
    simp [probePointsHandlers, probePoints_hollow body, probePointsHandlers_hollowHandlers handlers]

end

end Injection

/-! ## Units -/

namespace CodeUnit

section SameOutside

variable {u v : CodeUnit}

/-- What does not change with blank units at the boundaries of a unit is the same for two units that
are the same outside. -/
theorem SameOutside.eq_of {α : Type} (h : u.SameOutside v) (f : CodeUnit → α)
    (hf : ∀ header root, f ⟨header, root.hollow⟩ = f ⟨header, root⟩) : f u = f v := by
  obtain ⟨header, root⟩ := u
  obtain ⟨header', root'⟩ := v
  obtain ⟨rfl, hhollow⟩ := h
  rw [← hf, hhollow, hf]

theorem SameOutside.defects_eq (h : u.SameOutside v) : u.defects = v.defects :=
  h.eq_of defects fun _ _ => by simp [defects]

theorem SameOutside.spanMap_eq (h : u.SameOutside v) : u.spanMap = v.spanMap :=
  h.eq_of spanMap fun _ _ => by simp [spanMap, points]

theorem inject_hollow (header : UnitHeader) (root : Node) (table : SpanTable) :
    inject ⟨header, root.hollow⟩ table = inject ⟨header, root⟩ table := by
  have points : probePoints ⟨header, root.hollow⟩ = probePoints ⟨header, root⟩ := by
    simp [probePoints]
  cases hplaced : table.unplaced? (probePoints ⟨header, root⟩) with
  | some index => rw [inject_of_some hplaced, inject_of_some (points ▸ hplaced)]
  | none =>
    rw [inject_of_none hplaced, inject_of_none (points ▸ hplaced), Injection.spliceRoot_hollow]

theorem SameOutside.instrument_eq (h : u.SameOutside v) (options : InjectionOptions)
    (coverage : CoverageMap) : u.instrument options coverage = v.instrument options coverage := by
  refine h.eq_of (instrument options coverage) fun header root => ?_
  cases henabled : options.enabled with
  | false =>
    rw [instrument_of_disabled henabled, instrument_of_disabled henabled, unit_withoutProbes,
      unit_withoutProbes, Injection.stripBoundaries_hollow]
  | true =>
    cases hknown : coverage.unit? header.token with
    | none => rw [instrument_of_missing henabled hknown, instrument_of_missing henabled hknown]
    | some known =>
      rw [instrument_of_known henabled hknown, instrument_of_known henabled hknown, inject_hollow]

end SameOutside

/-- A valid unit is instrumented with every map in which its token finds its own table. -/
theorem instrument_of_own {u : CodeUnit} (valid : u.defects = []) (options : InjectionOptions)
    {coverage : CoverageMap} (own : coverage.unit? u.token = some u.spanMap) :
    u.instrument options coverage =
      .ok (if options.enabled then u.withProbes else u.withoutProbes) := by
  obtain ⟨moduleId, enabled⟩ := options
  cases enabled with
  | false => exact instrument_of_disabled rfl
  | true =>
    rw [instrument_of_known rfl own, inject_of_none (unplaced?_eq_none valid)]
    rfl

theorem unit?_own (u : CodeUnit) (name : String) (rest : List UnitMap) :
    (⟨name, u.spanMap :: rest⟩ : CoverageMap).unit? u.token = some u.spanMap := by
  simp [CoverageMap.unit?, spanMap]

/-- Each of the units nested in an accepted unit is accepted on its own, and the units nested in it
have the tables there that they have here. -/
theorem analyzeAll_of_mem {u w : CodeUnit} (valid : ∀ v ∈ u.all, v.defects = []) (hw : w ∈ u.all) :
    w.analyzeAll = .ok (w.all.map spanMap) ∧
      w.all.zip (w.all.map spanMap) <:+: u.all.zip (u.all.map spanMap) := by
  have hpiece := u.all_infix w hw
  refine ⟨analyzeAll_eq_ok_iff.2 ⟨fun v hv => valid v (hpiece.subset hv), rfl⟩, ?_⟩
  rw [← List.map_prod_left_eq_zip, ← List.map_prod_left_eq_zip]
  exact hpiece.map _

/-- A unit is accepted if it is valid and the units at its boundaries are accepted. -/
theorem forall_defects_eq_nil {u : CodeUnit} (valid : u.defects = [])
    (nested : ∀ v ∈ u.boundaries, ∃ known, v.analyzeAll = .ok known) :
    ∀ v ∈ u.all, v.defects = [] := by
  rw [all_eq, List.forall_mem_cons]
  refine ⟨valid, fun v hv => ?_⟩
  obtain ⟨b, hb, hv⟩ := List.mem_flatMap.1 hv
  obtain ⟨known, hknown⟩ := nested b hb
  exact (analyzeAll_eq_ok_iff.1 hknown).1 v hv

/-- The tables of the units nested in an accepted unit, from one boundary to the next. -/
theorem map_analyzeAll_boundaries {u : CodeUnit} (valid : ∀ v ∈ u.all, v.defects = []) :
    u.boundaries.map analyzeAll =
      (u.boundaries.map fun b => b.all.map spanMap).map Except.ok := by
  rw [List.map_map]
  refine List.map_congr_left fun b hb => (analyzeAll_of_mem valid ?_).1
  rw [all_eq]
  exact List.mem_cons_of_mem _ (List.mem_flatMap.2 ⟨b, hb, List.mem_cons_self⟩)

/-- **Units are isolated from what is in the units nested in them.** With other units of the same
ranges at the boundaries of an accepted unit, wherever these stand, the unit keeps its span table,
and with its own analysis it is instrumented in the same way. The other way round, the tables of all
nested units are those that the units have on their own. -/
theorem nested_units_isolated {u u' : CodeUnit} {maps : List UnitMap}
    (accepted : u.analyzeAll = .ok maps) (same : u.SameOutside u')
    (others : ∀ v ∈ u'.boundaries, ∃ known, v.analyzeAll = .ok known) :
    (∃ own rest rest', maps = own :: rest ∧ u'.analyzeAll = .ok (own :: rest') ∧
      ∀ options name name', ∃ v, u.instrument options ⟨name, maps⟩ = .ok v ∧
        u'.instrument options ⟨name', own :: rest'⟩ = .ok v) ∧
    (∀ options coverage, u.instrument options coverage = u'.instrument options coverage) ∧
    (∃ nested : List (List UnitMap),
      u.boundaries.map analyzeAll = nested.map .ok ∧ maps.tail = nested.flatten) ∧
    ∀ w ∈ u.all, ∃ known, w.analyzeAll = .ok known ∧ w.all.zip known <:+: u.all.zip maps := by
  obtain ⟨valid, rfl⟩ := analyzeAll_eq_ok_iff.1 accepted
  have hvalid : u.defects = [] := valid u List.mem_cons_self
  have hvalid' : u'.defects = [] := same.defects_eq.symm.trans hvalid
  have valid' := forall_defects_eq_nil hvalid' others
  refine ⟨⟨u.spanMap, u.root.allUnits.map spanMap, u'.root.allUnits.map spanMap, rfl, ?_, ?_⟩,
    same.instrument_eq, ⟨_, map_analyzeAll_boundaries valid, ?_⟩,
    fun w hw => ⟨_, analyzeAll_of_mem valid hw⟩⟩
  · rw [same.spanMap_eq]
    exact analyzeAll_eq_ok_iff.2 ⟨valid', rfl⟩
  · intro options name name'
    refine ⟨_, instrument_of_own hvalid options (u.unit?_own name _), ?_⟩
    rw [← same.instrument_eq]
    exact instrument_of_own hvalid options (u.unit?_own name' _)
  · rw [all_eq, List.map_cons, List.tail_cons, List.map_flatMap, List.flatMap_def]

/-! ## An example -/

/-- A unit with boundaries in a loop, as a branch of its own, and in dead code, and with a label in
dead code. -/
def housing (inLoop inBranch inDeadCode : Node) : CodeUnit where
  token := ⟨0x06000001⟩
  name := "housing"
  range := .none
  root := .seq [
    .loop .before none (.var "more") none
      (.seq [
        .nested { token := ⟨0x06000002⟩, name := "first", kind := .lambda, range := ⟨4, 9⟩ } inLoop,
        .stmt .next .none])
      .none,
    .branch (.var "more")
      (.nested { token := ⟨0x06000003⟩, name := "second", kind := .lambda, range := ⟨10, 12⟩ }
        inBranch)
      none .none,
    .stmt (.ret none) .none,
    .nested { token := ⟨0x06000004⟩, name := "third", kind := .lambda, range := ⟨12, 30⟩ }
      inDeadCode,
    .label "end" .none]

/-- A loop and a jump to a label that has a name of the unit outside. -/
def jumping : Node :=
  .seq [.loop .before none (.var "more") none (.stmt .leave .none) .none,
    .stmt (.goto "end") .none, .label "end" .none]

/-- The unit with nothing in its nested units. -/
def vacant : CodeUnit := housing (.seq []) (.seq []) (.seq [])

/-- The unit with a nested unit that jumps to a label of its own, one that returns, and one with a
unit nested in it. -/
def occupied : CodeUnit :=
  housing jumping (.stmt (.ret none) .none)
    (.nested { token := ⟨0x06000005⟩, name := "fourth", kind := .lambda, range := ⟨15, 20⟩ }
      jumping)

/-- The unit has one table, whatever is in its nested units. -/
theorem occupied_isolated : ∃ own rest rest', vacant.analyzeAll = .ok (own :: rest) ∧
    occupied.analyzeAll = .ok (own :: rest') := by
  have same : vacant.SameOutside occupied := ⟨rfl, rfl⟩
  have others : ∀ v ∈ occupied.boundaries, ∃ known, v.analyzeAll = .ok known := by
    intro v hv
    rcases hv with _ | ⟨_, _ | ⟨_, _ | ⟨_, ⟨⟩⟩⟩⟩ <;>
      exact ⟨_, analyzeAll_eq_ok_iff.2 ⟨by decide, rfl⟩⟩
  have accepted : vacant.analyzeAll = .ok (vacant.all.map spanMap) :=
    analyzeAll_eq_ok_iff.2 ⟨by decide, rfl⟩
  obtain ⟨⟨own, rest, rest', hvacant, hoccupied, -⟩, -⟩ :=
    nested_units_isolated accepted same others
  exact ⟨own, rest, rest', hvacant ▸ accepted, hoccupied⟩

end CodeUnit

end SpanCoverage
