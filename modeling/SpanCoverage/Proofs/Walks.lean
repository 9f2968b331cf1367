import Mathlib.Data.List.Nodup
import Mathlib.Data.List.Pairwise
import Mathlib.Logic.Relation
import SpanCoverage.Program.Enclosure
import SpanCoverage.Proofs.Overlooked

/-!
# Walks over a unit

The analysis walks over a unit's tree and takes for every node whether control comes to it.  A
`Visit` is a node with that and with its site, and `Visit.parts` are the visits of the node's parts.
What the analysis says of a node is made of what it says of these, so an argument about a walk can
go from a node to its parts without a look at what kind of node it is.

The main results are:

* `Visit.sited_eq`, `Visit.jumps_eq` — the nodes and the jumps of a tree are those of its root and
  those of its parts.
* `Visit.mem_points` — and so are its points, but for the entries into the parts.
* `Visit.exists_walk` — a walk comes to every node of the tree.
-/

namespace SpanCoverage

open Analysis

/-! ## Parts -/

namespace Node

/-- The labels that stand directly in a node. -/
def ownLabels : Node → List String
  | .seq ns => labelNames ns
  | _ => []

theorem labels?_eq (e : Option Node) : labels? e = e.toList.flatMap labels := by
  cases e <;> simp [labels?]

theorem labelsAll_eq (ns : List Node) : labelsAll ns = ns.flatMap labels := by
  induction ns with
  | nil => rfl
  | cons n ns ih => rw [labelsAll, ih, List.flatMap_cons]

theorem labelsArms_eq (arms : List Arm) : labelsArms arms = arms.flatMap (labels ·.body) := by
  induction arms with
  | nil => rfl
  | cons a arms ih =>
    obtain ⟨case, body, range⟩ := a
    rw [labelsArms, ih, List.flatMap_cons]

theorem labelsHandlers_eq (handlers : List Handler) :
    labelsHandlers handlers = handlers.flatMap (labels ·.body) := by
  induction handlers with
  | nil => rfl
  | cons a handlers ih =>
    obtain ⟨binding, body, range⟩ := a
    rw [labelsHandlers, ih, List.flatMap_cons]

/-- The labels of a tree are those directly in its root and those of its parts. -/
theorem labels_eq (n : Node) :
    labels n = n.ownLabels ++ (n.parts.map Prod.snd).flatMap labels := by
  cases n <;> simp [labels, ownLabels, parts, List.flatMap_map, Function.comp_def, labels?_eq,
    labelsAll_eq, labelsArms_eq, labelsHandlers_eq]

/-- The unit of a nested node. -/
def ownUnits : Node → List CodeUnit
  | .nested header root => ⟨header, root⟩ :: root.allUnits
  | _ => []

theorem allUnits?_eq (e : Option Node) : allUnits? e = e.toList.flatMap allUnits := by
  cases e <;> simp [allUnits?]

theorem allUnitsAll_eq (ns : List Node) : allUnitsAll ns = ns.flatMap allUnits := by
  induction ns with
  | nil => rfl
  | cons n ns ih => rw [allUnitsAll, ih, List.flatMap_cons]

theorem allUnitsArms_eq (arms : List Arm) :
    allUnitsArms arms = arms.flatMap (allUnits ·.body) := by
  induction arms with
  | nil => rfl
  | cons a arms ih =>
    obtain ⟨case, body, range⟩ := a
    rw [allUnitsArms, ih, List.flatMap_cons]

theorem allUnitsHandlers_eq (handlers : List Handler) :
    allUnitsHandlers handlers = handlers.flatMap (allUnits ·.body) := by
  induction handlers with
  | nil => rfl
  | cons a handlers ih =>
    obtain ⟨binding, body, range⟩ := a
    rw [allUnitsHandlers, ih, List.flatMap_cons]

/-- The units nested in a tree are the root's own and those of its parts. -/
theorem allUnits_eq (n : Node) :
    n.allUnits = n.ownUnits ++ (n.parts.map Prod.snd).flatMap allUnits := by
  cases n <;> simp [allUnits, ownUnits, parts, List.flatMap_map, Function.comp_def, allUnits?_eq,
    allUnitsAll_eq, allUnitsArms_eq, allUnitsHandlers_eq]

/-- Induction over the parts of a node, and over the root of a nested unit. -/
theorem induct_parts {motive : Node → Prop}
    (whole : ∀ n, n.ownUnits = [] → (∀ m ∈ n.parts.map Prod.snd, motive m) → motive n)
    (nested : ∀ header root, motive root → motive (.nested header root)) (n : Node) : motive n := by
  induction n using Node.induct with
  | stmt | label | probe | acquire => exact whole _ rfl nofun
  | seq ns ih => exact whole _ rfl (by simpa [parts] using ih)
  | branch c t e r iht ihe => exact whole _ rfl (by simpa [parts] using ⟨iht, ihe⟩)
  | loop k i c u b r ihi ihu ihb =>
    exact whole _ rfl (by simpa [parts, or_imp, forall_and] using ⟨ihi, ihb, ihu⟩)
  | switch v arms r ih => exact whole _ rfl (by simpa [parts] using ih)
  | attempt b handlers f r ihb ihh ihf =>
    exact whole _ rfl (by simpa [parts, or_imp, forall_and] using ⟨ihb, ihh, ihf⟩)
  | guarded k e b r ihb => exact whole _ rfl (by simpa [parts] using ihb)
  | nested header root ih => exact nested header root ih

/-- A unit nested in a tree brings the units nested in it. -/
theorem allUnits_subset (n : Node) : ∀ v ∈ n.allUnits, v.root.allUnits ⊆ n.allUnits := by
  induction n using Node.induct_parts with
  | whole n hown ih =>
    intro v hv w hw
    rw [allUnits_eq, hown, List.nil_append, List.mem_flatMap] at hv ⊢
    obtain ⟨m, hm, hv⟩ := hv
    exact ⟨m, hm, ih m hm v hv hw⟩
  | nested header root ih =>
    intro v hv
    rcases List.mem_cons.1 hv with rfl | hv
    · exact List.subset_cons_self _ _
    · exact List.Subset.trans (ih v hv) (List.subset_cons_self _ _)

end Node

/-- A unit nested in another one, at any depth, brings the units nested in it. -/
theorem CodeUnit.all_subset {u v : CodeUnit} (h : v ∈ u.all) : v.all ⊆ u.all := by
  rcases List.mem_cons.1 h with rfl | h
  · exact List.Subset.refl _
  · exact List.cons_subset.2
      ⟨List.mem_cons_of_mem _ h, fun w hw => List.mem_cons_of_mem _ (u.root.allUnits_subset v h hw)⟩

/-- The surroundings of a node's part. -/
def Analysis.Context.within (ctx : Context) : Enclosure → Context
  | .seq ns => ctx.inSeq ns
  | .rounds => ctx.inLoop
  | .arm => ctx.inSwitch
  | .other => ctx

/-- The parts of a confined node are confined to their own surroundings. -/
theorem Confined.part {ctx : Context} {n m : Node} {e : Enclosure} (h : Confined ctx n)
    (hm : (e, m) ∈ n.parts) : Confined (ctx.within e) m := by
  cases h with
  | stmt | label | nested | probe | acquire => cases hm
  | seq h =>
    obtain ⟨_, hmem, heq⟩ := List.mem_map.1 hm
    cases heq
    exact h _ hmem
  | branch ht he =>
    simp only [Node.parts, List.mem_cons, List.mem_map, Option.mem_toList, Prod.mk.injEq] at hm
    rcases hm with ⟨rfl, rfl⟩ | ⟨_, hmem, rfl, rfl⟩
    · exact ht
    · exact he _ hmem
  | loop hi hu hb =>
    simp only [Node.parts, List.mem_append, List.mem_cons, List.mem_map, Option.mem_toList,
      Prod.mk.injEq] at hm
    rcases hm with ⟨_, hmem, rfl, rfl⟩ | ⟨rfl, rfl⟩ | ⟨_, hmem, rfl, rfl⟩
    · exact hi _ hmem
    · exact hb
    · exact hu _ hmem
  | switch ha =>
    obtain ⟨a, hmem, heq⟩ := List.mem_map.1 hm
    cases heq
    exact ha a hmem
  | attempt hb hh hf =>
    simp only [Node.parts, List.mem_append, List.mem_cons, List.mem_map, Option.mem_toList,
      Prod.mk.injEq] at hm
    rcases hm with (⟨rfl, rfl⟩ | ⟨a, hmem, rfl, rfl⟩) | ⟨_, hmem, rfl, rfl⟩
    · exact hb
    · exact hh a hmem
    · exact hf _ hmem
  | guarded hb =>
    cases List.mem_singleton.1 hm
    exact hb

theorem Plain.labelName?_eq_none {n : Node} (h : Plain n) : labelName? n = none := by
  cases h <;> rfl

/-- Only the children of a sequence stand in one. -/
theorem Node.eq_seq_of_mem_parts {n m : Node} {ns : List Node} (hm : (.seq ns, m) ∈ n.parts) :
    n = .seq ns := by
  cases n with
  | seq ns' =>
    obtain ⟨_, _, heq⟩ := List.mem_map.1 hm
    cases heq
    rfl
  | _ => simp [parts] at hm

/-- The parts of a plain node are plain, but for the labels of a sequence. -/
theorem Plain.part {n m : Node} {e : Enclosure} (h : Plain n) (hm : (e, m) ∈ n.parts)
    (hname : ∀ ns, e = .seq ns → labelName? m = none) : Plain m := by
  cases h with
  | stmt | nested => cases hm
  | seq h =>
    obtain ⟨_, hmem, heq⟩ := List.mem_map.1 hm
    cases heq
    exact h _ hmem (hname _ rfl)
  | branch hc ht he =>
    simp only [Node.parts, List.mem_cons, List.mem_map, Option.mem_toList, Prod.mk.injEq] at hm
    rcases hm with ⟨-, rfl⟩ | ⟨_, hmem, -, rfl⟩
    · exact ht
    · exact he _ hmem
  | loop hc hi hu hb =>
    simp only [Node.parts, List.mem_append, List.mem_cons, List.mem_map, Option.mem_toList,
      Prod.mk.injEq] at hm
    rcases hm with ⟨_, hmem, -, rfl⟩ | ⟨-, rfl⟩ | ⟨_, hmem, -, rfl⟩
    · exact hi _ hmem
    · exact hb
    · exact hu _ hmem
  | switch hv ha =>
    obtain ⟨a, hmem, heq⟩ := List.mem_map.1 hm
    cases heq
    exact ha a hmem
  | attempt hb hh hf =>
    simp only [Node.parts, List.mem_append, List.mem_cons, List.mem_map, Option.mem_toList,
      Prod.mk.injEq] at hm
    rcases hm with (⟨-, rfl⟩ | ⟨a, hmem, -, rfl⟩) | ⟨_, hmem, -, rfl⟩
    · exact hb
    · exact hh a hmem
    · exact hf _ hmem
  | guarded he hb =>
    cases List.mem_singleton.1 hm
    exact hb

/-- A part has no labels around it but those around the node and those directly in the node. -/
theorem Analysis.Context.labels_within (ctx : Context) {n m : Node} {e : Enclosure}
    (hm : (e, m) ∈ n.parts) : (ctx.within e).labels ⊆ ctx.labels ++ n.ownLabels := by
  cases e with
  | seq ns =>
    obtain rfl := Node.eq_seq_of_mem_parts hm
    exact List.Subset.refl _
  | rounds | arm | other => exact List.subset_append_left _ _

namespace Analysis

/-! ## Visits -/

/-- A node that a walk comes to, with its site, and whether control comes to it. -/
structure Visit where
  live : Bool
  site : Nat
  node : Node

namespace Visit

/-- A child that may be missing. -/
def of? (live : Bool) (site : Nat) : Option Node → List Visit
  | some n => [⟨live, site, n⟩]
  | none => []

/-- The children of a sequence: control comes to each of them from the one before. -/
def ofAll (entered : List String) (live : Bool) (site : Nat) : List Node → List Visit
  | [] => []
  | n :: ns =>
    ⟨live, site, n⟩ :: ofAll entered (exits entered live n).falls (site + n.siteCount) ns

/-- The bodies of switch arms. -/
def ofArms (live : Bool) (site : Nat) : List Arm → List Visit
  | [] => []
  | ⟨_, body, _⟩ :: arms => ⟨live, site, body⟩ :: ofArms live (site + body.siteCount) arms

/-- The bodies of handlers. -/
def ofHandlers (live : Bool) (site : Nat) : List Handler → List Visit
  | [] => []
  | ⟨_, body, _⟩ :: handlers =>
    ⟨live, site, body⟩ :: ofHandlers live (site + body.siteCount) handlers

/-- The parts of a node, in the order of their sites. -/
def parts (entered : List String) : Visit → List Visit
  | ⟨live, site, .seq ns⟩ => ofAll entered live (site + 1) ns
  | ⟨live, site, .branch c t e _⟩ =>
    ⟨live && c.knownTruth != some false, site + 1, t⟩
      :: of? (live && c.knownTruth != some true) (site + 1 + t.siteCount) e
  | ⟨live, site, .loop test i c u b _⟩ =>
    let inBody := bodyLive test c (exits? entered live i).falls
    let bodySite := site + 1 + Node.siteCount? i
    of? live (site + 1) i
      ++ ⟨inBody, bodySite, b⟩
        :: of? (updateLive (exits entered inBody b)) (bodySite + b.siteCount) u
  | ⟨live, site, .switch _ arms _⟩ => ofArms live (site + 1) arms
  | ⟨live, site, .attempt b handlers f _⟩ =>
    let handlerSite := site + 1 + b.siteCount
    ⟨live, site + 1, b⟩
      :: ofHandlers live handlerSite handlers
      ++ of? live (handlerSite + Node.siteCountHandlers handlers) f
  | ⟨live, site, .guarded _ _ b _⟩ => [⟨live, site + 1, b⟩]
  | ⟨_, _, .stmt ..⟩ | ⟨_, _, .label ..⟩ | ⟨_, _, .nested ..⟩ | ⟨_, _, .probe _⟩
  | ⟨_, _, .acquire⟩ => []

/-- The nodes of the visit's tree, with their sites. -/
def sited (v : Visit) : List (Nat × Node) := v.node.sited v.site

/-- The sites of the visit's tree. -/
def sites (v : Visit) : List Nat := v.sited.map Prod.fst

/-- How control leaves the visit's tree. -/
def exits (entered : List String) (v : Visit) : Exits := Analysis.exits entered v.live v.node

/-- The live points of the visit's tree. -/
def points (entered : List String) (v : Visit) : List Point :=
  Analysis.points entered v.live v.site v.node

section Lists

variable {entered : List String} {live : Bool} {site : Nat}

theorem nodes_of? (e : Option Node) : (of? live site e).map node = e.toList := by
  cases e <;> rfl

theorem nodes_ofAll (ns : List Node) : (ofAll entered live site ns).map node = ns := by
  induction ns generalizing live site with
  | nil => rfl
  | cons n ns ih => rw [ofAll, List.map_cons, ih]

theorem ofAll_append (ns ns' : List Node) :
    ofAll entered live site (ns ++ ns') =
      ofAll entered live site ns
        ++ ofAll entered (exitsAll entered live ns).falls (site + Node.siteCountAll ns) ns' := by
  induction ns generalizing live site with
  | nil => rfl
  | cons n ns ih =>
    rw [List.cons_append, ofAll, ih, ofAll, List.cons_append, Node.siteCountAll, Nat.add_assoc]
    rfl

theorem nodes_ofArms (arms : List Arm) : (ofArms live site arms).map node = arms.map (·.body) := by
  induction arms generalizing site with
  | nil => rfl
  | cons a arms ih =>
    obtain ⟨case, body, range⟩ := a
    rw [ofArms, List.map_cons, ih, List.map_cons]

theorem nodes_ofHandlers (handlers : List Handler) :
    (ofHandlers live site handlers).map node = handlers.map (·.body) := by
  induction handlers generalizing site with
  | nil => rfl
  | cons a handlers ih =>
    obtain ⟨binding, body, range⟩ := a
    rw [ofHandlers, List.map_cons, ih, List.map_cons]

theorem sited_of? (e : Option Node) : Node.sited? site e = (of? live site e).flatMap sited := by
  cases e <;> simp [Node.sited?, of?, sited]

theorem sited_ofAll (ns : List Node) :
    Node.sitedAll site ns = (ofAll entered live site ns).flatMap sited := by
  induction ns generalizing live site with
  | nil => rfl
  | cons n ns ih => rw [Node.sitedAll, ofAll, List.flatMap_cons, ← ih, sited]

theorem sited_ofArms (arms : List Arm) :
    Node.sitedArms site arms = (ofArms live site arms).flatMap sited := by
  induction arms generalizing site with
  | nil => rfl
  | cons a arms ih =>
    obtain ⟨case, body, range⟩ := a
    rw [Node.sitedArms, ofArms, List.flatMap_cons, ← ih, sited]

theorem sited_ofHandlers (handlers : List Handler) :
    Node.sitedHandlers site handlers = (ofHandlers live site handlers).flatMap sited := by
  induction handlers generalizing site with
  | nil => rfl
  | cons a handlers ih =>
    obtain ⟨binding, body, range⟩ := a
    rw [Node.sitedHandlers, ofHandlers, List.flatMap_cons, ← ih, sited]

theorem jumps_of? (e : Option Node) :
    (exits? entered live e).jumps = (of? live site e).flatMap fun w => (w.exits entered).jumps := by
  cases e <;> simp [exits?, of?, exits]

theorem jumps_ofAll (ns : List Node) :
    (exitsAll entered live ns).jumps =
      (ofAll entered live site ns).flatMap fun w => (w.exits entered).jumps := by
  induction ns generalizing live site with
  | nil => rfl
  | cons n ns ih => rw [exitsAll, ofAll, List.flatMap_cons, ← ih]; rfl

theorem jumps_ofArms (arms : List Arm) :
    (exitsArms entered live arms).jumps =
      (ofArms live site arms).flatMap fun w => (w.exits entered).jumps := by
  induction arms generalizing site with
  | nil => rfl
  | cons a arms ih =>
    obtain ⟨case, body, range⟩ := a
    rw [exitsArms, ofArms, List.flatMap_cons, ← ih]
    rfl

theorem jumps_ofHandlers (handlers : List Handler) :
    (exitsHandlers entered live handlers).jumps =
      (ofHandlers live site handlers).flatMap fun w => (w.exits entered).jumps := by
  induction handlers generalizing site with
  | nil => rfl
  | cons a handlers ih =>
    obtain ⟨binding, body, range⟩ := a
    rw [exitsHandlers, ofHandlers, List.flatMap_cons, ← ih]
    rfl

end Lists

section Parts

variable {entered : List String}

/-- The parts of a visit are those of its node. -/
theorem nodes_parts (entered : List String) (v : Visit) :
    (v.parts entered).map node = v.node.parts.map Prod.snd := by
  obtain ⟨live, site, n⟩ := v
  cases n <;> simp [parts, Node.parts, nodes_of?, nodes_ofAll, nodes_ofArms, nodes_ofHandlers,
    Function.comp_def]

theorem mem_node_parts {v w : Visit} (hw : w ∈ v.parts entered) :
    ∃ e, (e, w.node) ∈ v.node.parts := by
  have hmem : w.node ∈ v.node.parts.map Prod.snd := by
    rw [← nodes_parts entered]
    exact List.mem_map_of_mem hw
  obtain ⟨⟨e, m⟩, hm, heq⟩ := List.mem_map.1 hmem
  obtain rfl : m = w.node := heq
  exact ⟨e, hm⟩

/-- **The nodes of a tree are its root and those of its parts.** -/
theorem sited_eq (entered : List String) (v : Visit) :
    v.sited = (v.site, v.node) :: (v.parts entered).flatMap sited := by
  obtain ⟨live, site, n⟩ := v
  cases n with
  | seq ns => simp only [sited, Node.sited, parts, ← sited_ofAll]
  | branch c t e r => simp only [sited, Node.sited, parts, List.flatMap_cons, ← sited_of?]
  | loop k i c u b r =>
    simp only [sited, Node.sited, parts, List.flatMap_append, List.flatMap_cons, ← sited_of?,
      List.append_assoc]
  | switch v arms r => simp only [sited, Node.sited, parts, ← sited_ofArms]
  | attempt b handlers f r =>
    simp only [sited, Node.sited, parts, List.flatMap_append, List.flatMap_cons, ← sited_of?,
      ← sited_ofHandlers, List.append_assoc]
  | guarded k e b r => simp [sited, Node.sited, parts]
  | stmt | label | nested | probe | acquire => rfl

/-- The jump that a visited statement is itself. -/
def ownJumps (v : Visit) : List String :=
  match v.node with
  | .stmt s _ => (stmtExits v.live s).jumps
  | _ => []

/-- **The jumps of a tree are that of its root and those of its parts.** -/
theorem jumps_eq (v : Visit) :
    (v.exits entered).jumps =
      v.ownJumps ++ (v.parts entered).flatMap fun w => (w.exits entered).jumps := by
  obtain ⟨live, site, n⟩ := v
  cases n with
  | seq ns => exact jumps_ofAll ns
  | branch c t e r =>
    simp only [parts, List.flatMap_cons, ← jumps_of?]
    rfl
  | loop k i c u b r =>
    simp only [parts, List.flatMap_append, List.flatMap_cons, ← jumps_of?]
    exact List.append_assoc ..
  | switch v arms r => exact jumps_ofArms arms
  | attempt b handlers f r =>
    simp only [parts, List.flatMap_append, List.flatMap_cons, ← jumps_of?, ← jumps_ofHandlers]
    rfl
  | guarded k e b r => simp [parts, exits, Analysis.exits, ownJumps]
  | stmt s r => simp [parts, exits, Analysis.exits, ownJumps]
  | label | nested | probe | acquire => rfl

end Parts

/-! ## Points -/

/-- A live visit's own entry, if the node is a block that has one. -/
def IsEntry (w : Visit) (p : Point) : Prop := w.live = true ∧ p.site = w.site

section Points

variable {entered : List String} {live : Bool} {site : Nat} {p : Point}

theorem mem_points_of? {e : Option Node} :
    p ∈ points? entered live site e ↔ ∃ w ∈ of? live site e, p ∈ w.points entered := by
  cases e <;> simp [points?, of?, points]

theorem mem_points_ofAll {ns : List Node} :
    p ∈ pointsAll entered live site ns ↔
      ∃ w ∈ ofAll entered live site ns, p ∈ w.points entered := by
  induction ns generalizing live site with
  | nil => simp [pointsAll, ofAll]
  | cons n ns ih =>
    rw [pointsAll, List.mem_append, ih, ofAll, List.exists_mem_cons_iff]
    rfl

theorem mem_points_ofArms {arms : List Arm} (h : p ∈ pointsArms entered live site arms) :
    ∃ w ∈ ofArms live site arms, p ∈ w.points entered ∨ w.IsEntry p := by
  induction arms generalizing site with
  | nil => cases h
  | cons a arms ih =>
    obtain ⟨case, body, range⟩ := a
    rw [pointsArms, List.mem_append, List.mem_append, mem_mark] at h
    rw [ofArms, List.exists_mem_cons_iff]
    rcases h with (⟨hlive, rfl⟩ | hbody) | hrest
    · exact .inl (.inr ⟨hlive, rfl⟩)
    · exact .inl (.inl hbody)
    · exact .inr (ih hrest)

theorem mem_points_ofHandlers {handlers : List Handler}
    (h : p ∈ pointsHandlers entered live site handlers) :
    ∃ w ∈ ofHandlers live site handlers, p ∈ w.points entered ∨ w.IsEntry p := by
  induction handlers generalizing site with
  | nil => cases h
  | cons a handlers ih =>
    obtain ⟨binding, body, range⟩ := a
    rw [pointsHandlers, List.mem_append, List.mem_append, mem_mark] at h
    rw [ofHandlers, List.exists_mem_cons_iff]
    rcases h with (⟨hlive, rfl⟩ | hbody) | hrest
    · exact .inl (.inr ⟨hlive, rfl⟩)
    · exact .inl (.inl hbody)
    · exact .inr (ih hrest)

theorem mem_markFinally {f : Option Node} (h : p ∈ markFinally live site f) :
    ∃ w ∈ of? live site f, w.IsEntry p := by
  cases f with
  | none => cases h
  | some n =>
    obtain ⟨hlive, rfl⟩ := mem_mark.1 h
    exact ⟨_, List.mem_singleton.2 rfl, hlive, rfl⟩

/-- The points of a loop, whether the header comes before or behind the rounds. -/
theorem mem_points_loop {test : TestTime} {i u : Option Node} {c : Expr} {b : Node}
    {r : SourceRange} :
    p ∈ points entered ⟨live, site, .loop test i c u b r⟩ ↔
      p ∈ mark (headerLive test (exits? entered live i).falls (exits? entered (updateLive
          (Analysis.exits entered (bodyLive test c (exits? entered live i).falls) b)) u))
          .loopHeader site r ∨
        ∃ w ∈ parts entered ⟨live, site, .loop test i c u b r⟩, p ∈ w.points entered := by
  simp only [parts, List.mem_append, or_and_right, exists_or, List.exists_mem_cons_iff,
    ← mem_points_of?]
  cases test with
  | before =>
    simp only [points, Analysis.points, List.mem_append]
    exact or_left_comm
  | after =>
    simp only [points, Analysis.points, List.mem_append]
    rw [← or_assoc, or_comm]

/-- **A point of a tree is at the root's own site, or it is one of a part or the entry into
one.** -/
theorem mem_points {v : Visit} (h : p ∈ v.points entered) :
    p.site = v.site ∨ ∃ w ∈ v.parts entered, p ∈ w.points entered ∨ w.IsEntry p := by
  have part {vs : List Visit} (hp : ∃ w ∈ vs, p ∈ w.points entered) :
      ∃ w ∈ vs, p ∈ w.points entered ∨ w.IsEntry p :=
    hp.imp fun _ hw => ⟨hw.1, .inl hw.2⟩
  have own {live : Bool} {kind : SpanKind} {site : Nat} {range : SourceRange}
      (hp : p ∈ mark live kind site range) : p.site = site := by rw [(mem_mark.1 hp).2]
  obtain ⟨live, site, n⟩ := v
  cases n with
  | stmt | label => exact .inl (own h)
  | seq ns => exact .inr (part (mem_points_ofAll.1 h))
  | branch c t e r =>
    simp only [points, Analysis.points, List.mem_append, mem_points_of?] at h
    simp only [parts, List.exists_mem_cons_iff]
    rcases h with (h | h) | h
    · exact .inl (own h)
    · exact .inr (.inl (.inl h))
    · exact .inr (.inr (part h))
  | loop test i c u b r =>
    rcases mem_points_loop.1 h with h | h
    · exact .inl (own h)
    · exact .inr (part h)
  | switch v arms r =>
    rcases List.mem_append.1 h with h | h
    · exact .inl (own h)
    · exact .inr (mem_points_ofArms h)
  | attempt b handlers f r =>
    simp only [points, Analysis.points, List.mem_append, mem_points_of?] at h
    simp only [parts, List.mem_append, or_and_right, exists_or, List.exists_mem_cons_iff]
    rcases h with ((h | h) | h) | h
    · exact .inr (.inl (.inl (.inl h)))
    · exact .inr (.inl (.inr (mem_points_ofHandlers h)))
    · exact .inr (.inr ((mem_markFinally h).imp fun _ hw => ⟨hw.1, .inr hw.2⟩))
    · exact .inr (.inr (part h))
  | guarded k e b r =>
    rcases List.mem_append.1 h with h | h
    · exact .inl (own h)
    · exact .inr ⟨_, List.mem_singleton.2 rfl, .inl h⟩
  | nested | probe | acquire => cases h

theorem points_ofArms {arms : List Arm} {w : Visit} (hw : w ∈ ofArms live site arms) :
    w.points entered ⊆ pointsArms entered live site arms := by
  induction arms generalizing site with
  | nil => cases hw
  | cons a arms ih =>
    obtain ⟨case, body, range⟩ := a
    rw [pointsArms]
    rcases List.mem_cons.1 hw with rfl | hw
    · exact List.subset_append_of_subset_left _ (List.subset_append_right _ _)
    · exact List.subset_append_of_subset_right _ (ih hw)

theorem points_ofHandlers {handlers : List Handler} {w : Visit}
    (hw : w ∈ ofHandlers live site handlers) :
    w.points entered ⊆ pointsHandlers entered live site handlers := by
  induction handlers generalizing site with
  | nil => cases hw
  | cons a handlers ih =>
    obtain ⟨binding, body, range⟩ := a
    rw [pointsHandlers]
    rcases List.mem_cons.1 hw with rfl | hw
    · exact List.subset_append_of_subset_left _ (List.subset_append_right _ _)
    · exact List.subset_append_of_subset_right _ (ih hw)

/-- The points of a part are points of the tree. -/
theorem points_part {v w : Visit} (hw : w ∈ v.parts entered) :
    w.points entered ⊆ v.points entered := by
  obtain ⟨live, site, n⟩ := v
  intro p hp
  cases n with
  | stmt | label | nested | probe | acquire => cases hw
  | seq ns => exact mem_points_ofAll.2 ⟨w, hw, hp⟩
  | branch c t e r =>
    simp only [points, Analysis.points, List.mem_append, mem_points_of?]
    rcases List.mem_cons.1 hw with rfl | hw
    · exact .inl (.inr hp)
    · exact .inr ⟨w, hw, hp⟩
  | loop test i c u b r => exact mem_points_loop.2 (.inr ⟨w, hw, hp⟩)
  | switch v arms r => exact List.mem_append_right _ (points_ofArms hw hp)
  | attempt b handlers f r =>
    simp only [points, Analysis.points, List.mem_append, mem_points_of?]
    simp only [parts, List.mem_append, List.mem_cons] at hw
    rcases hw with (rfl | hw) | hw
    · exact .inl (.inl (.inl hp))
    · exact .inl (.inl (.inr (points_ofHandlers hw hp)))
    · exact .inr ⟨w, hw, hp⟩
  | guarded k e b r =>
    cases List.mem_singleton.1 hw
    exact List.mem_append_right _ hp

end Points

/-! ## Sites -/

section Sites

/-- What two members of a list contribute to a list without repetition. -/
theorem disjoint_of_nodup_flatMap {α β : Type} {f : α → List β} {l : List α}
    (h : (l.flatMap f).Nodup) {a b : α} (ha : a ∈ l) (hb : b ∈ l) (hne : a ≠ b) :
    (f a).Disjoint (f b) :=
  have : Std.Symm (Function.onFun List.Disjoint f) := ⟨fun _ _ => List.disjoint_symm⟩
  (List.nodup_flatMap.1 h).2.forall ha hb hne

variable {entered : List String} {v w x : Visit}

theorem sites_eq_range' (v : Visit) : v.sites = List.range' v.site v.node.siteCount :=
  Node.sited_sites v.node v.site

theorem sites_nodup (v : Visit) : v.sites.Nodup := by
  rw [sites_eq_range']
  exact List.nodup_range'

theorem sites_eq (entered : List String) (v : Visit) :
    v.sites = v.site :: (v.parts entered).flatMap sites := by
  rw [sites, sited_eq entered, List.map_cons, List.map_flatMap]
  rfl

theorem site_mem_sites (v : Visit) : v.site ∈ v.sites := by
  rw [sites_eq []]
  exact List.mem_cons_self

/-- The sites of a part come behind the node's own. -/
theorem lt_of_mem_part {site : Nat} (hw : w ∈ v.parts entered) (hsite : site ∈ w.sites) :
    site ∈ v.sites ∧ v.site < site := by
  have hmem : site ∈ (v.parts entered).flatMap sites := List.mem_flatMap_of_mem hw hsite
  have hne : v.site ∉ (v.parts entered).flatMap sites :=
    (List.nodup_cons.1 (sites_eq entered v ▸ v.sites_nodup)).1
  have hv : site ∈ v.sites := sites_eq entered v ▸ List.mem_cons_of_mem _ hmem
  refine ⟨hv, ?_⟩
  have hle : v.site ≤ site := by
    rw [sites_eq_range'] at hv
    exact (List.mem_range'_1.1 hv).1
  exact Nat.lt_of_le_of_ne hle fun heq => hne (heq ▸ hmem)

/-- Two parts of a node have no site in common. -/
theorem sites_disjoint (hw : w ∈ v.parts entered) (hx : x ∈ v.parts entered) (hne : w ≠ x) :
    w.sites.Disjoint x.sites := by
  have hnodup := (List.nodup_cons.1 (sites_eq entered v ▸ v.sites_nodup)).2
  exact disjoint_of_nodup_flatMap hnodup hw hx hne

/-- A part has fewer sites than the node. -/
theorem siteCount_lt (hw : w ∈ v.parts entered) : w.node.siteCount < v.node.siteCount := by
  have hfirst := (lt_of_mem_part hw w.site_mem_sites).2
  have hpos := w.node.siteCount_pos
  have hlast : w.site + (w.node.siteCount - 1) ∈ w.sites := by
    rw [sites_eq_range', List.mem_range'_1]
    omega
  have hin := (lt_of_mem_part hw hlast).1
  rw [sites_eq_range', List.mem_range'_1] at hin
  omega

/-- Induction from the parts of a node to the node. -/
theorem induct (entered : List String) {motive : Visit → Prop}
    (step : ∀ v, (∀ w ∈ v.parts entered, motive w) → motive v) (v : Visit) : motive v :=
  step v fun w _ => induct entered step w
termination_by v.node.siteCount
decreasing_by exact siteCount_lt ‹_›

theorem points_sites (v : Visit) : ∀ p ∈ v.points entered, p.site ∈ v.sites := by
  induction v using induct entered with
  | step v ih =>
    intro p hp
    rcases mem_points hp with hown | ⟨w, hw, hin | ⟨-, hentry⟩⟩
    · exact hown ▸ v.site_mem_sites
    · exact (lt_of_mem_part hw (ih w hw p hin)).1
    · exact (lt_of_mem_part hw (hentry ▸ w.site_mem_sites)).1

end Sites

/-! ## Walks -/

/-- A walk from a node to another one, from part to part. -/
abbrev Walk (entered : List String) : Visit → Visit → Prop :=
  Relation.ReflTransGen fun v w => w ∈ v.parts entered

section Walks

variable {entered : List String} {v w : Visit}

theorem Walk.sites_subset (h : Walk entered v w) : w.sites ⊆ v.sites := by
  induction h with
  | refl => exact List.Subset.refl _
  | tail _ hstep ih => exact fun _ hsite => ih (lt_of_mem_part hstep hsite).1

/-- A walk that comes to a node of the same site has not left. -/
theorem Walk.eq_of_site (h : Walk entered v w) (hsite : w.site = v.site) : w = v := by
  rcases h.cases_head with rfl | ⟨x, hx, hrest⟩
  · rfl
  · have hmem := Walk.sites_subset hrest w.site_mem_sites
    have hlt := (lt_of_mem_part hx hmem).2
    omega

theorem Walk.points_subset (h : Walk entered v w) : w.points entered ⊆ v.points entered := by
  induction h with
  | refl => exact List.Subset.refl _
  | tail _ hstep ih => exact fun _ hp => ih (points_part hstep hp)

theorem Walk.labels_subset (h : Walk entered v w) : labels w.node ⊆ labels v.node := by
  induction h with
  | refl => exact List.Subset.refl _
  | @tail x y _ hstep ih =>
    refine List.Subset.trans (fun l hl => ?_) ih
    rw [Node.labels_eq x.node, ← nodes_parts entered]
    exact List.mem_append_right _ (List.mem_flatMap_of_mem (List.mem_map_of_mem hstep) hl)

/-- **A walk comes to every node of the tree.** -/
theorem exists_walk (entered : List String) (v : Visit) :
    ∀ site n, (site, n) ∈ v.sited → ∃ live, Walk entered v ⟨live, site, n⟩ := by
  induction v using induct entered with
  | step v ih =>
    intro site n h
    rw [sited_eq entered] at h
    rcases List.mem_cons.1 h with heq | h
    · cases heq
      exact ⟨v.live, .refl⟩
    · obtain ⟨w, hw, hn⟩ := List.mem_flatMap.1 h
      obtain ⟨live, hwalk⟩ := ih w hw site n hn
      exact ⟨live, .head hw hwalk⟩

theorem Walk.mem_sited (h : Walk entered v w) : (w.site, w.node) ∈ v.sited := by
  induction h using Relation.ReflTransGen.head_induction_on with
  | refl =>
    rw [sited_eq entered]
    exact List.mem_cons_self
  | head hstep _ ih =>
    rw [sited_eq entered]
    exact List.mem_cons_of_mem _ (List.mem_flatMap_of_mem hstep ih)

/-- A walk comes to a site in one way only. -/
theorem Walk.unique {x : Visit} (hw : Walk entered v w) (hx : Walk entered v x)
    (hsite : w.site = x.site) : w = x := by
  induction hw using Relation.ReflTransGen.head_induction_on with
  | refl => exact (Walk.eq_of_site hx hsite.symm).symm
  | @head v y hy hrest ih =>
    rcases hx.cases_head with rfl | ⟨z, hz, hrest'⟩
    · exact Walk.eq_of_site (.head hy hrest) hsite
    · by_cases hyz : y = z
      · exact ih (hyz ▸ hrest')
      · have hinY := Walk.sites_subset hrest w.site_mem_sites
        have hinZ := Walk.sites_subset hrest' x.site_mem_sites
        exact absurd (hsite ▸ hinZ) (sites_disjoint hy hz hyz hinY)

/-- The unit of a nested node in a tree is one of the tree's units. -/
theorem unit_of_sited (v : Visit) : ∀ site header root, (site, .nested header root) ∈ v.sited →
    ⟨header, root⟩ ∈ v.node.allUnits := by
  induction v using induct [] with
  | step v ih =>
    intro site header root h
    rw [sited_eq []] at h
    rw [Node.allUnits_eq, ← nodes_parts [], List.flatMap_map, List.mem_append]
    rcases List.mem_cons.1 h with heq | h
    · have hnode : v.node = .nested header root := (Prod.mk.inj heq).2.symm
      rw [hnode]
      exact .inl List.mem_cons_self
    · obtain ⟨w, hw, hin⟩ := List.mem_flatMap.1 h
      exact .inr (List.mem_flatMap.2 ⟨w, hw, ih w hw site header root hin⟩)

/-- What a walk comes to in a plain tree is plain, unless it is a label. -/
theorem Walk.plain (h : Walk entered v w) (hv : Plain v.node) (hw : labelName? w.node = none) :
    Plain w.node := by
  induction h with
  | refl => exact hv
  | @tail x y _ hstep ih =>
    have hx : labelName? x.node = none := by
      obtain ⟨live, site, n⟩ := x
      cases n with
      | label => cases hstep
      | _ => rfl
    obtain ⟨e, hm⟩ := mem_node_parts hstep
    exact (ih hx).part hm fun _ _ => hw

/-- **The labels that live jumps name are those of jumps that a walk finds live.** -/
theorem mem_jumps_iff {l : String} :
    l ∈ (v.exits entered).jumps ↔
      ∃ site r, Walk entered v ⟨true, site, .stmt (.goto l) r⟩ := by
  have own (v : Visit) : l ∈ v.ownJumps ↔ ∃ site r, v = ⟨true, site, .stmt (.goto l) r⟩ := by
    obtain ⟨live, site, n⟩ := v
    cases n with
    | stmt s r => cases s <;> cases live <;> simp [ownJumps, stmtExits, eq_comm]
    | _ => simp [ownJumps]
  induction v using induct entered with
  | step v ih =>
    rw [jumps_eq, List.mem_append, own, List.mem_flatMap]
    constructor
    · rintro (⟨site, r, rfl⟩ | ⟨w, hw, hl⟩)
      · exact ⟨site, r, .refl⟩
      · obtain ⟨site, r, hwalk⟩ := (ih w hw).1 hl
        exact ⟨site, r, .head hw hwalk⟩
    · rintro ⟨site, r, hwalk⟩
      rcases hwalk.cases_head with rfl | ⟨w, hw, hrest⟩
      · exact .inl ⟨site, r, rfl⟩
      · exact .inr ⟨w, hw, (ih w hw).2 ⟨site, r, hrest⟩⟩

end Walks

end Visit

end Analysis

end SpanCoverage
