import SpanCoverage.Proofs.ReadingOrder
import SpanCoverage.Proofs.Walks

/-!
# What spans stand for

`Node.preorder` lists the nodes of a tree in pre-order, and the site of a span is a place in this
list.  The node at that place fits the kind of the span, and the span has the range of the node, or
of the arm, the handler or the `finally` block whose body begins there.

The main results are:

* `Node.preorder_eq`, `Node.mem_sited_iff` — the sites of a tree are the places of its nodes in
  pre-order.
* `Analysis.Visit.exists_marks` — every live point of a tree belongs to one of its nodes.
* `Program.spans_describe` — so every span of an accepted program describes the node that it points
  to.
-/

namespace SpanCoverage

open Analysis

/-! ## Places in pre-order -/

namespace Node

/-- The nodes of a tree in pre-order, where a loop's update comes behind its body.  A nested unit is
one node, and what is inside it does not count. -/
def preorder (n : Node) : List Node := (n.sited 0).map Prod.snd

theorem map_snd_sited_eq (site : Nat) (n : Node)
    (h : ∀ m ∈ n.parts.map Prod.snd, ∀ site, (m.sited site).map Prod.snd = m.preorder) :
    (n.sited site).map Prod.snd = n :: (n.parts.map Prod.snd).flatMap preorder := by
  have parts := Visit.nodes_parts [] ⟨true, site, n⟩
  rw [show n.sited site = _ from Visit.sited_eq [] ⟨true, site, n⟩, List.map_cons, List.map_flatMap,
    ← parts, List.flatMap_map]
  refine congrArg (List.cons n) (List.flatMap_congr fun w hw => ?_)
  refine h w.node ?_ w.site
  rw [← parts]
  exact List.mem_map_of_mem hw

/-- Wherever a tree stands, its nodes come in one order. -/
theorem map_snd_sited (n : Node) : ∀ site, (n.sited site).map Prod.snd = n.preorder := by
  induction n using Node.induct_parts with
  | whole n _ ih =>
    exact fun site => (map_snd_sited_eq site n ih).trans (map_snd_sited_eq 0 n ih).symm
  | nested => exact fun _ => rfl

/-- **In pre-order a node comes first, and then the nodes of its parts.** -/
theorem preorder_eq (n : Node) : n.preorder = n :: (n.parts.map Prod.snd).flatMap preorder :=
  map_snd_sited_eq 0 n fun m _ => m.map_snd_sited

/-- A tree has as many sites as nodes. -/
theorem length_preorder (n : Node) : n.preorder.length = n.siteCount := by
  have sites := congrArg List.length (n.sited_sites 0)
  rw [List.length_map, List.length_range'] at sites
  rw [preorder, List.length_map, sites]

/-- **The site of a node is its place in pre-order.** -/
theorem mem_sited_iff {root n : Node} {site : Nat} :
    (site, n) ∈ root.sited 0 ↔ root.preorder[site]? = some n := by
  -- the sites come without a gap from zero on, so each is its own place in the list
  have place {i : Nat} {q : Nat × Node} (h : (root.sited 0)[i]? = some q) : i = q.1 := by
    have hfst : ((root.sited 0).map Prod.fst)[i]? = some q.1 := by
      rw [List.getElem?_map, h, Option.map_some]
    rw [sited_sites, List.getElem?_eq_some_iff] at hfst
    obtain ⟨hi, hfst⟩ := hfst
    rw [← hfst, List.getElem_range']
    omega
  rw [preorder, List.getElem?_map, Option.map_eq_some_iff]
  constructor
  · intro h
    obtain ⟨i, hi⟩ := List.mem_iff_getElem?.1 h
    obtain rfl := place hi
    exact ⟨_, hi, rfl⟩
  · rintro ⟨⟨site', n⟩, h, rfl⟩
    obtain rfl := place h
    exact List.mem_of_getElem? h

/-- The node with all its tree stands in the tree around it. -/
theorem sited_subset {root n : Node} {site : Nat} (h : (site, n) ∈ root.sited 0) :
    n.sited site ⊆ root.sited 0 := by
  obtain ⟨live, walk⟩ := Visit.exists_walk [] ⟨true, 0, root⟩ site n h
  intro q hq
  obtain ⟨live', walk'⟩ := Visit.exists_walk [] ⟨live, site, n⟩ q.1 q.2 hq
  exact Visit.Walk.mem_sited (walk.trans walk')

/-! ### Places of bodies -/

/-- The number of sites of several trees is the number of their nodes. -/
theorem length_flatMap_preorder (ns : List Node) :
    (ns.flatMap preorder).length = siteCountAll ns := by
  induction ns with
  | nil => rfl
  | cons n ns ih => rw [List.flatMap_cons, List.length_append, length_preorder, ih, siteCountAll]

theorem siteCountArms_eq (arms : List Arm) :
    siteCountArms arms = siteCountAll (arms.map Arm.body) := by
  induction arms with
  | nil => rfl
  | cons a arms ih =>
    obtain ⟨case, body, range⟩ := a
    exact congrArg (body.siteCount + ·) ih

theorem siteCountHandlers_eq (handlers : List Handler) :
    siteCountHandlers handlers = siteCountAll (handlers.map Handler.body) := by
  induction handlers with
  | nil => rfl
  | cons a handlers ih =>
    obtain ⟨binding, body, range⟩ := a
    exact congrArg (body.siteCount + ·) ih

theorem mem_sited_self (site : Nat) (n : Node) : (site, n) ∈ n.sited site := by
  cases n <;> exact List.mem_cons_self

theorem mem_sitedArms {site : Nat} {before after : List Arm} {a : Arm} :
    (site + siteCountArms before, a.body) ∈ sitedArms site (before ++ a :: after) := by
  induction before generalizing site with
  | nil =>
    obtain ⟨_, body, _⟩ := a
    exact List.mem_append_left _ (body.mem_sited_self site)
  | cons b before ih =>
    obtain ⟨_, body, _⟩ := b
    rw [siteCountArms, ← Nat.add_assoc]
    exact List.mem_append_right _ ih

theorem mem_sitedHandlers {site : Nat} {before after : List Handler} {a : Handler} :
    (site + siteCountHandlers before, a.body) ∈ sitedHandlers site (before ++ a :: after) := by
  induction before generalizing site with
  | nil =>
    obtain ⟨_, body, _⟩ := a
    exact List.mem_append_left _ (body.mem_sited_self site)
  | cons b before ih =>
    obtain ⟨_, body, _⟩ := b
    rw [siteCountHandlers, ← Nat.add_assoc]
    exact List.mem_append_right _ ih

end Node

/-! ## Points of nodes -/

/-- The points of a node with its site: its own, and those where its blocks are entered. -/
inductive Marks (site : Nat) : Node → Point → Prop
  | statement {s : Stmt} {r : SourceRange} : Marks site (.stmt s r) ⟨.statement, site, r⟩
  | branch {c : Expr} {t : Node} {e : Option Node} {r : SourceRange} :
    Marks site (.branch c t e r) ⟨.condition, site, r⟩
  | loop {k : TestTime} {i : Option Node} {c : Expr} {u : Option Node} {b : Node}
    {r : SourceRange} : Marks site (.loop k i c u b r) ⟨.loopHeader, site, r⟩
  | switch {v : Expr} {arms : List Arm} {r : SourceRange} :
    Marks site (.switch v arms r) ⟨.condition, site, r⟩
  | arm {v : Expr} {before : List Arm} {a : Arm} {after : List Arm} {r : SourceRange} :
    Marks site (.switch v (before ++ a :: after) r)
      ⟨.switchArm, site + 1 + Node.siteCountArms before, a.range⟩
  | handler {b : Node} {before : List Handler} {a : Handler} {after : List Handler}
    {f : Option Node} {r : SourceRange} :
    Marks site (.attempt b (before ++ a :: after) f r)
      ⟨.catchEntry, site + 1 + b.siteCount + Node.siteCountHandlers before, a.range⟩
  | cleanup {b : Node} {handlers : List Handler} {f : Node} {r : SourceRange} :
    Marks site (.attempt b handlers (some f) r)
      ⟨.finallyEntry, site + 1 + b.siteCount + Node.siteCountHandlers handlers, f.range⟩
  | resource {k : GuardKind} {e : Expr} {b : Node} {r : SourceRange} :
    Marks site (.guarded k e b r) ⟨.scopeAcquire, site, r⟩
  | label {l : String} {r : SourceRange} : Marks site (.label l r) ⟨.label, site, r⟩

namespace Analysis.Visit

section Marks

variable {entered : List String} {live : Bool} {site : Nat} {p : Point}

theorem mem_pointsArms {arms : List Arm} (h : p ∈ pointsArms entered live site arms) :
    (∃ w ∈ ofArms live site arms, p ∈ w.points entered) ∨
      ∃ before a after, arms = before ++ a :: after ∧
        p = ⟨.switchArm, site + Node.siteCountArms before, a.range⟩ := by
  induction arms generalizing site with
  | nil => cases h
  | cons a arms ih =>
    obtain ⟨case, body, range⟩ := a
    rw [pointsArms, List.mem_append, List.mem_append, mem_mark] at h
    rcases h with (⟨-, rfl⟩ | hbody) | hrest
    · exact .inr ⟨[], _, arms, rfl, rfl⟩
    · exact .inl ⟨_, List.mem_cons_self, hbody⟩
    · rcases ih hrest with ⟨w, hw, hp⟩ | ⟨before, b, after, rfl, rfl⟩
      · exact .inl ⟨w, List.mem_cons_of_mem _ hw, hp⟩
      · refine .inr ⟨_ :: before, b, after, rfl, ?_⟩
        rw [Node.siteCountArms, ← Nat.add_assoc]

theorem mem_pointsHandlers {handlers : List Handler}
    (h : p ∈ pointsHandlers entered live site handlers) :
    (∃ w ∈ ofHandlers live site handlers, p ∈ w.points entered) ∨
      ∃ before a after, handlers = before ++ a :: after ∧
        p = ⟨.catchEntry, site + Node.siteCountHandlers before, a.range⟩ := by
  induction handlers generalizing site with
  | nil => cases h
  | cons a handlers ih =>
    obtain ⟨binding, body, range⟩ := a
    rw [pointsHandlers, List.mem_append, List.mem_append, mem_mark] at h
    rcases h with (⟨-, rfl⟩ | hbody) | hrest
    · exact .inr ⟨[], _, handlers, rfl, rfl⟩
    · exact .inl ⟨_, List.mem_cons_self, hbody⟩
    · rcases ih hrest with ⟨w, hw, hp⟩ | ⟨before, b, after, rfl, rfl⟩
      · exact .inl ⟨w, List.mem_cons_of_mem _ hw, hp⟩
      · refine .inr ⟨_ :: before, b, after, rfl, ?_⟩
        rw [Node.siteCountHandlers, ← Nat.add_assoc]

/-- A live point of a tree is one of its root, or one of a part. -/
theorem marks_or_part {v : Visit} (h : p ∈ v.points entered) :
    Marks v.site v.node p ∨ ∃ w ∈ v.parts entered, p ∈ w.points entered := by
  obtain ⟨live, site, n⟩ := v
  cases n with
  | stmt s r =>
    obtain ⟨-, rfl⟩ := mem_mark.1 h
    exact .inl .statement
  | seq ns => exact .inr (mem_points_ofAll.1 h)
  | branch c t e r =>
    simp only [points, Analysis.points, List.mem_append, mem_points_of?] at h
    rcases h with (h | h) | ⟨w, hw, h⟩
    · obtain ⟨-, rfl⟩ := mem_mark.1 h
      exact .inl .branch
    · exact .inr ⟨_, List.mem_cons_self, h⟩
    · exact .inr ⟨w, List.mem_cons_of_mem _ hw, h⟩
  | loop test i c u b r =>
    -- the header is the loop's own point, also where it comes last
    rcases mem_points_loop.1 h with h | h
    · obtain ⟨-, rfl⟩ := mem_mark.1 h
      exact .inl .loop
    · exact .inr h
  | switch value arms r =>
    rcases List.mem_append.1 h with h | h
    · obtain ⟨-, rfl⟩ := mem_mark.1 h
      exact .inl .switch
    · rcases mem_pointsArms h with h | ⟨before, a, after, rfl, rfl⟩
      · exact .inr h
      · exact .inl .arm
  | attempt b handlers f r =>
    simp only [points, Analysis.points, List.mem_append, mem_points_of?] at h
    rcases h with ((h | h) | h) | ⟨w, hw, h⟩
    · exact .inr ⟨_, List.mem_cons_self, h⟩
    · rcases mem_pointsHandlers h with ⟨w, hw, h⟩ | ⟨before, a, after, rfl, rfl⟩
      · exact .inr ⟨w, List.mem_append_left _ (List.mem_cons_of_mem _ hw), h⟩
      · exact .inl .handler
    · cases f with
      | none => cases h
      | some n =>
        obtain ⟨-, rfl⟩ := mem_mark.1 h
        exact .inl .cleanup
    · exact .inr ⟨w, List.mem_append_right _ hw, h⟩
  | guarded k e b r =>
    rcases List.mem_append.1 h with h | h
    · obtain ⟨-, rfl⟩ := mem_mark.1 h
      exact .inl .resource
    · exact .inr ⟨_, List.mem_singleton.2 rfl, h⟩
  | label l r =>
    obtain ⟨-, rfl⟩ := mem_mark.1 h
    exact .inl .label
  | nested | probe | acquire => cases h

/-- **Every live point of a tree belongs to one of its nodes.** -/
theorem exists_marks (v : Visit) :
    ∀ p ∈ v.points entered, ∃ q ∈ v.sited, Marks q.1 q.2 p := by
  induction v using induct entered with
  | step v ih =>
    intro p hp
    rw [sited_eq entered]
    rcases marks_or_part hp with hown | ⟨w, hw, hp⟩
    · exact ⟨_, List.mem_cons_self, hown⟩
    · obtain ⟨q, hq, hmarks⟩ := ih w hw p hp
      exact ⟨q, List.mem_cons_of_mem _ (List.mem_flatMap_of_mem hw hq), hmarks⟩

end Marks

end Analysis.Visit

/-! ## Spans of units -/

/-- The kind of span that a node has at its own site. -/
def Node.spanKind? : Node → Option SpanKind
  | .stmt .. => some .statement
  | .branch .. | .switch .. => some .condition
  | .loop .. => some .loopHeader
  | .guarded .. => some .scopeAcquire
  | .label .. => some .label
  | .seq _ | .attempt .. | .nested .. | .probe _ | .acquire => none

/-- What a point of a unit stands for: a node that its kind fits, or the root of an arm, a handler
or a `finally` block.  Its site is the node's place in pre-order; that of a body comes behind the
node it belongs to and the bodies in front of it. -/
inductive Describes (root : Node) (p : Point) : Prop
  | node {n : Node} (node_eq : root.preorder[p.site]? = some n)
    (kind_eq : n.spanKind? = some p.kind) (range_eq : p.range = n.range)
  | arm {i : Nat} {v : Expr} {before : List Arm} {a : Arm} {after : List Arm} {r : SourceRange}
    (switch_eq : root.preorder[i]? = some (.switch v (before ++ a :: after) r))
    (site_eq : p.site = i + 1 + ((before.map Arm.body).flatMap Node.preorder).length)
    (body_eq : root.preorder[p.site]? = some a.body) (kind_eq : p.kind = .switchArm)
    (range_eq : p.range = a.range)
  | handler {i : Nat} {b : Node} {before : List Handler} {a : Handler} {after : List Handler}
    {f : Option Node} {r : SourceRange}
    (attempt_eq : root.preorder[i]? = some (.attempt b (before ++ a :: after) f r))
    (site_eq : p.site = i + 1 + ((b :: before.map Handler.body).flatMap Node.preorder).length)
    (body_eq : root.preorder[p.site]? = some a.body) (kind_eq : p.kind = .catchEntry)
    (range_eq : p.range = a.range)
  | cleanup {i : Nat} {b : Node} {handlers : List Handler} {f : Node} {r : SourceRange}
    (attempt_eq : root.preorder[i]? = some (.attempt b handlers (some f) r))
    (site_eq : p.site = i + 1 + ((b :: handlers.map Handler.body).flatMap Node.preorder).length)
    (body_eq : root.preorder[p.site]? = some f) (kind_eq : p.kind = .finallyEntry)
    (range_eq : p.range = f.range)

namespace Describes

variable {root n : Node} {site : Nat} {p : Point}

/-- Only the unit itself has an entry. -/
theorem kind_ne_entry (h : Describes root p) : p.kind ≠ .entry := by
  cases h with
  | @node n node_eq kind_eq =>
    intro hentry
    rw [hentry] at kind_eq
    cases n <;> simp [Node.spanKind?] at kind_eq
  | arm _ _ _ kind_eq | handler _ _ _ kind_eq | cleanup _ _ _ kind_eq => simp [kind_eq]

/-- The point of a node in a tree describes the node. -/
theorem of_marks (hn : (site, n) ∈ root.sited 0) (h : Marks site n p) : Describes root p := by
  have place {i : Nat} {m : Node} (hm : (i, m) ∈ n.sited site) : root.preorder[i]? = some m :=
    Node.mem_sited_iff.1 (Node.sited_subset hn hm)
  have self := place (n.mem_sited_self site)
  -- a body stands behind the node it belongs to and behind the bodies in front of it
  cases h with
  | statement | branch | loop | switch | resource | label => exact .node self rfl rfl
  | @arm v before a after r =>
    refine .arm self ?_ (place ?_) rfl rfl
    · rw [Node.length_flatMap_preorder, ← Node.siteCountArms_eq]
    · exact List.mem_cons_of_mem _ Node.mem_sitedArms
  | @handler b before a after f r =>
    refine .handler self ?_ (place ?_) rfl rfl
    · rw [Node.length_flatMap_preorder, Node.siteCountAll, ← Node.siteCountHandlers_eq,
        Nat.add_assoc]
    · exact List.mem_cons_of_mem _ (List.mem_append_left _ (List.mem_append_right _
        Node.mem_sitedHandlers))
  | @cleanup b handlers f r =>
    refine .cleanup self ?_ (place ?_) rfl rfl
    · rw [Node.length_flatMap_preorder, Node.siteCountAll, ← Node.siteCountHandlers_eq,
        Nat.add_assoc]
    · exact List.mem_cons_of_mem _ (List.mem_append_right _ (f.mem_sited_self _))

end Describes

/-- Numbering changes no point. -/
theorem SpanTable.map_point_number (start : Nat) (ps : List Point) :
    (number start ps).map Span.point = ps := by
  induction ps generalizing start with
  | nil => rfl
  | cons p ps ih => rw [number, List.map_cons, ih]; rfl

/-- A table describes a unit: its spans are numbered by their places, the first is the entry of the
unit and no other is one, no two have the same site and kind, and each of the others describes what
it points to. -/
structure SpanTable.DescribesUnit (t : SpanTable) (u : CodeUnit) : Prop where
  index_eq : ∀ (i : Nat) (s : Span), t.spans[i]? = some s → s.index = i
  entry_eq : t.spans.head? = some ⟨0, .entry, 0, u.range⟩
  entry_only : ∀ s ∈ t.spans.tail, s.kind ≠ .entry
  distinct : (t.spans.map fun s => (s.site, s.kind)).Nodup
  describes : ∀ s ∈ t.spans.tail, Describes u.root s.point

/-- The span table of a valid unit describes the unit. -/
theorem CodeUnit.spanMap_describes {u : CodeUnit} (h : u.defects = []) :
    u.spanMap.spans.DescribesUnit u := by
  have describes : ∀ s ∈ u.spanMap.spans.spans.tail, Describes u.root s.point := by
    intro s hs
    have hpoint : s.point ∈ (SpanTable.number 1 _).map Span.point := List.mem_map_of_mem hs
    rw [SpanTable.map_point_number] at hpoint
    obtain ⟨q, hq, hmarks⟩ := Visit.exists_marks ⟨true, 0, u.root⟩ s.point hpoint
    exact .of_marks hq hmarks
  exact {
    index_eq := fun i s hs => by
      obtain ⟨hi, rfl⟩ := List.getElem?_eq_some_iff.1 hs
      exact u.spanMap.spans.index_getElem hi
    entry_eq := rfl
    entry_only := fun s hs => (describes s hs).kind_ne_entry
    distinct := distinct_spans h
    describes := describes }

/-- **Every span describes the node that it points to**, in every unit of an accepted program. -/
theorem Program.spans_describe {p : Program} {coverage : CoverageMap}
    (accepted : p.analyze = .ok coverage) :
    List.Forall₂ (fun u known => known.token = u.token ∧ known.spans.DescribesUnit u)
      p.allUnits coverage.units := by
  obtain ⟨hvalid, hunits, -⟩ := Program.analyze_ok accepted
  rw [hunits, List.forall₂_map_right_iff, List.forall₂_same]
  exact fun u hu => ⟨rfl, CodeUnit.spanMap_describes (hvalid u hu)⟩

/-! ## An example -/

/-- The spans of a program with a loop that tests behind its update, a switch, and a `try` block. -/
theorem countdown_described : countdown.analyze = .ok countdownMap ∧
    List.Forall₂ (fun u known => known.token = u.token ∧ known.spans.DescribesUnit u)
      countdown.allUnits countdownMap.units :=
  ⟨countdown_analyze, Program.spans_describe countdown_analyze⟩

end SpanCoverage
