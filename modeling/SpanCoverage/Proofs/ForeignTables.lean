import SpanCoverage.Proofs.ReadingOrder
import SpanCoverage.Proofs.Walks

/-!
# Tables that were made for other units

A coverage map comes from outside, and the table it has for a unit need not be the unit's own: its
spans may stand for points that the unit does not have, and several of them for one point.  Such a
table is refused as a whole.  Where the injection succeeds, the code has each probe of the table
once.

The main results are:

* `Injection.mem_probePoints` — the points that take a probe, from the nodes of the tree.
* `SpanTable.placement_eq_some_iff_last` — of several spans with one point the last has the probe.
* `CodeUnit.wholeOrNothing` — what becomes of a unit with any table.
* `CodeUnit.instrumentAll_whole_or_nothing` — what becomes of a body with any map.
-/

namespace SpanCoverage

/-! ## Points that take a probe -/

namespace Injection

/-- The points at which a node takes a probe: its own, those where its blocks are entered, and those
of the labels that stand directly in it. -/
inductive Takes (site : Nat) : Node → Nat × SpanKind → Prop
  | statement {s : Stmt} {r : SourceRange} : Takes site (.stmt s r) (site, .statement)
  | branch {c : Expr} {t : Node} {e : Option Node} {r : SourceRange} :
    Takes site (.branch c t e r) (site, .condition)
  | loop {k : TestTime} {i : Option Node} {c : Expr} {u : Option Node} {b : Node}
    {r : SourceRange} : Takes site (.loop k i c u b r) (site, .loopHeader)
  | switch {v : Expr} {arms : List Arm} {r : SourceRange} :
    Takes site (.switch v arms r) (site, .condition)
  | arm {v : Expr} {before : List Arm} {a : Arm} {after : List Arm} {r : SourceRange} :
    Takes site (.switch v (before ++ a :: after) r)
      (site + 1 + Node.siteCountArms before, .switchArm)
  | handler {b : Node} {before : List Handler} {a : Handler} {after : List Handler}
    {f : Option Node} {r : SourceRange} :
    Takes site (.attempt b (before ++ a :: after) f r)
      (site + 1 + b.siteCount + Node.siteCountHandlers before, .catchEntry)
  | cleanup {b : Node} {handlers : List Handler} {f : Node} {r : SourceRange} :
    Takes site (.attempt b handlers (some f) r)
      (site + 1 + b.siteCount + Node.siteCountHandlers handlers, .finallyEntry)
  | resource {k : GuardKind} {e : Expr} {b : Node} {r : SourceRange} :
    Takes site (.guarded k e b r) (site, .scopeAcquire)
  | label {before : List Node} {l : String} {r : SourceRange} {after : List Node} :
    Takes site (.seq (before ++ .label l r :: after))
      (site + 1 + Node.siteCountAll before, .label)

/-- One of these nodes takes a probe at the point. -/
def TakenIn (nodes : List (Nat × Node)) (key : Nat × SpanKind) : Prop :=
  ∃ q ∈ nodes, Takes q.1 q.2 key

section Members

variable {site : Nat} {key : Nat × SpanKind}

@[simp] theorem takenIn_nil : TakenIn [] key ↔ False := by simp [TakenIn]

@[simp] theorem takenIn_cons {n : Node} {nodes : List (Nat × Node)} :
    TakenIn ((site, n) :: nodes) key ↔ Takes site n key ∨ TakenIn nodes key := by
  simp [TakenIn]

@[simp] theorem takenIn_append {nodes nodes' : List (Nat × Node)} :
    TakenIn (nodes ++ nodes') key ↔ TakenIn nodes key ∨ TakenIn nodes' key := by
  simp [TakenIn, or_and_right, exists_or]

theorem takes_seq {ns : List Node} :
    Takes site (.seq ns) key ↔ ∃ before n after, ns = before ++ n :: after ∧
      (∃ l r, n = .label l r) ∧ key = (site + 1 + Node.siteCountAll before, .label) := by
  constructor
  · rintro ⟨⟩
    exact ⟨_, _, _, rfl, ⟨_, _, rfl⟩, rfl⟩
  · rintro ⟨before, n, after, rfl, ⟨l, r, rfl⟩, rfl⟩
    exact .label

theorem takes_switch {v : Expr} {arms : List Arm} {r : SourceRange} :
    Takes site (.switch v arms r) key ↔ key = (site, .condition) ∨
      ∃ before a after, arms = before ++ a :: after ∧
        key = (site + 1 + Node.siteCountArms before, .switchArm) := by
  constructor
  · rintro (_ | _)
    · exact .inl rfl
    · exact .inr ⟨_, _, _, rfl, rfl⟩
  · rintro (rfl | ⟨before, a, after, rfl, rfl⟩)
    · exact .switch
    · exact .arm

theorem takes_attempt {b : Node} {handlers : List Handler} {f : Option Node} {r : SourceRange} :
    Takes site (.attempt b handlers f r) key ↔
      (∃ before a after, handlers = before ++ a :: after ∧
        key = (site + 1 + b.siteCount + Node.siteCountHandlers before, .catchEntry)) ∨
      (f.isSome ∧
        key = (site + 1 + b.siteCount + Node.siteCountHandlers handlers, .finallyEntry)) := by
  constructor
  · rintro (_ | _)
    · exact .inl ⟨_, _, _, rfl, rfl⟩
    · exact .inr ⟨rfl, rfl⟩
  · rintro (⟨before, a, after, rfl, rfl⟩ | ⟨hf, rfl⟩)
    · exact .handler
    · obtain ⟨n, rfl⟩ := Option.isSome_iff_exists.1 hf
      exact .cleanup

theorem mem_probePoints? {e : Option Node}
    (h : ∀ n ∈ e, ∀ site, key ∈ probePoints site n ↔ TakenIn (n.sited site) key) :
    key ∈ probePoints? site e ↔ TakenIn (Node.sited? site e) key := by
  cases e with
  | none => simp [probePoints?, Node.sited?]
  | some n => exact h n rfl site

theorem mem_probePointsAll {ns : List Node}
    (h : ∀ n ∈ ns, ∀ site, key ∈ probePoints site n ↔ TakenIn (n.sited site) key) :
    key ∈ probePointsAll site ns ↔
      (∃ before n after, ns = before ++ n :: after ∧
        (∃ l r, n = .label l r) ∧ key = (site + Node.siteCountAll before, .label)) ∨
      TakenIn (Node.sitedAll site ns) key := by
  induction ns generalizing site with
  | nil => simp [probePointsAll, Node.sitedAll]
  | cons n ns ih =>
    simp only [List.mem_cons, forall_eq_or_imp] at h
    have hsplit : key ∈ probePointsAll site (n :: ns) ↔
        (((∃ l r, n = .label l r) ∧ key = (site, .label)) ∨ key ∈ probePoints site n) ∨
          key ∈ probePointsAll (site + n.siteCount) ns := by
      cases n <;> simp [probePointsAll, or_assoc]
    rw [hsplit, h.1, ih h.2, exists_split_cons, Node.sitedAll, takenIn_append]
    simp only [Node.siteCountAll, Nat.add_zero, ← Nat.add_assoc]
    exact or_or_or_comm ..

theorem mem_probePointsArms {arms : List Arm}
    (h : ∀ a ∈ arms, ∀ site, key ∈ probePoints site a.body ↔ TakenIn (a.body.sited site) key) :
    key ∈ probePointsArms site arms ↔
      (∃ before a after, arms = before ++ a :: after ∧
        key = (site + Node.siteCountArms before, .switchArm)) ∨
      TakenIn (Node.sitedArms site arms) key := by
  induction arms generalizing site with
  | nil => simp [probePointsArms, Node.sitedArms]
  | cons a arms ih =>
    simp only [List.mem_cons, forall_eq_or_imp] at h
    rw [exists_split_cons]
    obtain ⟨case, body, range⟩ := a
    simp only [Node.siteCountArms, Nat.add_zero, ← Nat.add_assoc]
    rw [probePointsArms, List.mem_append, ih h.2, Node.sitedArms, takenIn_append, List.mem_cons,
      h.1]
    exact or_or_or_comm ..

theorem mem_probePointsHandlers {handlers : List Handler}
    (h : ∀ a ∈ handlers, ∀ site,
      key ∈ probePoints site a.body ↔ TakenIn (a.body.sited site) key) :
    key ∈ probePointsHandlers site handlers ↔
      (∃ before a after, handlers = before ++ a :: after ∧
        key = (site + Node.siteCountHandlers before, .catchEntry)) ∨
      TakenIn (Node.sitedHandlers site handlers) key := by
  induction handlers generalizing site with
  | nil => simp [probePointsHandlers, Node.sitedHandlers]
  | cons a handlers ih =>
    simp only [List.mem_cons, forall_eq_or_imp] at h
    rw [exists_split_cons]
    obtain ⟨binding, body, range⟩ := a
    simp only [Node.siteCountHandlers, Nat.add_zero, ← Nat.add_assoc]
    rw [probePointsHandlers, List.mem_append, ih h.2, Node.sitedHandlers, takenIn_append,
      List.mem_cons, h.1]
    exact or_or_or_comm ..

/-- **The points of a tree that take a probe are those of its nodes.** -/
theorem mem_probePoints (n : Node) :
    ∀ site, key ∈ probePoints site n ↔ TakenIn (n.sited site) key := by
  -- A node with one point of its own.
  have own {site : Nat} {n : Node} {kind : SpanKind} (h : Takes site n (site, kind))
      (honly : ∀ key, Takes site n key → key = (site, kind)) :
      key = (site, kind) ↔ Takes site n key :=
    ⟨fun hkey => hkey ▸ h, honly key⟩
  induction n using Node.induct with
  | stmt s r =>
    intro site
    simp only [probePoints, Node.sited, takenIn_cons, takenIn_nil, or_false, List.mem_singleton]
    exact own .statement (by rintro _ ⟨⟩; rfl)
  | seq ns ih =>
    intro site
    rw [probePoints, mem_probePointsAll ih, Node.sited, takenIn_cons, takes_seq]
  | branch c t e r iht ihe =>
    intro site
    simp only [probePoints, Node.sited, takenIn_cons, takenIn_append, List.mem_append,
      List.mem_cons, iht, mem_probePoints? ihe, or_assoc]
    rw [own .branch (by rintro _ ⟨⟩; rfl)]
  | loop k i c u b r ihi ihu ihb =>
    intro site
    simp only [probePoints, Node.sited, takenIn_cons, takenIn_append, List.mem_append,
      List.mem_cons, ihb, mem_probePoints? ihi, mem_probePoints? ihu, or_assoc]
    rw [own .loop (by rintro _ ⟨⟩; rfl)]
  | switch v arms r ih =>
    intro site
    rw [probePoints, List.mem_cons, mem_probePointsArms ih, Node.sited, takenIn_cons, takes_switch,
      or_assoc]
  | attempt b handlers f r ihb ihh ihf =>
    intro site
    have hfinally (finallySite : Nat) :
        key ∈ (if f.isSome then [(finallySite, SpanKind.finallyEntry)] else []) ↔
          f.isSome ∧ key = (finallySite, .finallyEntry) := by
      cases f <;> simp
    simp only [probePoints, Node.sited, takenIn_cons, takenIn_append, List.mem_append, ihb,
      mem_probePointsHandlers ihh, mem_probePoints? ihf, hfinally, takes_attempt]
    grind only
  | guarded k e b r ihb =>
    intro site
    simp only [probePoints, Node.sited, takenIn_cons, List.mem_cons, ihb]
    rw [own .resource (by rintro _ ⟨⟩; rfl)]
  | label | nested | probe | acquire =>
    intro site
    simp only [probePoints, Node.sited, takenIn_cons, takenIn_nil, or_false, List.not_mem_nil,
      false_iff]
    rintro ⟨⟩

end Members

end Injection

/-- The points of a unit that take a probe: its entry, and those of its nodes, but not of the nodes
of units nested in it. -/
def CodeUnit.TakesProbe (u : CodeUnit) (key : Nat × SpanKind) : Prop :=
  key = (0, .entry) ∨ ∃ q ∈ u.root.sited 0, Injection.Takes q.1 q.2 key

theorem CodeUnit.mem_probePoints_iff {u : CodeUnit} {key : Nat × SpanKind} :
    key ∈ u.probePoints ↔ u.TakesProbe key := by
  rw [probePoints, List.mem_cons, Injection.mem_probePoints]
  rfl

/-! ## Spans without a probe -/

namespace SpanTable

variable {t : SpanTable}

theorem indices_increase (t : SpanTable) : t.spans.Pairwise fun s s' => s.index < s'.index := by
  rw [← List.pairwise_map, t.indices_eq]
  exact List.pairwise_lt_range

theorem index_lt_size {s : Span} (hs : s ∈ t.spans) : s.index < t.size := by
  have hmem := List.mem_map_of_mem (f := Span.index) hs
  rw [t.indices_eq, List.mem_range] at hmem
  exact hmem

theorem exists_span_of_lt {i : Nat} (hi : i < t.size) : ∃ s ∈ t.spans, s.index = i :=
  ⟨_, List.getElem_mem hi, t.index_getElem hi⟩

theorem eq_of_index_eq {s s' : Span} (hs : s ∈ t.spans) (hs' : s' ∈ t.spans)
    (h : s.index = s'.index) : s = s' := by
  have hnodup : (t.spans.map Span.index).Nodup := t.indices_eq ▸ List.nodup_range
  exact List.inj_on_of_nodup_map hnodup hs hs' h

/-- **Of several spans with one point the last has the probe.** -/
theorem placement_eq_some_iff_last {site : Nat} {kind : SpanKind} {i : Nat} :
    t.placement site kind = some i ↔ ∃ s ∈ t.spans, s.key = (site, kind) ∧ s.index = i ∧
      ∀ s' ∈ t.spans, s'.key = (site, kind) → s'.index ≤ i := by
  have hkey (s : Span) : (s.site == site && s.kind == kind) = true ↔ s.key = (site, kind) := by
    rw [Bool.and_eq_true, beq_iff_eq, beq_iff_eq]
    exact ⟨fun hs => Prod.ext hs.1 hs.2, fun hs => Prod.mk.inj hs⟩
  have hmem (s : Span) : s ∈ t.spans.filter (fun s => s.site == site && s.kind == kind) ↔
      s ∈ t.spans ∧ s.key = (site, kind) := by
    rw [List.mem_filter, hkey]
  have hincrease := t.indices_increase.filter fun s => s.site == site && s.kind == kind
  unfold placement
  generalize t.spans.filter (fun s => s.site == site && s.kind == kind) = claims at hmem hincrease
  have last_le {last : Span} (hlast : claims.getLast? = some last) (s : Span) (hs : s ∈ claims) :
      s.index ≤ last.index := by
    rw [← List.dropLast_append_getLast? last hlast] at hs hincrease
    rcases List.mem_append.1 hs with hs | hs
    · exact Nat.le_of_lt ((List.pairwise_append.1 hincrease).2.2 s hs last List.mem_cons_self)
    · exact Nat.le_of_eq (congrArg Span.index (List.mem_singleton.1 hs))
  constructor
  · intro hplace
    obtain ⟨last, hlast, rfl⟩ := Option.map_eq_some_iff.1 hplace
    obtain ⟨hspan, hpoint⟩ := (hmem last).1 (List.mem_of_getLast? hlast)
    exact ⟨last, hspan, hpoint, rfl, fun s hs hs' => last_le hlast s ((hmem s).2 ⟨hs, hs'⟩)⟩
  · rintro ⟨s, hs, hpoint, rfl, hmax⟩
    have hclaim := (hmem s).2 ⟨hs, hpoint⟩
    obtain ⟨last, hlast⟩ := Option.isSome_iff_exists.1
      (List.getLast?_isSome.2 (List.ne_nil_of_mem hclaim))
    obtain ⟨hspan, hlastPoint⟩ := (hmem last).1 (List.mem_of_getLast? hlast)
    have hsame : last.index = s.index :=
      Nat.le_antisymm (hmax last hspan hlastPoint) (last_le hlast s hclaim)
    rw [hlast, Option.map_some, hsame]

/-- Spans are placed at different points with different indices. -/
theorem placed_nodup {points : List (Nat × SpanKind)} (h : points.Nodup) :
    (t.placed points).Nodup := by
  refine h.filterMap fun k k' i hi hi' => ?_
  obtain ⟨s, hs, hkey, hindex, -⟩ := placement_eq_some_iff_last.1 hi
  obtain ⟨s', hs', hkey', hindex', -⟩ := placement_eq_some_iff_last.1 hi'
  have hsame := eq_of_index_eq hs hs' (hindex.trans hindex'.symm)
  exact hkey.symm.trans ((congrArg Span.key hsame).trans hkey')

end SpanTable

namespace CodeUnit

variable {u : CodeUnit} {t : SpanTable}

/-- The span of a table finds no probe in a unit: the unit takes none at the span's point, or a
later span has it. -/
def Loses (u : CodeUnit) (t : SpanTable) (s : Span) : Prop :=
  ¬ u.TakesProbe s.key ∨ ∃ s' ∈ t.spans, s'.key = s.key ∧ s.index < s'.index

theorem not_loses_iff {s : Span} :
    ¬ u.Loses t s ↔
      u.TakesProbe s.key ∧ ∀ s' ∈ t.spans, s'.key = s.key → s'.index ≤ s.index := by
  simp only [Loses, not_or, not_not, not_exists, not_and, Nat.not_lt]

theorem mem_placed_iff {s : Span} (hs : s ∈ t.spans) :
    s.index ∈ t.placed u.probePoints ↔ ¬ u.Loses t s := by
  rw [SpanTable.placed, List.mem_filterMap, not_loses_iff]
  constructor
  · rintro ⟨k, hk, hplace⟩
    obtain ⟨s', hs', hkey, hindex, hmax⟩ := SpanTable.placement_eq_some_iff_last.1 hplace
    obtain rfl := SpanTable.eq_of_index_eq hs' hs hindex
    obtain rfl : s'.key = k := hkey
    exact ⟨mem_probePoints_iff.1 hk, hmax⟩
  · rintro ⟨htakes, hmax⟩
    exact ⟨s.key, mem_probePoints_iff.2 htakes,
      SpanTable.placement_eq_some_iff_last.2 ⟨s, hs, rfl, rfl, hmax⟩⟩

/-- No span is lost exactly if the points are all different and take a probe each. -/
theorem forall_not_loses_iff :
    (∀ s ∈ t.spans, ¬ u.Loses t s) ↔ t.Distinct ∧ ∀ s ∈ t.spans, u.TakesProbe s.key := by
  simp only [not_loses_iff]
  constructor
  · intro h
    refine ⟨?_, fun s hs => (h s hs).1⟩
    rw [SpanTable.Distinct, List.Nodup, List.pairwise_map]
    refine t.indices_increase.imp_of_mem fun {s s'} hs hs' hlt hkey => ?_
    exact absurd ((h s hs).2 s' hs' hkey.symm) (Nat.not_le.2 hlt)
  · rintro ⟨hdistinct, htakes⟩ s hs
    refine ⟨htakes s hs, fun s' hs' hkey => ?_⟩
    exact Nat.le_of_eq (congrArg Span.index (List.inj_on_of_nodup_map hdistinct hs' hs hkey))

theorem unplaced?_eq_none_iff :
    t.unplaced? u.probePoints = none ↔ ∀ s ∈ t.spans, ¬ u.Loses t s := by
  simp only [SpanTable.unplaced?, List.find?_eq_none, List.mem_range, Bool.not_eq_true',
    Bool.not_eq_false, List.contains_iff_mem]
  constructor
  · exact fun h s hs => (mem_placed_iff hs).1 (h _ (SpanTable.index_lt_size hs))
  · intro h i hi
    obtain ⟨s, hs, rfl⟩ := SpanTable.exists_span_of_lt hi
    exact (mem_placed_iff hs).2 (h s hs)

theorem unplaced?_eq_some_iff {i : Nat} :
    t.unplaced? u.probePoints = some i ↔ ∃ s ∈ t.spans, s.index = i ∧ u.Loses t s ∧
      ∀ s' ∈ t.spans, s'.index < i → ¬ u.Loses t s' := by
  have contains_iff {s : Span} (hs : s ∈ t.spans) :
      (t.placed u.probePoints).contains s.index = true ↔ ¬ u.Loses t s := by
    rw [List.contains_iff_mem, mem_placed_iff hs]
  simp only [SpanTable.unplaced?, List.find?_range_eq_some, List.mem_range, Bool.not_not]
  constructor
  · rintro ⟨hfirst, hi, hbefore⟩
    obtain ⟨s, hs, rfl⟩ := SpanTable.exists_span_of_lt hi
    have hloses : u.Loses t s := by
      by_contra hkept
      rw [(contains_iff hs).2 hkept] at hfirst
      cases hfirst
    exact ⟨s, hs, rfl, hloses, fun s' hs' hlt => (contains_iff hs').1 (hbefore _ hlt)⟩
  · rintro ⟨s, hs, rfl, hloses, hbefore⟩
    refine ⟨?_, SpanTable.index_lt_size hs, fun j hj => ?_⟩
    · rw [Bool.not_eq_true', ← Bool.not_eq_true, contains_iff hs, not_not]
      exact hloses
    · obtain ⟨s', hs', rfl⟩ :=
        SpanTable.exists_span_of_lt (Nat.lt_trans hj (SpanTable.index_lt_size hs))
      exact (contains_iff hs').2 (hbefore s' hs' hj)

end CodeUnit

/-! ## Units -/

namespace CodeUnit

variable {u : CodeUnit} {t : SpanTable}

/-- The probes that the placement of any table puts into a unit, in evaluation order. -/
theorem instructions_placed (h : Uninjected u.root) :
    ∃ order : List Nat, (Injection.spliceRoot t.placement u.root).instructions =
        .acquire :: order.map .mark ∧ order.Perm (t.placed u.probePoints) := by
  refine ⟨u.evalPoints.filterMap fun k => t.placement k.1 k.2, ?_, ?_⟩
  · rw [Injection.instructions_spliceRoot h, Injection.marksAt_eq]
    rfl
  · exact u.evalPoints_perm.filterMap _

/-- What becomes of a unit with a table: either all spans get their probes or there is an error. -/
structure WholeOrNothing (u : CodeUnit) (t : SpanTable)
    (result : Except InjectionError InstrumentedUnit) : Prop where
  /-- The injection succeeds if the table has no two spans for one point, and only points that take
  a probe. -/
  succeeds_iff : (∃ v, result = .ok v) ↔ t.Distinct ∧ ∀ s ∈ t.spans, u.TakesProbe s.key
  /-- Then the code creates its payload, with a cell for each span, and has each probe once. -/
  once : ∀ v, result = .ok v →
    v.unit.token = u.token ∧ v.slot = some ⟨u.token, t.size⟩ ∧
      ∃ order : List Nat, v.unit.root.instructions = .acquire :: order.map .mark ∧
        order.Perm (List.range t.size)
  /-- Otherwise the error names the first span that finds no probe. -/
  fails_iff : ∀ e, result = .error e ↔
    ∃ s ∈ t.spans, e = .unplacedSpan u.name s.index ∧ u.Loses t s ∧
      ∀ s' ∈ t.spans, s'.index < s.index → ¬ u.Loses t s'
  /-- These are the spans whose probes the code would not have. -/
  loses_iff : ∀ s ∈ t.spans, u.Loses t s ↔
    .mark s.index ∉ (Injection.spliceRoot t.placement u.root).instructions

/-- **Injection with any table is all or nothing.** -/
theorem wholeOrNothing (h : Uninjected u.root) : u.WholeOrNothing t (u.inject t) where
  succeeds_iff := by
    rw [← forall_not_loses_iff, ← unplaced?_eq_none_iff]
    cases hnone : t.unplaced? u.probePoints with
    | some i => simp [inject_of_some hnone]
    | none => simp [inject_of_none hnone]
  once v hv := by
    cases hnone : t.unplaced? u.probePoints with
    | some i =>
      rw [inject_of_some hnone] at hv
      cases hv
    | none =>
      rw [inject_of_none hnone] at hv
      cases hv
      obtain ⟨order, horder, hperm⟩ := instructions_placed (t := t) h
      refine ⟨rfl, rfl, order, horder, hperm.trans ?_⟩
      rw [List.perm_ext_iff_of_nodup (SpanTable.placed_nodup u.probePoints_nodup) List.nodup_range]
      intro i
      rw [List.mem_range]
      constructor
      · intro hi
        obtain ⟨k, -, hplace⟩ := List.mem_filterMap.1 hi
        obtain ⟨s, hs, -, rfl, -⟩ := SpanTable.placement_eq_some_iff_last.1 hplace
        exact SpanTable.index_lt_size hs
      · intro hi
        obtain ⟨s, hs, rfl⟩ := SpanTable.exists_span_of_lt hi
        exact (mem_placed_iff hs).2 (unplaced?_eq_none_iff.1 hnone s hs)
  fails_iff e := by
    have hfails : u.inject t = .error e ↔
        ∃ i, t.unplaced? u.probePoints = some i ∧ e = .unplacedSpan u.name i := by
      cases hnone : t.unplaced? u.probePoints with
      | some i => simp [inject_of_some hnone, eq_comm]
      | none => simp [inject_of_none hnone]
    rw [hfails]
    constructor
    · rintro ⟨i, hi, rfl⟩
      obtain ⟨s, hs, rfl, hloses, hbefore⟩ := unplaced?_eq_some_iff.1 hi
      exact ⟨s, hs, rfl, hloses, hbefore⟩
    · rintro ⟨s, hs, rfl, hloses, hbefore⟩
      exact ⟨_, unplaced?_eq_some_iff.2 ⟨s, hs, rfl, hloses, hbefore⟩, rfl⟩
  loses_iff s hs := by
    obtain ⟨order, horder, hperm⟩ := instructions_placed (t := t) h
    rw [horder, ← not_iff_not, not_not, ← mem_placed_iff hs, ← hperm.mem_iff]
    simp

end CodeUnit

/-! ## Bodies -/

namespace Node

section Empty

theorem instructionsAll_eq_nil {ns : List Node} :
    instructionsAll ns = [] ↔ ∀ n ∈ ns, n.instructions = [] := by
  induction ns with
  | nil => simp [instructionsAll]
  | cons n ns ih => simp [instructionsAll, ih]

theorem instructions?_eq_nil {e : Option Node} :
    instructions? e = [] ↔ ∀ n ∈ e, n.instructions = [] := by
  cases e <;> simp [instructions?]

theorem instructionsArms_eq_nil {arms : List Arm} :
    instructionsArms arms = [] ↔ ∀ a ∈ arms, a.body.instructions = [] := by
  induction arms with
  | nil => simp [instructionsArms]
  | cons a arms ih =>
    obtain ⟨case, body, range⟩ := a
    simp [instructionsArms, ih]

theorem instructionsHandlers_eq_nil {handlers : List Handler} :
    instructionsHandlers handlers = [] ↔ ∀ a ∈ handlers, a.body.instructions = [] := by
  induction handlers with
  | nil => simp [instructionsHandlers]
  | cons a handlers ih =>
    obtain ⟨binding, body, range⟩ := a
    simp [instructionsHandlers, ih]

/-- A loop has no instructions if its parts have none, whenever it tests its condition. -/
theorem instructions_loop_eq_nil {test : TestTime} {init update : Option Node} {cond : Expr}
    {body : Node} {range : SourceRange} :
    (Node.loop test init cond update body range).instructions = [] ↔
      (∀ n ∈ init, n.instructions = []) ∧ cond.instructions = [] ∧ body.instructions = [] ∧
        ∀ n ∈ update, n.instructions = [] := by
  cases test <;>
    simp [instructions, instructions?_eq_nil, and_comm, and_left_comm]

end Empty

/-- A tree that reads as no instructions holds no injected form. -/
theorem uninjected (n : Node) : n.instructions = [] → Uninjected n := by
  induction n using Node.induct with
  | stmt s r => exact .stmt
  | seq ns ih =>
    intro h
    rw [instructions, instructionsAll_eq_nil] at h
    exact .seq fun n hn => ih n hn (h n hn)
  | branch c t e r iht ihe =>
    intro h
    rw [instructions, List.append_eq_nil_iff, List.append_eq_nil_iff, instructions?_eq_nil] at h
    exact .branch h.1.1 (iht h.1.2) fun n hn => ihe n hn (h.2 n hn)
  | loop k i c u b r ihi ihu ihb =>
    intro h
    obtain ⟨hi, hc, hb, hu⟩ := instructions_loop_eq_nil.1 h
    exact .loop hc (fun n hn => ihi n hn (hi n hn)) (fun n hn => ihu n hn (hu n hn)) (ihb hb)
  | switch v arms r ih =>
    intro h
    rw [instructions, List.append_eq_nil_iff, instructionsArms_eq_nil] at h
    exact .switch h.1 fun a ha => ih a ha (h.2 a ha)
  | attempt b handlers f r ihb ihh ihf =>
    intro h
    rw [instructions, List.append_eq_nil_iff, List.append_eq_nil_iff, instructionsHandlers_eq_nil,
      instructions?_eq_nil] at h
    exact .attempt (ihb h.1.1) (fun a ha => ihh a ha (h.1.2 a ha)) fun n hn => ihf n hn (h.2 n hn)
  | guarded k e b r ihb =>
    intro h
    rw [instructions, List.append_eq_nil_iff] at h
    exact .guarded h.1 (ihb h.2)
  | nested => exact fun _ => .nested
  | label => exact fun _ => .label
  | probe | acquire =>
    intro h
    cases h

/-- The parts of a tree that reads as no instructions read as none. -/
theorem instructions_part {n : Node} (h : n.instructions = []) :
    ∀ m ∈ n.parts.map Prod.snd, m.instructions = [] := by
  cases n with
  | loop k i c u b r =>
    rw [instructions_loop_eq_nil] at h
    simpa [parts, or_imp, forall_and] using ⟨h.1, h.2.2⟩
  | seq ns => simpa [parts, instructions, instructionsAll_eq_nil] using h
  | branch c t e r =>
    simp only [instructions, List.append_eq_nil_iff, instructions?_eq_nil] at h
    simpa [parts] using ⟨h.1.2, h.2⟩
  | switch v arms r =>
    simp only [instructions, List.append_eq_nil_iff, instructionsArms_eq_nil] at h
    simpa [parts] using h.2
  | attempt b handlers f r =>
    simp only [instructions, List.append_eq_nil_iff, instructionsHandlers_eq_nil,
      instructions?_eq_nil] at h
    simpa [parts, or_imp, forall_and, and_assoc] using h
  | guarded k e b r =>
    simp only [instructions, List.append_eq_nil_iff] at h
    simpa [parts] using h.2
  | stmt | label | nested | probe | acquire => simp [parts]

/-- So do the units nested in it. -/
theorem instructions_allUnits (n : Node) :
    n.instructions = [] → ∀ v ∈ n.allUnits, v.root.instructions = [] := by
  induction n using Node.induct_parts with
  | whole n hown ih =>
    intro h v hv
    rw [allUnits_eq, hown, List.nil_append, List.mem_flatMap] at hv
    obtain ⟨m, hm, hv⟩ := hv
    exact ih m hm (instructions_part h m hm) v hv
  | nested header root ih =>
    intro h v hv
    rcases List.mem_cons.1 hv with rfl | hv
    · exact h
    · exact ih h v hv

end Node

namespace CodeUnit

theorem uninjected_of_mem {body u : CodeUnit} (h : body.root.instructions = [])
    (hu : u ∈ body.all) : Uninjected u.root := by
  rcases List.mem_cons.1 hu with rfl | hu
  · exact u.root.uninjected h
  · exact u.root.uninjected (body.root.instructions_allUnits h u hu)

/-- **Injection of a body with any map is all or nothing.**  The body has no injected forms, which
is to say that it reads as no instructions.  Each of its units is injected as a whole by the table
that the map has for it, and the first unit that cannot be injected decides for all of them. -/
theorem instrumentAll_whole_or_nothing {body : CodeUnit} (h : body.root.instructions = [])
    (coverage : CoverageMap) (moduleId : ModuleId) :
    let outcome (u : CodeUnit) := u.instrument { moduleId := moduleId } coverage
    let result := body.instrumentAll { moduleId := moduleId } coverage
    (∀ u ∈ body.all,
      (coverage.unit? u.token = none → outcome u = .error (.missingSpanTable u.name u.token)) ∧
      ∀ known, coverage.unit? u.token = some known → u.WholeOrNothing known.spans (outcome u)) ∧
    (∀ vs, result = .ok vs ↔ List.Forall₂ (fun u v => outcome u = .ok v) body.all vs) ∧
    ∀ e, result = .error e ↔ ∃ before u after, body.all = before ++ u :: after ∧
      (∀ u' ∈ before, ∃ v, outcome u' = .ok v) ∧ outcome u = .error e := by
  intro outcome result
  have hresult : result = body.all.mapM outcome := body.instrumentAll_eq _ coverage
  refine ⟨fun u hu => ⟨instrument_of_missing rfl, fun known hknown => ?_⟩, fun vs => ?_, ?_⟩
  · have hinject : outcome u = u.inject known.spans := instrument_of_known rfl hknown
    rw [hinject]
    exact wholeOrNothing (uninjected_of_mem h hu)
  · rw [hresult, mapM_ok_iff, map_eq_map_ok_iff]
  · rw [hresult]
    exact mapM_error_iff _ _

/-! ### An example -/

/-- A map with a line that control does not come to, in front of the entry. -/
def strangeMap : CoverageMap :=
  ⟨"strange", [⟨⟨0x06000001⟩, "main", .method,
    .ofPoints [⟨.statement, 4, .none⟩, ⟨.entry, 0, .none⟩]⟩]⟩

/-- A map with two spans for the entry. -/
def crowdedMap : CoverageMap :=
  ⟨"crowded", [⟨⟨0x06000001⟩, "main", .method,
    .ofPoints [⟨.entry, 0, .none⟩, ⟨.statement, 2, .none⟩, ⟨.entry, 0, .none⟩]⟩]⟩

theorem greeting_with_other_maps :
    greeting.units[0].root.instructions = [] ∧
      (∃ vs, greeting.units[0].instrumentAll {} strangeMap = .ok vs) ∧
      greeting.units[0].instrumentAll {} crowdedMap = .error (.unplacedSpan "main" 0) := by
  have hbody : greeting.units[0].root.instructions = [] := rfl
  obtain ⟨hstrange, hall, -⟩ := instrumentAll_whole_or_nothing hbody strangeMap .zero
  obtain ⟨hcrowded, -, hfails⟩ := instrumentAll_whole_or_nothing hbody crowdedMap .zero
  refine ⟨hbody, ?_, ?_⟩
  · have hmain := (hstrange _ List.mem_cons_self).2 _ rfl
    obtain ⟨v, hv⟩ := hmain.succeeds_iff.2
      ⟨by decide, fun s hs => mem_probePoints_iff.1 (by revert s; decide)⟩
    exact ⟨[v], (hall [v]).2 (.cons hv .nil)⟩
  · have hmain := (hcrowded _ List.mem_cons_self).2 _ rfl
    refine (hfails _).2 ⟨[], _, [], rfl, nofun, (hmain.fails_iff _).2 ?_⟩
    exact ⟨_, .head _, rfl, .inr ⟨_, .tail _ (.tail _ (.head _)), rfl, by decide⟩,
      fun s _ hs => absurd hs (Nat.not_lt_zero _)⟩

end CodeUnit

end SpanCoverage
