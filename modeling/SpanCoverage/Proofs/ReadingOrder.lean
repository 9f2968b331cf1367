import SpanCoverage.Program.Instructions
import SpanCoverage.Proofs.Placement

/-!
# Reading instrumented code

Code that was instrumented with its own span table creates its payload first and then marks the
spans of the table, each once and from the first to the last, in the order in which the code is
evaluated.

The main results are:

* `Injection.instructions_splice` — splicing puts the probes of a placement into a tree without
  injected forms in evaluation order, and nothing else.
* `SpanTable.filterMap_placement` — the table of a unit numbers its points in this order.
* `Program.probes_in_order` — every unit of an instrumented program marks its spans in order.
-/

namespace SpanCoverage

/-! ## Trees without injected forms -/

/-- A node whose tree has no instructions, wherever its labels stand.  The units nested in it are
not looked at. -/
inductive Uninjected : Node → Prop
  | stmt {s : Stmt} {r : SourceRange} (h : s.instructions = []) : Uninjected (.stmt s r)
  | seq {ns : List Node} (h : ∀ n ∈ ns, Uninjected n) : Uninjected (.seq ns)
  | branch {c : Expr} {t : Node} {e : Option Node} {r : SourceRange} (hc : c.instructions = [])
    (ht : Uninjected t) (he : ∀ n ∈ e, Uninjected n) : Uninjected (.branch c t e r)
  | loop {k : TestTime} {i : Option Node} {c : Expr} {u : Option Node} {b : Node} {r : SourceRange}
    (hc : c.instructions = []) (hi : ∀ n ∈ i, Uninjected n) (hu : ∀ n ∈ u, Uninjected n)
    (hb : Uninjected b) : Uninjected (.loop k i c u b r)
  | switch {v : Expr} {arms : List Arm} {r : SourceRange} (hv : v.instructions = [])
    (ha : ∀ a ∈ arms, Uninjected a.body) : Uninjected (.switch v arms r)
  | attempt {b : Node} {handlers : List Handler} {f : Option Node} {r : SourceRange}
    (hb : Uninjected b) (hh : ∀ h ∈ handlers, Uninjected h.body) (hf : ∀ n ∈ f, Uninjected n) :
    Uninjected (.attempt b handlers f r)
  | guarded {k : GuardKind} {e : Expr} {b : Node} {r : SourceRange} (he : e.instructions = [])
    (hb : Uninjected b) : Uninjected (.guarded k e b r)
  | nested {h : UnitHeader} {b : Node} : Uninjected (.nested h b)
  | label {l : String} {r : SourceRange} : Uninjected (.label l r)

theorem Plain.uninjected {n : Node} (h : Plain n) : Uninjected n := by
  induction h with
  | stmt h => exact .stmt (Stmt.instructions_eq_nil h)
  | seq h ih =>
    refine .seq fun n hn => ?_
    cases n with
    | label => exact .label
    | _ => exact ih _ hn rfl
  | branch hc _ _ iht ihe => exact .branch (Expr.instructions_eq_nil _ hc) iht ihe
  | loop hc _ _ _ ihi ihu ihb => exact .loop (Expr.instructions_eq_nil _ hc) ihi ihu ihb
  | switch hv _ ih => exact .switch (Expr.instructions_eq_nil _ hv) ih
  | attempt _ _ _ ihb ihh ihf => exact .attempt ihb ihh ihf
  | guarded he _ ihb => exact .guarded (Expr.instructions_eq_nil _ he) ihb
  | nested => exact .nested

/-! ## Reading spliced code -/

namespace Injection

/-- The instruction of a probe, if there is one. -/
def marks (span : Option Nat) : List Instruction := span.toList.map .mark

/-- The instructions of the probes that a placement has at points. -/
def marksAt (place : Placement) (keys : List (Nat × SpanKind)) : List Instruction :=
  keys.flatMap fun k => marks (place k.1 k.2)

section marksAt

variable (place : Placement) (keys keys' : List (Nat × SpanKind)) (k : Nat × SpanKind)

@[simp] theorem marksAt_nil : marksAt place [] = [] := rfl

@[simp] theorem marksAt_cons :
    marksAt place (k :: keys) = marks (place k.1 k.2) ++ marksAt place keys := List.flatMap_cons

@[simp] theorem marksAt_append :
    marksAt place (keys ++ keys') = marksAt place keys ++ marksAt place keys' :=
  List.flatMap_append

/-- The probes at points, from the spans that are placed there. -/
theorem marksAt_eq : marksAt place keys = (keys.filterMap fun k => place k.1 k.2).map .mark := by
  induction keys with
  | nil => rfl
  | cons k keys ih =>
    rw [marksAt_cons, ih, List.filterMap_cons]
    cases place k.1 k.2 <;> rfl

end marksAt

@[simp] theorem instructionsAll_probeNodes (span : Option Nat) :
    Node.instructionsAll (probeNodes span) = marks span := by
  cases span <;> rfl

theorem instructions_probed (span : Option Nat) {e : Expr} (h : e.instructions = []) :
    (probed span e).instructions = marks span := by
  cases span with
  | none => exact h
  | some span => exact congrArg (Instruction.mark span :: ·) h

@[simp] theorem instructions_behindProbe (span : Option Nat) (n : Node) :
    (behindProbe span n).instructions = marks span ++ n.instructions := by
  cases span with
  | none => rfl
  | some span =>
    cases n <;> simp [behindProbe, marks, Node.instructions, Node.instructionsAll]

/-- Wherever a tree stands, splicing gives it the probes of its points in evaluation order. -/
def ReadsInOrder (n : Node) : Prop :=
  ∀ place site, (asBlock place site n (splice place site n)).instructions =
    marksAt place (evalPoints site n)

/-- A node that has no probe in front of it stands for itself as a block. -/
theorem ReadsInOrder.of_splice {n : Node} (hlead : ∀ place site, lead place site n = none)
    (h : ∀ place site, (splice place site n).instructions = marksAt place (evalPoints site n)) :
    ReadsInOrder n := by
  intro place site
  rw [asBlock, hlead]
  exact h place site

/-- The child of a sequence reads like the block of its own. -/
theorem instructionsAll_asChild {n : Node} (h : ReadsInOrder n) (place : Placement) (site : Nat)
    (hlabel : Analysis.labelName? n = none) :
    Node.instructionsAll (asChild place site n (splice place site n)) =
      marksAt place (evalPoints site n) := by
  have whole := h place site
  rw [asBlock, instructions_behindProbe] at whole
  cases n with
  | nested => rfl
  | label => simp [Analysis.labelName?] at hlabel
  | _ => simpa [asChild, Node.instructionsAll] using whole

theorem instructions_splice? {e : Option Node} (h : ∀ n ∈ e, ReadsInOrder n) (place : Placement)
    (site : Nat) :
    Node.instructions? (splice? place site e) = marksAt place (evalPoints? site e) := by
  cases e with
  | none => rfl
  | some n => exact h n rfl place site

theorem instructions_spliceAll {ns : List Node} (h : ∀ n ∈ ns, ReadsInOrder n)
    (place : Placement) (site : Nat) :
    Node.instructionsAll (spliceAll place site ns) = marksAt place (evalPointsAll site ns) := by
  induction ns generalizing site with
  | nil => rfl
  | cons n ns ih =>
    simp only [List.mem_cons, forall_eq_or_imp] at h
    rw [spliceAll, Node.instructionsAll_append, ih h.2]
    cases n with
    | label =>
      simp [asChild, splice, Node.instructionsAll, Node.instructions, evalPointsAll, evalPoints]
    | _ =>
      rw [instructionsAll_asChild h.1 place site rfl]
      exact (marksAt_append place _ _).symm

theorem instructions_spliceArms {arms : List Arm} (h : ∀ a ∈ arms, ReadsInOrder a.body)
    (place : Placement) (site : Nat) :
    Node.instructionsArms (spliceArms place site arms) =
      marksAt place (evalPointsArms site arms) := by
  induction arms generalizing site with
  | nil => rfl
  | cons a arms ih =>
    obtain ⟨case, body, range⟩ := a
    simp only [List.mem_cons, forall_eq_or_imp] at h
    simp [spliceArms, Node.instructionsArms, evalPointsArms, h.1 place site, ih h.2]

theorem instructions_spliceHandlers {handlers : List Handler}
    (h : ∀ a ∈ handlers, ReadsInOrder a.body) (place : Placement) (site : Nat) :
    Node.instructionsHandlers (spliceHandlers place site handlers) =
      marksAt place (evalPointsHandlers site handlers) := by
  induction handlers generalizing site with
  | nil => rfl
  | cons a handlers ih =>
    obtain ⟨binding, body, range⟩ := a
    simp only [List.mem_cons, forall_eq_or_imp] at h
    simp [spliceHandlers, Node.instructionsHandlers, evalPointsHandlers, h.1 place site, ih h.2]

theorem instructions_spliceFinally {f : Option Node} (h : ∀ n ∈ f, ReadsInOrder n)
    (place : Placement) (site : Nat) :
    Node.instructions? (spliceFinally place site f) =
      marksAt place (evalPointsFinally site f) := by
  cases f with
  | none => rfl
  | some n =>
    simp [spliceFinally, Node.instructions?, evalPointsFinally, h n rfl place site]

/-- **Splicing puts the probes of a tree in evaluation order**, and nothing else. -/
theorem instructions_splice (n : Node) : Uninjected n → ReadsInOrder n := by
  induction n using Node.induct with
  | stmt s range =>
    intro h place site
    cases h with
    | stmt hs =>
      rw [asBlock, instructions_behindProbe, splice, Node.instructions, hs]
      rfl
  | seq ns ih =>
    intro h
    cases h with
    | seq hns =>
      have children := instructions_spliceAll fun n hn => ih n hn (hns n hn)
      exact .of_splice (fun _ _ => rfl) fun place site => children place (site + 1)
  | branch c t e range iht ihe =>
    intro h
    cases h with
    | branch hc ht he =>
      refine .of_splice (fun _ _ => rfl) fun place site => ?_
      have other := instructions_splice? fun n hn => ihe n hn (he n hn)
      simp only [splice, Node.instructions, evalPoints, instructions_probed _ hc, iht ht place,
        other,
        marksAt_append, marksAt_cons]
  | loop test i c u b range ihi ihu ihb =>
    intro h
    cases h with
    | loop hc hi hu hb =>
      refine .of_splice (fun _ _ => rfl) fun place site => ?_
      have start := instructions_splice? fun n hn => ihi n hn (hi n hn)
      have update := instructions_splice? fun n hn => ihu n hn (hu n hn)
      simp only [splice, Node.instructions, evalPoints, instructions_probed _ hc, ihb hb place,
        start, update, marksAt_append]
      cases test <;> simp
  | switch value arms range ih =>
    intro h
    cases h with
    | switch hv ha =>
      refine .of_splice (fun _ _ => rfl) fun place site => ?_
      have entries := instructions_spliceArms fun a hmem => ih a hmem (ha a hmem)
      simp only [splice, Node.instructions, evalPoints, instructions_probed _ hv, entries,
        marksAt_cons]
  | attempt b handlers f range ihb ihh ihf =>
    intro h
    cases h with
    | attempt hb hh hf =>
      refine .of_splice (fun _ _ => rfl) fun place site => ?_
      have entries := instructions_spliceHandlers fun a hmem => ihh a hmem (hh a hmem)
      have last := instructions_spliceFinally fun n hn => ihf n hn (hf n hn)
      simp only [splice, Node.instructions, evalPoints, ihb hb place, entries, last, marksAt_append]
  | guarded kind resource b range ihb =>
    intro h
    cases h with
    | guarded he hb =>
      refine .of_splice (fun _ _ => rfl) fun place site => ?_
      simp only [splice, Node.instructions, evalPoints, instructions_probed _ he,
        ihb hb place,
        marksAt_cons]
  | nested | label => exact fun _ => .of_splice (fun _ _ => rfl) fun _ _ => rfl
  | probe => intro h; cases h
  | acquire => intro h; cases h

/-- The root of spliced code creates the payload, and then marks the spans that are placed. -/
theorem instructions_spliceRoot {root : Node} (h : Uninjected root) (place : Placement) :
    (spliceRoot place root).instructions =
      .acquire :: marksAt place ((0, .entry) :: evalPoints 0 root) := by
  have body := instructions_splice root h place 0
  rw [asBlock, instructions_behindProbe] at body
  simp [spliceRoot, Node.instructions, Node.instructionsAll, ← body]

end Injection

/-! ## Reading a unit with its own table -/

/-- Values that are found only at some members of a list are found in the order of these. -/
theorem filterMap_eq_of_sublist {α β : Type} {f : α → Option β} {keys points : List α}
    (h : keys.Sublist points) (hpoints : points.Nodup)
    (hnone : ∀ k ∈ points, k ∉ keys → f k = none) : points.filterMap f = keys.filterMap f := by
  induction h with
  | slnil => rfl
  | @cons keys points k hsub ih =>
    rw [List.nodup_cons] at hpoints
    have hk : f k = none := hnone k List.mem_cons_self fun hmem => hpoints.1 (hsub.subset hmem)
    rw [List.filterMap_cons_none hk]
    exact ih hpoints.2 fun k' hk' => hnone k' (List.mem_cons_of_mem _ hk')
  | @cons_cons keys points k hsub ih =>
    rw [List.nodup_cons] at hpoints
    have rest := ih hpoints.2 fun k' hk' hnot =>
      hnone k' (List.mem_cons_of_mem _ hk') fun hmem => by
        rcases List.mem_cons.1 hmem with rfl | hmem
        · exact hpoints.1 hk'
        · exact hnot hmem
    rw [List.filterMap_cons, List.filterMap_cons, rest]

/-- **A table numbers its points in the order in which the code is read**, if the points come in
this order. -/
theorem SpanTable.filterMap_placement {t : SpanTable} {points : List (Nat × SpanKind)}
    (hpoints : points.Nodup) (h : (t.spans.map Span.key).Sublist points) :
    points.filterMap (fun k => t.placement k.1 k.2) = List.range t.size := by
  have distinct : t.Distinct := h.nodup hpoints
  have found (s : Span) (hs : s ∈ t.spans) :
      t.placement s.key.1 s.key.2 = some s.index :=
    (placement_eq_some_iff distinct).2 ⟨s, hs, rfl, rfl⟩
  calc
    points.filterMap (fun k => t.placement k.1 k.2)
      = (t.spans.map Span.key).filterMap fun k => t.placement k.1 k.2 := by
        refine filterMap_eq_of_sublist h hpoints fun k _ hk => ?_
        rw [Option.eq_none_iff_forall_ne_some]
        intro index hindex
        obtain ⟨s, hs, hkey, -⟩ := (placement_eq_some_iff distinct).1 hindex
        exact hk (List.mem_map.2 ⟨s, hs, hkey⟩)
    _ = t.spans.map Span.index := by
        rw [List.filterMap_map, ← List.filterMap_eq_map]
        exact List.filterMap_congr fun s hs => found s hs
    _ = List.range t.size := t.indices_eq

/-- What instrumented code is like: the unit declares a payload with one cell for each span of its
table; its body creates the payload first, nowhere else, and then marks every span of the table
once, in the order of the spans. -/
structure ProbesInOrder (known : UnitMap) (v : InstrumentedUnit) : Prop where
  token_eq : v.unit.token = known.token
  slot_eq : v.slot = some ⟨known.token, known.spans.size⟩
  root_eq : ∃ body, v.unit.root = .seq (.acquire :: body)
  instructions_eq :
    v.unit.root.instructions = .acquire :: (List.range known.spans.size).map .mark

/-- A valid unit marks the spans of its own table in order. -/
theorem CodeUnit.withProbes_inOrder {u : CodeUnit} (h : u.defects = []) :
    ProbesInOrder u.spanMap u.withProbes where
  token_eq := rfl
  slot_eq := rfl
  root_eq := ⟨_, rfl⟩
  instructions_eq := by
    have hkeys : (u.spanMap.spans.spans.map Span.key).Sublist u.evalPoints := by
      show ((SpanTable.ofPoints u.points).spans.map Span.key).Sublist u.evalPoints
      rw [SpanTable.map_key_ofPoints]
      exact points_inOrder h
    show (Injection.spliceRoot u.spanMap.spans.placement u.root).instructions = _
    rw [Injection.instructions_spliceRoot (wellFormed h).1.uninjected, Injection.marksAt_eq]
    exact congrArg (fun spans => Instruction.acquire :: spans.map Instruction.mark)
      (SpanTable.filterMap_placement u.evalPoints_nodup hkeys)

/-- **Instrumentation of an accepted program with its own map succeeds, and puts every probe in its
place.** -/
theorem Program.probes_in_order {p : Program} {coverage : CoverageMap}
    (accepted : p.analyze = .ok coverage) (moduleId : ModuleId) :
    ∃ ip, p.instrument { moduleId := moduleId } coverage = .ok ip ∧
      List.Forall₂ ProbesInOrder coverage.units ip.units := by
  obtain ⟨hvalid, hunits, -⟩ := Program.analyze_ok accepted
  refine ⟨_, Program.instrument_own accepted moduleId, ?_⟩
  rw [hunits, List.forall₂_map_left_iff, List.forall₂_map_right_iff, List.forall₂_same]
  exact fun u hu => CodeUnit.withProbes_inOrder (hvalid u hu)

/-! ## An example -/

/-- A program that counts down to zero in a loop with its test behind its update, and holds another
unit in one of the ways out. -/
def countdown : Program where
  name := "countdown"
  units := [⟨{ token := ⟨0x06000001⟩, name := "main", params := ["n"], range := .none },
    .seq [
      .loop .after none (.binary .less (.const (.int 0)) (.var "n"))
        (some (.stmt (.assign "n" (.binary .sub (.var "n") (.const (.int 1)))) .none))
        (.stmt (.print (.var "n")) .none) .none,
      .attempt
        (.switch (.var "n") [⟨some (.int 0), .stmt .leave .none, .none⟩,
          ⟨none, .nested
            { token := ⟨0x06000002⟩, name := "liftoff", kind := .lambda, range := .none }
            (.stmt .skip .none), .none⟩] .none)
        [⟨none, .stmt .skip .none, .none⟩] (some (.stmt .skip .none)) .none]⟩]

/-- The span tables of its units. -/
def countdownMap : CoverageMap := ⟨"countdown", countdown.allUnits.map CodeUnit.spanMap⟩

theorem countdown_analyze : countdown.analyze = .ok countdownMap :=
  Program.analyze_eq_ok_iff.2 ⟨by decide, by decide, rfl⟩

/-- The program is accepted, and so its probes are in order. -/
theorem countdown_in_order : countdown.analyze = .ok countdownMap ∧
    ∃ ip, countdown.instrument { moduleId := .zero } countdownMap = .ok ip ∧
      List.Forall₂ ProbesInOrder countdownMap.units ip.units :=
  ⟨countdown_analyze, Program.probes_in_order countdown_analyze .zero⟩

end SpanCoverage
