import SpanCoverage.Program.Erasure
import SpanCoverage.Proofs.ForeignTables

/-!
# Instrumentation adds probes and nothing else

An instrumented unit keeps all that is known of it but its body.  Its body without all that
injection makes is the body that it had, less the boundaries of the units nested in it: the same
nodes in the same order, with the same expressions, names and ranges.  Only a block that is one node
and a block that is a sequence of this node are not told apart, since a probe in front of a node
needs a sequence around the two.

The main results are:

* `Injection.Recovers` and `Injection.recovers` — erasing undoes splicing, for every placement.
* `CodeUnit.instrumentAll_adds_probes` — so it does for every unit that a body is instrumented to,
  with any coverage map.
-/

namespace SpanCoverage

open Node (flat flatAll flatten? flattenArms flattenHandlers erase eraseAll erase? eraseArms
  eraseHandlers)

namespace Injection

/-! ## Erasing one probe -/

@[simp] theorem eraseAll_probeNodes (span : Option Nat) :
    eraseAll .injected (probeNodes span) = [] := by
  cases span <;> rfl

theorem unprobed_probed (span : Option Nat) (e : Expr) :
    (probed span e).unprobed = e.unprobed := by
  cases span <;> rfl

/-- A block behind its probe has the nodes of the block. -/
@[simp] theorem flat_erase_behindProbe (span : Option Nat) (n : Node) :
    ((behindProbe span n).erase .injected).flat = (n.erase .injected).flat := by
  cases span with
  | none => rfl
  | some span =>
    have alone := Node.flatAll_eraseAll_singleton .injected n
    cases n with
    | seq => rfl
    | _ => exact alone

/-! ## Erasing all probes of a tree -/

/-- Wherever a tree stands and whichever probes are put into it, it has the nodes that it had. -/
def Recovers (n : Node) : Prop :=
  ∀ place site, ((splice place site n).erase .injected).flat = (n.erase .boundaries).flat

theorem Recovers.asBlock {n : Node} (h : Recovers n) (place : Placement) (site : Nat) :
    ((asBlock place site n (splice place site n)).erase .injected).flat =
      (n.erase .boundaries).flat :=
  (flat_erase_behindProbe ..).trans (h place site)

/-- The child of a sequence has the nodes of the block of its own. -/
theorem Recovers.asChild {n : Node} (h : Recovers n) (place : Placement) (site : Nat) :
    flatAll (eraseAll .injected (asChild place site n (splice place site n))) =
      (n.erase .boundaries).flat := by
  have alone : flatAll (eraseAll .injected [splice place site n]) = (n.erase .boundaries).flat :=
    (Node.flatAll_eraseAll_singleton ..).trans (h place site)
  cases n with
  | nested => rfl
  | label l r =>
    rw [Injection.asChild, ← List.singleton_append, Node.eraseAll_append, eraseAll_probeNodes,
      List.append_nil, alone]
  | _ =>
    simpa only [Injection.asChild, Node.eraseAll_append, eraseAll_probeNodes, List.nil_append]
      using alone

section Lists

variable (place : Placement) (site : Nat)

theorem flatAll_spliceAll {ns : List Node} (h : ∀ n ∈ ns, Recovers n) :
    flatAll (eraseAll .injected (spliceAll place site ns)) =
      flatAll (eraseAll .boundaries ns) := by
  induction ns generalizing site with
  | nil => rfl
  | cons n ns ih =>
    simp only [List.mem_cons, forall_eq_or_imp] at h
    rw [spliceAll, Node.eraseAll_append, Node.flatAll_append, h.1.asChild, ih _ h.2,
      Node.flatAll_eraseAll_cons]

theorem flatten?_splice? {e : Option Node} (h : ∀ n ∈ e, Recovers n) :
    flatten? (erase? .injected (splice? place site e)) = flatten? (erase? .boundaries e) := by
  cases e with
  | none => rfl
  | some n => exact congrArg (fun nodes => some (Node.seq nodes)) ((h n rfl).asBlock place site)

theorem flatten?_spliceFinally {f : Option Node} (h : ∀ n ∈ f, Recovers n) :
    flatten? (erase? .injected (spliceFinally place site f)) =
      flatten? (erase? .boundaries f) := by
  cases f with
  | none => rfl
  | some n =>
    have block := (h n rfl).asBlock place site
    rw [← flat_erase_behindProbe (place site .finallyEntry)] at block
    exact congrArg (fun nodes => some (Node.seq nodes)) block

theorem flattenArms_spliceArms {arms : List Arm} (h : ∀ a ∈ arms, Recovers a.body) :
    flattenArms (eraseArms .injected (spliceArms place site arms)) =
      flattenArms (eraseArms .boundaries arms) := by
  induction arms generalizing site with
  | nil => rfl
  | cons a arms ih =>
    obtain ⟨case, body, range⟩ := a
    simp only [List.mem_cons, forall_eq_or_imp] at h
    have block := h.1.asBlock place site
    rw [← flat_erase_behindProbe (place site .switchArm)] at block
    exact congrArg₂ (fun nodes rest => ⟨case, .seq nodes, range⟩ :: rest) block (ih _ h.2)

theorem flattenHandlers_spliceHandlers {handlers : List Handler}
    (h : ∀ a ∈ handlers, Recovers a.body) :
    flattenHandlers (eraseHandlers .injected (spliceHandlers place site handlers)) =
      flattenHandlers (eraseHandlers .boundaries handlers) := by
  induction handlers generalizing site with
  | nil => rfl
  | cons a handlers ih =>
    obtain ⟨binding, body, range⟩ := a
    simp only [List.mem_cons, forall_eq_or_imp] at h
    have block := h.1.asBlock place site
    rw [← flat_erase_behindProbe (place site .catchEntry)] at block
    exact congrArg₂ (fun nodes rest => ⟨binding, .seq nodes, range⟩ :: rest) block (ih _ h.2)

end Lists

/-- **Erasing undoes splicing**: a tree that has no injected forms has the same nodes again, in the
same order, when all that was put into it is taken out. -/
theorem recovers (n : Node) : Uninjected n → Recovers n := by
  have expr {e : Expr} (h : e.instructions = []) (span : Option Nat) :
      (probed span e).unprobed = e := (unprobed_probed span e).trans (e.unprobed_eq_self h)
  -- each form keeps its own data, so what is left to compare are its expressions and its blocks
  induction n using Node.induct with
  | stmt s range =>
    intro h place site
    cases h with
    | stmt hs =>
      show [Node.stmt (s.mapExprs Expr.unprobed) range] = [Node.stmt (s.mapExprs id) range]
      rw [Stmt.mapExprs_unprobed hs, Stmt.mapExprs_id]
  | seq ns ih =>
    intro h place site
    cases h with
    | seq hns => exact flatAll_spliceAll place (site + 1) fun n hn => ih n hn (hns n hn)
  | branch c t e range iht ihe =>
    intro h place site
    cases h with
    | branch hc ht he =>
      show [Node.branch (probed (place site .condition) c).unprobed
        (.seq (flat (erase .injected _))) (flatten? (erase? .injected (splice? place _ e))) range] =
          [Node.branch c (.seq (t.erase .boundaries).flat) (flatten? (erase? .boundaries e)) range]
      rw [expr hc, (iht ht).asBlock, flatten?_splice? _ _ fun n hn => ihe n hn (he n hn)]
  | loop test i c u b range ihi ihu ihb =>
    intro h place site
    cases h with
    | loop hc hi hu hb =>
      show [Node.loop test (flatten? (erase? .injected (splice? place _ i)))
        (probed (place site .loopHeader) c).unprobed
        (flatten? (erase? .injected (splice? place _ u))) (.seq (flat (erase .injected _))) range] =
          [Node.loop test (flatten? (erase? .boundaries i)) c (flatten? (erase? .boundaries u))
            (.seq (b.erase .boundaries).flat) range]
      rw [expr hc, (ihb hb).asBlock, flatten?_splice? _ _ fun n hn => ihi n hn (hi n hn),
        flatten?_splice? _ _ fun n hn => ihu n hn (hu n hn)]
  | switch value arms range ih =>
    intro h place site
    cases h with
    | switch hv ha =>
      show [Node.switch (probed (place site .condition) value).unprobed
        (flattenArms (eraseArms .injected (spliceArms place _ arms))) range] =
          [Node.switch value (flattenArms (eraseArms .boundaries arms)) range]
      rw [expr hv, flattenArms_spliceArms _ _ fun a hmem => ih a hmem (ha a hmem)]
  | attempt b handlers f range ihb ihh ihf =>
    intro h place site
    cases h with
    | attempt hb hh hf =>
      show [Node.attempt (.seq (flat (erase .injected _)))
        (flattenHandlers (eraseHandlers .injected (spliceHandlers place _ handlers)))
        (flatten? (erase? .injected (spliceFinally place _ f))) range] =
          [Node.attempt (.seq (b.erase .boundaries).flat)
            (flattenHandlers (eraseHandlers .boundaries handlers))
            (flatten? (erase? .boundaries f)) range]
      rw [(ihb hb).asBlock, flattenHandlers_spliceHandlers _ _ fun a hmem => ihh a hmem (hh a hmem),
        flatten?_spliceFinally _ _ fun n hn => ihf n hn (hf n hn)]
  | guarded kind resource b range ihb =>
    intro h place site
    cases h with
    | guarded he hb =>
      show [Node.guarded kind (probed (place site .scopeAcquire) resource).unprobed
        (.seq (flat (erase .injected _))) range] =
          [Node.guarded kind resource (.seq (b.erase .boundaries).flat) range]
      rw [expr he, (ihb hb).asBlock]
  | nested | label => exact fun _ _ _ => rfl
  | probe => intro h; cases h
  | acquire => intro h; cases h

/-- The root of an instrumented unit has the nodes of the root that it had. -/
theorem flatten_spliceRoot {root : Node} (h : Uninjected root) (place : Placement) :
    ((spliceRoot place root).erase .injected).flatten = (root.erase .boundaries).flatten := by
  have body : flatAll (eraseAll .injected [splice place 0 root]) = (root.erase .boundaries).flat :=
    (Node.flatAll_eraseAll_singleton ..).trans (recovers root h place 0)
  show Node.seq (flatAll (eraseAll .injected (probeNodes _ ++ probeNodes _ ++ [_]))) = .seq _
  simp only [Node.eraseAll_append, eraseAll_probeNodes, List.nil_append, body]

end Injection

/-! ## Instrumented units -/

/-- An instrumented unit is what it was, but for what injection makes and the boundaries of the
units that were nested in it. -/
structure OnlyProbesAdded (u : CodeUnit) (v : InstrumentedUnit) : Prop where
  header_eq : v.unit.toUnitHeader = u.toUnitHeader
  flatten_eq : (v.unit.root.erase .injected).flatten = (u.root.erase .boundaries).flatten

/-- Every form that injection gives a unit has only probes added to it. -/
theorem Injected.onlyProbesAdded {u : CodeUnit} {v : InstrumentedUnit} (h : Injected u v)
    (hu : Uninjected u.root) : OnlyProbesAdded u v where
  header_eq := h.header_eq
  flatten_eq := by
    cases h with
    | spliced table => exact Injection.flatten_spliceRoot hu table.placement
    | stripped =>
      rw [u.unit_withoutProbes]
      exact congrArg Node.seq ((Injection.recovers u.root hu).asBlock .none 0)

namespace CodeUnit

/-- **Instrumenting a body adds probes to its units and changes nothing else**, whatever the
coverage map says of them. -/
theorem instrumentAll_adds_probes {body : CodeUnit} (h : body.root.instructions = [])
    {options : InjectionOptions} {coverage : CoverageMap} {vs : List InstrumentedUnit}
    (hvs : body.instrumentAll options coverage = .ok vs) :
    List.Forall₂ OnlyProbesAdded body.all vs := by
  rw [instrumentAll_eq] at hvs
  have made := map_eq_map_ok_iff.1 ((mapM_ok_iff _ _ _).1 hvs)
  rw [List.forall₂_iff_zip] at made ⊢
  refine ⟨made.1, fun hzip => ?_⟩
  exact (instrument_ok (made.2 hzip)).onlyProbesAdded (uninjected_of_mem h (List.of_mem_zip hzip).1)

/-! ### An example -/

/-- A body with a unit nested in it, instrumented with its own map. -/
theorem countdown_keeps_code :
    countdown.units[0].root.instructions = [] ∧
      ∃ vs, countdown.units[0].instrumentAll {} countdownMap = .ok vs ∧
        List.Forall₂ OnlyProbesAdded countdown.units[0].all vs := by
  obtain ⟨vs, hvs⟩ : ∃ vs, countdown.units[0].instrumentAll {} countdownMap = .ok vs :=
    ⟨_, (instrumentAll_eq ..).trans rfl⟩
  exact ⟨rfl, vs, hvs, instrumentAll_adds_probes rfl hvs⟩

end CodeUnit

end SpanCoverage
