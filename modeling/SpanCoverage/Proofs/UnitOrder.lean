import Mathlib.Data.List.Infix
import Mathlib.Data.List.Perm.Basic
import SpanCoverage.Proofs.PassThrough
import SpanCoverage.Proofs.SpanNodes

/-!
# The order of units

The analysis, the injection and the loading of a program each find the units nested in a unit by a
traversal of their own, and go through the units of the program in one order: a unit comes first,
and right behind it come the units nested in it, from the boundary with the least site on, each
again with those nested in it.

The main results are:

* `Node.directUnits_eq` — the units nested directly in a tree are those of its boundaries, in the
  order of their sites.
* `Program.allUnits_perm` — every boundary is gone through exactly once.
* `Program.units_agree` — the map of an accepted program and the instrumented program have the units
  of the program in this order, and a token finds the unit it belongs to.
-/

namespace SpanCoverage

/-! ## Boundaries -/

namespace Node

/-- The unit of a boundary. -/
def unit? : Node → Option CodeUnit
  | .nested header root => some ⟨header, root⟩
  | _ => none

/-- The units whose boundaries lie in a tree, in the order of the boundaries' sites. -/
def boundaries (n : Node) : List CodeUnit := n.preorder.filterMap unit?

theorem boundaries_eq (n : Node) :
    n.boundaries = n.unit?.toList ++ (n.parts.map Prod.snd).flatMap boundaries := by
  rw [boundaries, preorder_eq, List.filterMap_cons, List.filterMap_flatMap]
  cases n.unit? <;> rfl

theorem directUnits?_eq (e : Option Node) : directUnits? e = e.toList.flatMap directUnits := by
  cases e <;> simp [directUnits?]

theorem directUnitsAll_eq (ns : List Node) : directUnitsAll ns = ns.flatMap directUnits := by
  induction ns with
  | nil => rfl
  | cons n ns ih => rw [directUnitsAll, ih, List.flatMap_cons]

theorem directUnitsArms_eq (arms : List Arm) :
    directUnitsArms arms = arms.flatMap (directUnits ·.body) := by
  induction arms with
  | nil => rfl
  | cons a arms ih =>
    obtain ⟨case, body, range⟩ := a
    rw [directUnitsArms, ih, List.flatMap_cons]

theorem directUnitsHandlers_eq (handlers : List Handler) :
    directUnitsHandlers handlers = handlers.flatMap (directUnits ·.body) := by
  induction handlers with
  | nil => rfl
  | cons a handlers ih =>
    obtain ⟨binding, body, range⟩ := a
    rw [directUnitsHandlers, ih, List.flatMap_cons]

theorem directUnits_eq_parts (n : Node) :
    n.directUnits = n.unit?.toList ++ (n.parts.map Prod.snd).flatMap directUnits := by
  cases n <;> simp [directUnits, unit?, parts, List.flatMap_map, Function.comp_def,
    directUnits?_eq, directUnitsAll_eq, directUnitsArms_eq, directUnitsHandlers_eq]

/-- **The units nested directly in a tree are those of its boundaries**, in the order of sites. -/
theorem directUnits_eq (n : Node) : n.directUnits = n.boundaries := by
  induction n using Node.induct_parts with
  | whole n _ ih =>
    rw [directUnits_eq_parts, boundaries_eq, List.flatMap_congr ih]
  | nested => rfl

end Node

/-! ## Units and the units nested in them -/

namespace CodeUnit

/-- The units whose boundaries lie in the unit, without those in the units nested in it. -/
def boundaries (u : CodeUnit) : List CodeUnit := u.root.boundaries

/-- What a member of a list contributes stands in one piece. -/
theorem infix_flatMap {α β : Type} (f : α → List β) {a : α} {l : List α} (h : a ∈ l) :
    f a <:+: l.flatMap f := by
  obtain ⟨before, after, rfl⟩ := List.append_of_mem h
  rw [List.flatMap_append, List.flatMap_cons, ← List.append_assoc]
  exact List.infix_append _ _ _

/-- **A unit comes first, and then the units of its boundaries**, each with those nested in it. -/
theorem all_eq (u : CodeUnit) : u.all = u :: u.boundaries.flatMap all := by
  rw [all_eq_directUnits, u.root.directUnits_eq, boundaries]

/-- Each of the units nested in a unit stands in one piece with those nested in it. -/
theorem all_infix (u : CodeUnit) : ∀ v ∈ u.all, v.all <:+: u.all := by
  induction u using induct_nested with
  | step u ih =>
    intro v hv
    rw [all_eq_directUnits] at hv
    rcases List.mem_cons.1 hv with rfl | hv
    · exact List.infix_refl _
    · obtain ⟨b, hb, hv⟩ := List.mem_flatMap.1 hv
      rw [u.all_eq_directUnits]
      exact (ih b hb v hv).trans ((infix_flatMap all hb).trans (List.suffix_cons _ _).isInfix)

/-- If every unit of a list is gone through with the units of its boundaries, the whole list is. -/
theorem flatMap_all_perm {us : List CodeUnit}
    (h : ∀ v ∈ us, v.all.Perm (v :: v.all.flatMap boundaries)) :
    (us.flatMap all).Perm (us ++ (us.flatMap all).flatMap boundaries) := by
  calc
    List.Perm (us.flatMap all) (us.flatMap fun v => [v] ++ v.all.flatMap boundaries) :=
      .flatMap_left _ h
    List.Perm _ (us.flatMap ([·]) ++ us.flatMap (·.all.flatMap boundaries)) :=
      (List.flatMap_append_perm ..).symm
    _ = us ++ (us.flatMap all).flatMap boundaries := by
      rw [List.flatMap_singleton', List.flatMap_assoc]

/-- Every unit but the first is the unit of a boundary, and no boundary is left out. -/
theorem all_perm (u : CodeUnit) : u.all.Perm (u :: u.all.flatMap boundaries) := by
  induction u using induct_nested with
  | step u ih =>
    rw [u.root.directUnits_eq] at ih
    rw [u.all_eq, List.flatMap_cons]
    exact .cons u (flatMap_all_perm ih)

end CodeUnit

/-! ## Programs -/

/-- **The units of a program are its top-level units and those of all boundaries**, each of them
once. -/
theorem Program.allUnits_perm (p : Program) :
    p.allUnits.Perm (p.units ++ p.allUnits.flatMap CodeUnit.boundaries) :=
  CodeUnit.flatMap_all_perm fun u _ => u.all_perm

/-- A unit comes before the units of its boundaries. -/
theorem Program.parent_first {p : Program} {u v : CodeUnit} (hu : u ∈ p.allUnits)
    (hv : v ∈ u.boundaries) :
    ∃ before between after, p.allUnits = before ++ u :: between ++ v :: after := by
  obtain ⟨top, htop, hu⟩ := List.mem_flatMap.1 hu
  obtain ⟨before, after, hsplit⟩ :=
    (top.all_infix u hu).trans (CodeUnit.infix_flatMap CodeUnit.all htop)
  have hmem : v ∈ u.boundaries.flatMap CodeUnit.all :=
    List.mem_flatMap.2 ⟨v, hv, List.mem_cons_self⟩
  obtain ⟨between, rest, hrest⟩ := List.append_of_mem hmem
  refine ⟨before, between, rest ++ after, ?_⟩
  rw [allUnits, ← hsplit, u.all_eq, hrest]
  simp

/-- What a unit is known by. -/
def UnitHeader.identity (h : UnitHeader) : MethodToken × String × UnitKind :=
  (h.token, h.name, h.kind)

/-- What the unit of a span table is known by. -/
def UnitMap.identity (m : UnitMap) : MethodToken × String × UnitKind := (m.token, m.name, m.kind)

/-! ### Loading -/

namespace Host.Machine

/-- The names of a machine after one unit after the other is loaded: a later unit takes the name of
an earlier one. -/
def renamed (names : Assoc String MethodToken) (units : List (MethodToken × String × UnitKind)) :
    Assoc String MethodToken :=
  units.foldl (fun names unit => names.set unit.2.1 unit.1) names

theorem names_loadPlain (m : Machine) (p : Program) :
    (m.loadPlain p).names = renamed m.names (p.allUnits.map (·.identity)) := by
  rw [loadPlain]
  generalize p.allUnits = units
  induction units generalizing m with
  | nil => rfl
  | cons u units ih => exact ih (m.insert u 0)

theorem names_loadUnits (m : Machine) (memory : Memory) (units : List InstrumentedUnit) :
    (m.loadUnits memory units).1.names = renamed m.names (units.map (·.unit.identity)) := by
  induction units generalizing m memory with
  | nil => rfl
  | cons v units ih =>
    have first : (m.loadUnit memory v).1.names = m.names.set v.unit.name v.unit.token := by
      rw [loadUnit]
      cases v.slot <;> rfl
    rw [loadUnits, ih, first]
    rfl

theorem names_load (m : Machine) (memory : Memory) (ip : InstrumentedProgram) :
    (m.load memory ip).1.names = renamed m.names (ip.units.map (·.unit.identity)) := by
  rw [load, names_loadUnits]
  split <;> rfl

end Host.Machine

/-! ### One order -/

/-- A coverage map and an instrumented program agree with a program on its units.  Both have them in
the order of the program, in which a unit comes first and then the units of its boundaries in the
order of sites.  These are the units that a survey comes upon, those that a rewriting takes out
whatever probes it puts in, and those that loading goes on with.  No unit comes twice, every
boundary is gone through once and behind the unit it lies in, and a token finds the one unit that
has it.  Loading follows the same order, so a name that several units have stands for the same one
of them, with probes and without. -/
structure UnitsAgree (p : Program) (coverage : CoverageMap) (ip : InstrumentedProgram) : Prop where
  mapped : coverage.units.map (·.identity) = p.allUnits.map (·.identity)
  instrumented : ip.units.map (·.unit.identity) = p.allUnits.map (·.identity)
  surveyed : ∀ u ∈ p.allUnits, u.survey.nested = u.boundaries
  removed : ∀ u ∈ p.allUnits, ∀ place site,
    (Injection.rewrite place site u.root).nested = u.boundaries
  listed : ∀ u ∈ p.allUnits, u.root.directUnits = u.boundaries
  visits : ∀ u ∈ p.allUnits, u.all = u :: u.boundaries.flatMap CodeUnit.all
  tokens_nodup : (p.allUnits.map (·.token)).Nodup
  perm : p.allUnits.Perm (p.units ++ p.allUnits.flatMap CodeUnit.boundaries)
  parent_first : ∀ u ∈ p.allUnits, ∀ v ∈ u.boundaries,
    ∃ before between after, p.allUnits = before ++ u :: between ++ v :: after
  map_found : ∀ token known,
    coverage.unit? token = some known ↔ known ∈ coverage.units ∧ known.token = token
  unit_found : ∀ token v, ip.unit? token = some v ↔ v ∈ ip.units ∧ v.unit.token = token
  names_eq : ∀ (m : Host.Machine) (memory : Memory),
    (m.load memory ip).1.names = (m.loadPlain p).names

/-- A program is instrumented with its own map, with its probes or without. -/
theorem Program.exists_instrument {p : Program} {coverage : CoverageMap}
    (accepted : p.analyze = .ok coverage) (options : InjectionOptions) :
    ∃ ip, p.instrument options coverage = .ok ip := by
  obtain ⟨moduleId, enabled⟩ := options
  cases enabled with
  | false => exact ⟨_, p.instrument_disabled moduleId coverage⟩
  | true => exact ⟨_, Program.instrument_own accepted moduleId⟩

/-- An instrumented program has the units of the program, in their order. -/
theorem Program.identities_instrument {p : Program} {coverage : CoverageMap}
    {options : InjectionOptions} {ip : InstrumentedProgram}
    (h : p.instrument options coverage = .ok ip) :
    ip.units.map (·.unit.identity) = p.allUnits.map (·.identity) := by
  have made := map_eq_map_ok_iff.1 (Program.instrument_ok h).2
  rw [eq_comm, ← List.forall₂_eq_eq_eq, List.forall₂_map_left_iff, List.forall₂_map_right_iff]
  exact made.imp fun u v hv =>
    congrArg UnitHeader.identity (CodeUnit.instrument_ok hv).header_eq.symm

/-- **Analysis, injection and loading go through the units of an accepted program in one order.** -/
theorem Program.units_agree {p : Program} {coverage : CoverageMap}
    (accepted : p.analyze = .ok coverage) (options : InjectionOptions) :
    ∃ ip, p.instrument options coverage = .ok ip ∧ UnitsAgree p coverage ip := by
  obtain ⟨ip, hip⟩ := Program.exists_instrument accepted options
  obtain ⟨-, hunits, hnodup⟩ := Program.analyze_ok accepted
  have mapped : coverage.units.map (·.identity) = p.allUnits.map (·.identity) := by
    rw [hunits, List.map_map]
    rfl
  have instrumented := Program.identities_instrument hip
  -- tokens are part of what units are known by, and so none comes twice in the results
  have mapTokens : (coverage.units.map UnitMap.token).Nodup := by
    have tokens := congrArg (List.map Prod.fst) mapped
    rw [List.map_map, List.map_map] at tokens
    exact tokens ▸ hnodup
  have unitTokens : (ip.units.map (·.unit.token)).Nodup := by
    have tokens := congrArg (List.map Prod.fst) instrumented
    rw [List.map_map, List.map_map] at tokens
    exact tokens ▸ hnodup
  exact ⟨ip, hip,
    { mapped := mapped
      instrumented := instrumented
      surveyed := fun u _ => u.nested_survey.trans u.root.directUnits_eq
      removed := fun u _ place site => by
        rw [Injection.rewrite_eq]
        exact u.root.directUnits_eq
      listed := fun u _ => u.root.directUnits_eq
      visits := fun u _ => u.all_eq
      tokens_nodup := hnodup
      perm := p.allUnits_perm
      parent_first := fun u hu v hv => Program.parent_first hu hv
      map_found := fun _ _ => find?_eq_some_iff_of_nodup mapTokens
      unit_found := fun _ _ => find?_eq_some_iff_of_nodup unitTokens
      names_eq := fun m memory => by rw [m.names_load, m.names_loadPlain, instrumented] }⟩

/-! ## An example -/

/-- A program with a unit nested in another, with its probes and without. -/
theorem countdown_units_agree : countdown.analyze = .ok countdownMap ∧
    (∃ ip, countdown.instrument {} countdownMap = .ok ip ∧
      UnitsAgree countdown countdownMap ip) ∧
    ∃ ip, countdown.instrument { enabled := false } countdownMap = .ok ip ∧
      UnitsAgree countdown countdownMap ip :=
  ⟨countdown_analyze, Program.units_agree countdown_analyze _,
    Program.units_agree countdown_analyze _⟩

end SpanCoverage
