import Mathlib.Data.List.Forall2
import SpanCoverage.Injection.Program

/-!
# Accepted programs

What it means that the analysis accepts a program and that the injection succeeds.  Both go through
the units of the program from the first on, so their results are lists in the order of the units.

The main results are:

* `Program.analyze_eq_ok_iff` — a program is accepted exactly if its units have no defects and no
  token comes twice; its map has the span table of each unit.
* `Program.instrument_ok` — an instrumented program has one unit for each unit of the program.
* `CoverageMap.unit?_eq` — a unit of an accepted program finds its own table.
-/

namespace SpanCoverage

/-- A traversal succeeds exactly if it succeeds at every member of the list. -/
theorem mapM_ok_iff {ε α β : Type} (f : α → Except ε β) (l : List α) (l' : List β) :
    l.mapM f = .ok l' ↔ l.map f = l'.map Except.ok := by
  induction l generalizing l' with
  | nil => cases l' <;> simp [pure, Except.pure]
  | cons a l ih =>
    rw [List.mapM_cons, List.map_cons]
    cases ha : f a with
    | error e => cases l' <;> simp [bind, Except.bind]
    | ok b =>
      cases hl : l.mapM f with
      | error e =>
        constructor
        · intro h
          cases h
        · intro h
          cases l' with
          | nil => cases h
          | cons b' l' =>
            have hrest := (ih l').2 (List.cons.inj h).2
            rw [hl] at hrest
            cases hrest
      | ok bs =>
        have hbs := (ih bs).1 hl
        constructor
        · intro h
          cases h
          rw [hbs]
          rfl
        · intro h
          cases l' with
          | nil => cases h
          | cons b' l' =>
            obtain ⟨hb, hrest⟩ := List.cons.inj h
            have hl' := (ih l').2 hrest
            rw [hl] at hl'
            cases hb
            cases hl'
            rfl

/-- The results of a traversal that succeeds belong to the members of the list one by one. -/
theorem map_eq_map_ok_iff {ε α β : Type} {f : α → Except ε β} {l : List α} {l' : List β} :
    l.map f = l'.map Except.ok ↔ List.Forall₂ (fun a b => f a = .ok b) l l' := by
  rw [← List.forall₂_eq_eq_eq, List.forall₂_map_left_iff, List.forall₂_map_right_iff]

/-- A list with a first member is split at it or behind it. -/
theorem exists_split_cons {α : Type} {P : List α → α → List α → Prop} {a : α} {l : List α} :
    (∃ before x after, a :: l = before ++ x :: after ∧ P before x after) ↔
      P [] a l ∨ ∃ before x after, l = before ++ x :: after ∧ P (a :: before) x after := by
  constructor
  · rintro ⟨before, x, after, heq, h⟩
    cases before with
    | nil =>
      obtain ⟨rfl, rfl⟩ := List.cons.inj heq
      exact .inl h
    | cons first before =>
      obtain ⟨rfl, rfl⟩ := List.cons.inj heq
      exact .inr ⟨before, x, after, rfl, h⟩
  · rintro (h | ⟨before, x, after, rfl, h⟩)
    · exact ⟨[], a, l, rfl, h⟩
    · exact ⟨a :: before, x, after, rfl, h⟩

/-- A traversal fails exactly if it fails at some member of the list and at none before. -/
theorem mapM_error_iff {ε α β : Type} (f : α → Except ε β) (l : List α) (e : ε) :
    l.mapM f = .error e ↔ ∃ before a after, l = before ++ a :: after ∧
      (∀ a' ∈ before, ∃ b, f a' = .ok b) ∧ f a = .error e := by
  induction l with
  | nil => simp [pure, Except.pure]
  | cons a l ih =>
    rw [List.mapM_cons, exists_split_cons]
    cases ha : f a with
    | error e' => simp [bind, Except.bind, ha]
    | ok b =>
      have hrest : ((do let b' ← .ok b; let bs ← l.mapM f; pure (b' :: bs)) : Except ε (List β)) =
          .error e ↔ l.mapM f = .error e := by
        cases l.mapM f <;> simp [bind, Except.bind, pure, Except.pure]
      rw [hrest, ih]
      simp [ha]

/-! ## Analysis -/

namespace CodeUnit

theorem analyze_eq_ok_iff {u : CodeUnit} {known : UnitMap} :
    u.analyze = .ok known ↔ u.defects = [] ∧ known = u.spanMap := by
  rw [analyze]
  cases hfound : u.analyzeParted with
  | error e =>
    constructor
    · intro h
      cases h
    · intro h
      cases hfound.symm.trans (analyzeParted_eq_ok_iff.2 ⟨h.1, rfl⟩)
  | ok found =>
    obtain ⟨hvalid, rfl⟩ := analyzeParted_eq_ok_iff.1 hfound
    simpa [hvalid] using eq_comm

theorem analyzeAll_eq_ok_iff {u : CodeUnit} {known : List UnitMap} :
    u.analyzeAll = .ok known ↔ (∀ v ∈ u.all, v.defects = []) ∧ known = u.all.map spanMap := by
  rw [analyzeAll_eq, mapM_ok_iff]
  generalize u.all = units
  induction units generalizing known with
  | nil => cases known <;> simp
  | cons v units ih =>
    cases known with
    | nil => simp
    | cons first rest =>
      rw [List.map_cons, List.map_cons, List.cons.injEq, analyze_eq_ok_iff, ih, List.map_cons,
        List.cons.injEq, List.forall_mem_cons]
      exact and_and_and_comm

end CodeUnit

namespace Program

/-- Maps are added in order, and a list of maps without a token twice stays one. -/
theorem addUnits_eq_ok_iff {known units result : List UnitMap}
    (hknown : (known.map UnitMap.token).Nodup) :
    addUnits known units = .ok result ↔
      result = known ++ units ∧ (result.map UnitMap.token).Nodup := by
  induction units generalizing known with
  | nil =>
    rw [addUnits, Except.ok.injEq, List.append_nil]
    exact ⟨fun h => ⟨h.symm, h ▸ hknown⟩, fun h => h.1.symm⟩
  | cons u units ih =>
    have happend : known ++ u :: units = (known ++ [u]) ++ units := by simp
    by_cases hu : u.token ∈ known.map UnitMap.token
    · have hany : known.any (·.token == u.token) = true := by
        obtain ⟨v, hv, hvu⟩ := List.mem_map.1 hu
        exact List.any_eq_true.2 ⟨v, hv, by simp [hvu]⟩
      rw [addUnits, if_pos hany]
      refine iff_of_false nofun ?_
      rintro ⟨rfl, hnodup⟩
      rw [List.map_append, List.nodup_append] at hnodup
      exact hnodup.2.2 _ hu _ List.mem_cons_self rfl
    · have hany : ¬ known.any (·.token == u.token) = true := by
        rw [List.any_eq_true]
        rintro ⟨v, hv, hvu⟩
        exact hu (List.mem_map.2 ⟨v, hv, by simpa using hvu⟩)
      have hnext : ((known ++ [u]).map UnitMap.token).Nodup := by
        rw [List.map_append, List.nodup_append]
        refine ⟨hknown, by simp, ?_⟩
        rintro token htoken _ hlast rfl
        exact hu (List.mem_singleton.1 hlast ▸ htoken)
      rw [addUnits, if_neg hany, ih hnext, happend]

theorem analyzeUnits_eq_ok_iff {known result : List UnitMap} {units : List CodeUnit}
    (hknown : (known.map UnitMap.token).Nodup) :
    analyzeUnits known units = .ok result ↔
      (∀ u ∈ units.flatMap CodeUnit.all, u.defects = []) ∧
        result = known ++ (units.flatMap CodeUnit.all).map CodeUnit.spanMap ∧
        (result.map UnitMap.token).Nodup := by
  induction units generalizing known with
  | nil =>
    rw [analyzeUnits, Except.ok.injEq]
    constructor
    · rintro rfl
      exact ⟨by simp, (List.append_nil _).symm, hknown⟩
    · intro h
      simpa using h.2.1.symm
  | cons u units ih =>
    rw [analyzeUnits]
    simp only [List.flatMap_cons, List.forall_mem_append, List.map_append]
    cases hall : u.analyzeAll with
    | error e =>
      refine iff_of_false nofun fun h => ?_
      have hok := CodeUnit.analyzeAll_eq_ok_iff.2 ⟨h.1.1, rfl⟩
      cases hall.symm.trans hok
    | ok maps =>
      obtain ⟨hdefects, rfl⟩ := CodeUnit.analyzeAll_eq_ok_iff.1 hall
      dsimp only
      cases hadd : addUnits known (u.all.map CodeUnit.spanMap) with
      | error e =>
        refine iff_of_false nofun ?_
        -- The maps of the first units are a part of the result, where no token comes twice.
        rintro ⟨-, rfl, hnodup⟩
        rw [← List.append_assoc, List.map_append, List.nodup_append] at hnodup
        cases hadd.symm.trans ((addUnits_eq_ok_iff hknown).2 ⟨rfl, hnodup.1⟩)
      | ok known' =>
        obtain ⟨rfl, hnodup⟩ := (addUnits_eq_ok_iff hknown).1 hadd
        rw [ih hnodup, List.append_assoc]
        exact ⟨fun h => ⟨⟨hdefects, h.1⟩, h.2⟩, fun h => ⟨h.1.2, h.2⟩⟩

/-- **Which programs are accepted, and with which map.** -/
theorem analyze_eq_ok_iff {p : Program} {coverage : CoverageMap} :
    p.analyze = .ok coverage ↔
      (∀ u ∈ p.allUnits, u.defects = []) ∧ (p.allUnits.map (·.token)).Nodup ∧
        coverage = ⟨p.name, p.allUnits.map CodeUnit.spanMap⟩ := by
  have htokens : (p.allUnits.map CodeUnit.spanMap).map UnitMap.token =
      p.allUnits.map (·.token) := by
    rw [List.map_map]
    rfl
  have hunits (units : List UnitMap) : analyzeUnits [] p.units = .ok units ↔
      (∀ u ∈ p.allUnits, u.defects = []) ∧ units = p.allUnits.map CodeUnit.spanMap ∧
        (units.map UnitMap.token).Nodup := by
    have hnone : (([] : List UnitMap).map UnitMap.token).Nodup := List.nodup_nil
    rw [analyzeUnits_eq_ok_iff hnone, List.nil_append]
    rfl
  unfold analyze
  cases h : analyzeUnits [] p.units with
  | error e =>
    refine iff_of_false nofun ?_
    rintro ⟨hdefects, hnodup, -⟩
    rw [← htokens] at hnodup
    cases h.symm.trans ((hunits _).2 ⟨hdefects, rfl, hnodup⟩)
  | ok units =>
    obtain ⟨hdefects, rfl, hnodup⟩ := (hunits units).1 h
    rw [htokens] at hnodup
    rw [Except.ok.injEq]
    exact ⟨fun h => ⟨hdefects, hnodup, h.symm⟩, fun h => h.2.2.symm⟩

/-- **What it means that a program is accepted.** -/
theorem analyze_ok {p : Program} {coverage : CoverageMap} (h : p.analyze = .ok coverage) :
    (∀ u ∈ p.allUnits, u.defects = []) ∧ coverage.units = p.allUnits.map CodeUnit.spanMap ∧
      (p.allUnits.map (·.token)).Nodup := by
  obtain ⟨hdefects, hnodup, rfl⟩ := analyze_eq_ok_iff.1 h
  exact ⟨hdefects, rfl, hnodup⟩

end Program

/-- In a list with keys of their own, a key finds the member it belongs to. -/
theorem find?_eq_some_iff_of_nodup {α κ : Type} [DecidableEq κ] {key : α → κ} {l : List α}
    (h : (l.map key).Nodup) {k : κ} {a : α} :
    l.find? (key · == k) = some a ↔ a ∈ l ∧ key a = k := by
  constructor
  · exact fun hfind => ⟨List.mem_of_find?_eq_some hfind, by simpa using List.find?_some hfind⟩
  · rintro ⟨ha, rfl⟩
    induction l with
    | nil => cases ha
    | cons b l ih =>
      rw [List.map_cons, List.nodup_cons] at h
      rcases List.mem_cons.1 ha with rfl | ha
      · simp
      · have hne : key b ≠ key a := fun heq => h.1 (heq ▸ List.mem_map_of_mem ha)
        rw [List.find?_cons_of_neg (by simpa using hne)]
        exact ih h.2 ha

/-- A unit of an accepted program finds its own table. -/
theorem CoverageMap.unit?_eq {p : Program} {coverage : CoverageMap} (h : p.analyze = .ok coverage)
    {u : CodeUnit} (hu : u ∈ p.allUnits) : coverage.unit? u.token = some u.spanMap := by
  obtain ⟨-, hunits, hnodup⟩ := Program.analyze_ok h
  have htokens : (coverage.units.map UnitMap.token).Nodup := by
    rw [hunits, List.map_map]
    exact hnodup
  refine (find?_eq_some_iff_of_nodup htokens).2 ⟨?_, rfl⟩
  rw [hunits]
  exact List.mem_map_of_mem hu

/-! ## Injection -/

/-- The forms that injection gives a unit: it is spliced by a table, with a slot for the table's
spans, or only parted from the units nested in it. -/
inductive Injected (u : CodeUnit) : InstrumentedUnit → Prop
  | spliced (table : SpanTable) (placed : table.unplaced? u.probePoints = none) :
    Injected u ⟨{ u with root := Injection.spliceRoot table.placement u.root },
      some ⟨u.token, table.size⟩, contractVersion⟩
  | stripped : Injected u u.withoutProbes

/-- Injection changes nothing of a unit but its body. -/
theorem Injected.header_eq {u : CodeUnit} {v : InstrumentedUnit} (h : Injected u v) :
    v.unit.toUnitHeader = u.toUnitHeader := by
  cases h <;> rfl

/-- A unit that injection gives a slot creates its payload first, and the slot is its own. -/
theorem Injected.of_slot {u : CodeUnit} {v : InstrumentedUnit} (h : Injected u v) {d : PayloadDecl}
    (hslot : v.slot = some d) :
    d.token = v.unit.token ∧ ∃ body, v.unit.root = .seq (.acquire :: body) := by
  cases h with
  | spliced table placed =>
    cases hslot
    exact ⟨rfl, _, rfl⟩
  | stripped => cases hslot

theorem CodeUnit.instrument_ok {options : InjectionOptions} {coverage : CoverageMap} {u : CodeUnit}
    {v : InstrumentedUnit} (h : u.instrument options coverage = .ok v) : Injected u v := by
  by_cases henabled : options.enabled = true
  · cases hu : coverage.unit? u.token with
    | none =>
      rw [CodeUnit.instrument_of_missing henabled hu] at h
      cases h
    | some known =>
      rw [CodeUnit.instrument_of_known henabled hu] at h
      cases hplaced : known.spans.unplaced? u.probePoints with
      | some index =>
        rw [CodeUnit.inject_of_some hplaced] at h
        cases h
      | none =>
        rw [CodeUnit.inject_of_none hplaced] at h
        cases h
        exact .spliced known.spans hplaced
  · rw [CodeUnit.instrument_of_disabled (Bool.eq_false_iff.2 henabled)] at h
    cases h
    exact .stripped

/-- **An instrumented program has one unit for each unit of the program.** -/
theorem Program.instrument_ok {options : InjectionOptions} {coverage : CoverageMap} {p : Program}
    {ip : InstrumentedProgram} (h : p.instrument options coverage = .ok ip) :
    ip.moduleId = options.moduleId ∧
      p.allUnits.map (CodeUnit.instrument options coverage) = ip.units.map .ok := by
  rw [Program.instrument_eq] at h
  cases hunits : p.allUnits.mapM (CodeUnit.instrument options coverage) with
  | error e =>
    rw [hunits] at h
    cases h
  | ok units =>
    rw [hunits] at h
    cases h
    exact ⟨rfl, (mapM_ok_iff _ _ _).1 hunits⟩

/-- The units of an instrumented program are made from units. -/
theorem Program.exists_injected {options : InjectionOptions} {coverage : CoverageMap} {p : Program}
    {ip : InstrumentedProgram} (h : p.instrument options coverage = .ok ip) {v : InstrumentedUnit}
    (hv : v ∈ ip.units) : ∃ u ∈ p.allUnits, Injected u v := by
  have hmade : .ok v ∈ p.allUnits.map (CodeUnit.instrument options coverage) := by
    rw [(Program.instrument_ok h).2]
    exact List.mem_map_of_mem hv
  obtain ⟨u, hu, hv⟩ := List.mem_map.1 hmade
  exact ⟨u, hu, CodeUnit.instrument_ok hv⟩

/-! ## An example -/

/-- A program that leaves a loop, jumps over a line, and greets. -/
def greeting : Program where
  name := "greeting"
  units := [⟨{ token := ⟨0x06000001⟩, name := "main", range := .none },
    .seq [
      .loop .before none (.const (.bool true)) none (.stmt .leave .none) .none,
      .stmt (.goto "end") .none,
      .stmt (.print (.const (.str "never"))) .none,
      .label "end" .none,
      .stmt (.print (.const (.str "hello"))) .none]⟩]

/-- The span table of its unit. -/
def greetingMap : CoverageMap := ⟨"greeting", greeting.units.map CodeUnit.spanMap⟩

/-- The program with its probes; the line that is never reached has none. -/
def greetingInstrumented : InstrumentedProgram where
  name := "greeting"
  moduleId := .zero
  units := [⟨⟨{ token := ⟨0x06000001⟩, name := "main", range := .none },
    .seq [.acquire, .probe 0, .seq [
      .loop .before none (.probed 1 (.const (.bool true))) none
        (.seq [.probe 2, .stmt .leave .none]) .none,
      .probe 3, .stmt (.goto "end") .none,
      .stmt (.print (.const (.str "never"))) .none,
      .label "end" .none, .probe 4,
      .probe 5, .stmt (.print (.const (.str "hello"))) .none]]⟩,
    some ⟨⟨0x06000001⟩, 6⟩, contractVersion⟩]

theorem greeting_analyze : greeting.analyze = .ok greetingMap :=
  Program.analyze_eq_ok_iff.2 ⟨by decide, by decide, rfl⟩

theorem greeting_instrument : greeting.instrument {} greetingMap = .ok greetingInstrumented :=
  (Program.instrument_eq ..).trans rfl

end SpanCoverage
