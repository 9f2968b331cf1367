import SpanCoverage.Proofs.Accepted
import SpanCoverage.Proofs.Determinism
import SpanCoverage.Proofs.Reachability

/-!
# What is reached is covered

Under observation, a host keeps a log of the points that its calls reach.  For an accepted program
this file compares the log with the program's coverage map, for every session that loads the program
and nothing else, also in the middle of a call.

The main results are:

* `observed_kept` — the log of such a session holds only points of the program's units, or the
  header of an overlooked loop.
* `covered_iff_not_overlooked` — all that a log says is covered, exactly if it holds no such header.
-/

namespace SpanCoverage

/-- The map has a span of this kind at this site of a unit. -/
def CoverageMap.Covers (m : CoverageMap) (token : MethodToken) (site : Nat) (kind : SpanKind) :
    Prop :=
  ∃ known, m.unit? token = some known ∧
    ∃ span ∈ known.spans.spans, span.site = site ∧ span.kind = kind

/-- A table that numbers points has a span for each of them, and no other. -/
theorem SpanTable.exists_mem_ofPoints (points : List Point) (site : Nat) (kind : SpanKind) :
    (∃ span ∈ (ofPoints points).spans, span.site = site ∧ span.kind = kind) ↔
      ∃ p ∈ points, p.site = site ∧ p.kind = kind := by
  show (∃ span ∈ number 0 points, span.site = site ∧ span.kind = kind) ↔ _
  generalize 0 = start
  induction points generalizing start with
  | nil => simp [number]
  | cons p points ih =>
    simp only [number, List.mem_cons, exists_eq_or_imp, ih (start + 1)]

namespace Host

/-- What the map of an accepted program covers are the points of its units. -/
theorem covers_iff_known {p : Program} {coverage : CoverageMap}
    (accepted : p.analyze = .ok coverage) (token : MethodToken) (site : Nat) (kind : SpanKind) :
    coverage.Covers token site kind ↔ Known p.allUnits token site kind := by
  constructor
  · rintro ⟨known, hknown, hspan⟩
    have hmem := List.mem_of_find?_eq_some hknown
    have htoken := List.find?_some hknown
    rw [(Program.analyze_ok accepted).2.1] at hmem
    obtain ⟨u, hu, rfl⟩ := List.mem_map.1 hmem
    refine ⟨u, hu, by simpa [CodeUnit.spanMap] using htoken, ?_⟩
    exact (SpanTable.exists_mem_ofPoints u.points site kind).1 hspan
  · rintro ⟨u, hu, rfl, hpoint⟩
    refine ⟨u.spanMap, CoverageMap.unit?_eq accepted hu, ?_⟩
    exact (SpanTable.exists_mem_ofPoints u.points site kind).2 hpoint

/-! ## Sessions under observation -/

/-- A session on units of a program, with a log that is clean or excused. -/
structure Session.Charted (units : List CodeUnit) (s : Session Log) : Prop where
  code : s.machine.code.All (· ∈ units)
  record : (pointWatch units).Kept s.record

section Sessions

variable {units : List CodeUnit} {s s' : Session Log}

theorem Session.Charted.callRun (hvalid : ∀ u ∈ units, u.defects = []) (hs : s.Charted units)
    (callee : Value) (args : List Value) (fuel : Nat) :
    (pointWatch units).Kept (Rig.observed.callRun s callee args fuel s.world).2.record := by
  have hsteps := steps_charted hvalid hs.code (fuel + 1)
  exact (hsteps.call callee args s.world).kept hs.record

theorem Session.Charted.apply (hvalid : ∀ u ∈ units, u.defects = []) (hs : s.Charted units)
    {callee : Value} {args : List Value} {fuel : Nat} {result : Except HostError Value}
    (h : Rig.observed.apply s callee args fuel = some (result, s')) : s'.Charted units := by
  have hrun := hs.callRun hvalid callee args fuel
  obtain ⟨outcome, w, hw, -, rfl⟩ := Rig.apply_some h
  rw [hw] at hrun
  exact ⟨hs.code, hrun⟩

/-- Every step that loads nothing keeps the log as it should be. -/
theorem Session.Charted.does (hvalid : ∀ u ∈ units, u.defects = []) (hs : s.Charted units)
    {step : Step} {reply : Reply Log} (hstep : step.LoadsNothing)
    (h : Rig.observed.Does s step reply s') : s'.Charted units := by
  cases h with
  | loadPlain => cases hstep
  | load => cases hstep
  | apply fuel h => exact hs.apply hvalid h
  | flush => exact ⟨hs.code, hs.record⟩
  | call fuel h =>
    rcases Rig.call_some h with ⟨token, happly⟩ | ⟨-, rfl⟩
    · exact hs.apply hvalid happly
    · exact hs

/-- **The log of a session holds only points of the program's units**, or the header of an
overlooked loop. -/
theorem observed_kept (hvalid : ∀ u ∈ units, u.defects = []) (hs : s.Charted units)
    {script : List Step} (hscript : ∀ step ∈ script, step.LoadsNothing) {log : Log}
    (h : Rig.observed.Shows s script log) : (pointWatch units).Kept log := by
  have runs {replies : List (Reply Log)} {s' : Session Log}
      (hruns : Rig.observed.Runs s script replies s') : s'.Charted units :=
    (hruns.keeps (fun hstep hs hdoes => ⟨hs.does hvalid hstep hdoes, trivial⟩) hscript hs
      : _ ∧ ∀ reply ∈ replies, True).1
  cases h with
  | behind hruns => exact (runs hruns).record
  | within hruns callee args fuel => exact (runs hruns).callRun hvalid callee args fuel

end Sessions

theorem Rig.shows_loadPlain {σ ρ : Type} {rig : Rig σ ρ} {s : Session σ} {p : Program}
    {script : List Step} {record : σ} (h : rig.Shows s (.loadPlain p :: script) record) :
    rig.Shows { s with machine := s.machine.loadPlain p } script record := by
  cases h with
  | behind hruns =>
    cases hruns with
    | step first rest =>
      cases first
      exact .behind rest
  | within hruns callee args fuel =>
    cases hruns with
    | step first rest =>
      cases first
      exact .within rest callee args fuel

/-- **All that is reached is covered, exactly if no overlooked loop header is reached.**  The
session loads an accepted program and nothing else; it may be looked at behind any of its steps, and
in the middle of any call. -/
theorem covered_iff_not_overlooked {p : Program} {coverage : CoverageMap}
    (accepted : p.analyze = .ok coverage) {script : List Step}
    (hscript : ∀ step ∈ script, step.LoadsNothing) {maxDepth : Nat} {heap : Heap} {log : Log}
    (h : Rig.observed.Shows (.fresh maxDepth heap {}) (.loadPlain p :: script) log) :
    (∀ token site kind, .reached token site kind ∈ log.events →
        coverage.Covers token site kind) ↔
      ∀ u ∈ p.allUnits, ∀ site ∈ u.overlooked,
        .reached u.token site .loopHeader ∉ log.events := by
  have hvalid := (Program.analyze_ok accepted).1
  constructor
  · intro hcovered u hu site hsite hreached
    obtain ⟨known, hknown, hspan⟩ := hcovered _ _ _ hreached
    rw [CoverageMap.unit?_eq accepted hu] at hknown
    cases hknown
    obtain ⟨q, hq, hqsite, hqkind⟩ := (SpanTable.exists_mem_ofPoints u.points _ _).1 hspan
    exact CodeUnit.not_header_of_overlooked hsite q hq hqsite hqkind
  · intro hseen token site kind hreached
    have hfresh : Session.Charted p.allUnits
        { Session.fresh maxDepth heap {} with
          machine := (Session.fresh maxDepth heap ({} : Log)).machine.loadPlain p } := by
      refine ⟨Code.All.loadPlain (fun u hu => hu) ?_, .inr ?_⟩
      · intro token u hu
        cases hu
      · intro token site kind hmem
        cases hmem
    rcases observed_kept hvalid hfresh hscript (Rig.shows_loadPlain h) with hbroken | hclean
    · obtain ⟨token', site', hheader, u, hu, rfl, hsite⟩ := hbroken
      exact absurd hheader (hseen u hu site' hsite)
    · exact (covers_iff_known accepted token site kind).2 (hclean token site kind hreached)

theorem greeting_covered :
    ∃ log, Rig.observed.Shows (.fresh 8 {} {}) [.loadPlain greeting, .call "main" []] log ∧
      .reached ⟨0x06000001⟩ 6 .statement ∈ log.events ∧
      ∀ token site kind, .reached token site kind ∈ log.events →
        greetingMap.Covers token site kind := by
  have greeted : ∃ log, Rig.observed.Shows (.fresh 8 {} {}) [.loadPlain greeting, .call "main" []]
      log ∧ .reached ⟨0x06000001⟩ 6 .statement ∈ log.events :=
    ⟨_, .behind (.step (.loadPlain _ _) (.step (.call 4 rfl) (.done _))), by decide⟩
  obtain ⟨log, hlog, hprint⟩ := greeted
  refine ⟨log, hlog, hprint, (covered_iff_not_overlooked greeting_analyze ?_ hlog).2 ?_⟩
  · intro step hstep
    cases List.mem_singleton.1 hstep
    trivial
  · intro u hu site hsite
    have hmain : u = greeting.units[0] := List.mem_singleton.1 hu
    have hnone : greeting.units[0].overlooked = [] := by decide
    rw [hmain, hnone] at hsite
    cases hsite

/-- A loop that tests behind an update that ends with a `continue`, and a line behind the loop. -/
def skipping : Program where
  name := "skipping"
  units := [⟨{ token := ⟨0x06000001⟩, name := "main", range := .none },
    .seq [
      .loop .after none (.const (.bool false)) (some (.stmt .next .none)) (.stmt .skip .none) .none,
      .stmt (.print (.const (.str "after"))) .none]⟩]

/-- The span table of its unit, without the loop's header and the line behind the loop. -/
def skippingMap : CoverageMap := ⟨"skipping", skipping.units.map CodeUnit.spanMap⟩

theorem skipping_analyze : skipping.analyze = .ok skippingMap :=
  Program.analyze_eq_ok_iff.2 ⟨by decide, by decide, rfl⟩

/-- The line behind the loop is printed, and nothing of the map stands for it. -/
theorem skipping_not_covered :
    skipping.analyze = .ok skippingMap ∧
      ∃ log, Rig.observed.Shows (.fresh 8 {} {}) [.loadPlain skipping, .call "main" []] log ∧
        .reached ⟨0x06000001⟩ 4 .statement ∈ log.events ∧
        ¬ skippingMap.Covers ⟨0x06000001⟩ 4 .statement := by
  refine ⟨skipping_analyze, _,
    .behind (.step (.loadPlain _ _) (.step (.call 4 rfl) (.done _))), ?_, ?_⟩
  · decide
  · rintro ⟨known, hknown, span, hspan, hsite, -⟩
    have htable : known = skipping.units[0].spanMap := (Option.some.inj hknown).symm
    rw [htable] at hspan
    have hnone : ∀ span ∈ skipping.units[0].spanMap.spans.spans, span.site ≠ 4 := by decide
    exact hnone span hspan hsite

end Host

end SpanCoverage
