import SpanCoverage.Host.Replay
import SpanCoverage.Proofs.Ownership

/-!
# Hits of machines that share a registry

Each machine marks arrays of its own, and the row of a unit belongs to the machine that was the last
one to enter the unit for the first time.  So a mark shows in a report exactly if this machine made
it as well: what the others marked is lost, even where all machines run the same program.

The main results are:

* `shared_hits_shown_iff` — which marks show in the reports of machines that share a registry.
* `choosing_loses_hit` — a session in which a mark does not show.
-/

namespace SpanCoverage

/-- Whether a report has the span of a unit set. -/
def Report.Shows (report : Report) (token : MethodToken) (span : Nat) : Prop :=
  ∃ row ∈ report.rows, row.index = token.methodIndex ∧ row.hits[span]? = some true

instance (report : Report) (token : MethodToken) (span : Nat) :
    Decidable (report.Shows token span) :=
  inferInstanceAs (Decidable (∃ row ∈ report.rows, _))

namespace Host

section Shown

variable {κ : Type} [DecidableEq κ] {units : List CodeUnit} {j : Journal κ} {report : Report}

/-- A machine's marks of a unit, span by span. -/
theorem Journal.hits_eq_true_iff (j : Journal κ) (k : κ) {u : CodeUnit} {span : Nat}
    (hspan : span < u.spanMap.spans.size) :
    (j.hits k u)[span]? = some true ↔ (k, u.token, span) ∈ j.marks := by
  rw [Journal.hits, List.getElem?_map, List.getElem?_range hspan, Option.map_some,
    Option.some.injEq, decide_eq_true_iff]

/-- **A span of a unit is set exactly if the owner of the unit's row marked it**, where units have
rows of their own. -/
theorem OwnersReport.shows_iff (h : OwnersReport units j report)
    (distinct : (units.map fun u => u.token.methodIndex).Nodup) {u : CodeUnit} (hu : u ∈ units)
    {span : Nat} (hspan : span < u.spanMap.spans.size) :
    report.Shows u.token span ↔
      ∃ owner, ownerOf j.entries u.token.methodIndex = some (owner, u.token) ∧
        (owner, u.token, span) ∈ j.marks := by
  constructor
  · rintro ⟨row, hrow, hindex, hhit⟩
    obtain ⟨owner, v, hv, howner, hhits⟩ := (h.rows row).1 hrow
    have hsame : v = u :=
      List.inj_on_of_nodup_map distinct hv hu ((of_ownerOf howner).2.trans hindex)
    rw [hindex, hsame] at howner
    rw [hhits, hsame, j.hits_eq_true_iff owner hspan] at hhit
    exact ⟨owner, howner, hhit⟩
  · rintro ⟨owner, howner, hmark⟩
    have hrow : ⟨u.token.methodIndex, j.hits owner u⟩ ∈ report.rows :=
      (h.rows _).2 ⟨owner, u, hu, howner, rfl⟩
    exact ⟨_, hrow, rfl, (j.hits_eq_true_iff owner hspan).2 hmark⟩

end Shown

/-- **Which marks show in the reports of machines that share a registry.**  Any number of
machines load one instrumented program, whose units have rows of their own and payloads within
the limit, and they are called and flushed in any order.  Then a mark that a machine made since
the last flush shows in the next report exactly if the owner of the unit's row, which is the
machine that was the last one to enter the unit for the first time, made it as well. -/
theorem shared_hits_shown_iff {p : Program} {coverage : CoverageMap} {limit : Nat}
    (accepted : p.analyze = .ok coverage)
    (distinct : (p.allUnits.map fun u => u.token.methodIndex).Nodup)
    (fits : ∀ u ∈ p.allUnits, u.spanMap.spans.size ≤ limit)
    (small : ∀ u ∈ p.allUnits, u.spanMap.spans.size < allocationBound)
    (moduleId : ModuleId) {κ : Type} [DecidableEq κ] (maxDepth : κ → Nat) (heap : Heap) :
    ∃ ip, p.instrument { moduleId := moduleId } coverage = .ok ip ∧
      ∀ (script : List (κ × Step)),
        (∀ step ∈ script, step.2 = .load ip ∨ step.2.LoadsNothing) →
        ∀ replies' f', Fleet.Runs (fun _ => Rig.payloads)
            (.fresh maxDepth heap (.withLimit limit)) script replies' f' →
          ∃ replies f, Fleet.Runs Rig.journaled (.fresh maxDepth heap ({}, .withLimit limit)) script
              replies f ∧ replies.map (Reply.map Prod.snd) = replies' ∧ f.payloads = f' ∧
            ∀ j report, .flushed (j, report) ∈ replies →
              ∀ k token span, (k, token, span) ∈ j.marks →
                (report.Shows token span ↔
                  ∃ owner, ownerOf j.entries token.methodIndex = some (owner, token) ∧
                    (owner, token, span) ∈ j.marks) := by
  refine ⟨_, Program.instrument_own accepted moduleId, fun script hscript replies' f' hruns => ?_⟩
  obtain ⟨replies, f, hjournaled, hreplies, hend⟩ :=
    Fleet.journaled_runs (f := .fresh maxDepth heap ({}, .withLimit limit)) hruns
  refine ⟨replies, f, hjournaled, hreplies, hend, fun j report hflush k token span hmark => ?_⟩
  obtain ⟨hreport, hmarks⟩ := (Fleet.owns_session accepted fits small
    (Program.instrument_own accepted moduleId) hscript hjournaled).2 _ hflush
  obtain ⟨-, u, hu, rfl, hspan⟩ := hmarks k token span hmark
  exact hreport.shows_iff distinct hu hspan

/-! ## An example -/

/-- A program that takes one of two ways. -/
def choosing : Program where
  name := "choosing"
  units := [⟨{ token := ⟨0x06000001⟩, name := "main", params := ["left"], range := .none },
    .branch (.var "left") (.stmt (.print (.const (.str "left"))) .none)
      (some (.stmt (.print (.const (.str "right"))) .none)) .none⟩]

/-- The span table of its unit: the entry, the condition, and the two ways. -/
def choosingMap : CoverageMap := ⟨"choosing", choosing.units.map CodeUnit.spanMap⟩

/-- The program with its probes. -/
def choosingInstrumented : InstrumentedProgram where
  name := "choosing"
  moduleId := .zero
  units := choosing.allUnits.map CodeUnit.withProbes

theorem choosing_analyze : choosing.analyze = .ok choosingMap :=
  Program.analyze_eq_ok_iff.2 ⟨by decide, by decide, rfl⟩

theorem choosing_instrument :
    choosing.instrument { moduleId := .zero } choosingMap = .ok choosingInstrumented :=
  Program.instrument_own choosing_analyze .zero

/-- Two machines load the program, each takes a way, and a flush follows. -/
def choosingScript (first second : Bool) : List (Bool × Step) :=
  [(false, .load choosingInstrumented), (true, .load choosingInstrumented),
    (false, .call "main" [.bool first]), (true, .call "main" [.bool second]), (false, .flush)]

theorem choosingScript_one (first second : Bool) : ∀ step ∈ choosingScript first second,
    step.2 = .load choosingInstrumented ∨ step.2.LoadsNothing := by
  simp [choosingScript, Step.LoadsNothing]

/-- Where both machines take the same way, its mark shows. -/
theorem choosing_shows_hits :
    ∃ replies f, Fleet.Runs Rig.journaled (.fresh (fun _ => 8) {} ({}, .withLimit 4))
        (choosingScript true true) replies f ∧
      replies.map (Reply.map Prod.snd) = [.loaded, .loaded, .answered (.ok .null) #["left"],
        .answered (.ok .null) #["left"], .flushed ⟨[⟨1, [true, true, true, false]⟩]⟩] ∧
      ∀ j report, .flushed (j, report) ∈ replies →
        ∀ k token span, (k, token, span) ∈ j.marks →
          (report.Shows token span ↔
            ∃ owner, ownerOf j.entries token.methodIndex = some (owner, token) ∧
              (owner, token, span) ∈ j.marks) := by
  have hsize : ∀ u ∈ choosing.allUnits, u.spanMap.spans.size = 4 := by decide
  obtain ⟨ip, hip, hshown⟩ := shared_hits_shown_iff choosing_analyze (List.nodup_singleton _)
    (fun u hu => Nat.le_of_eq (hsize u hu)) (fun u hu => by rw [hsize u hu]; decide) .zero
    (fun _ : Bool => 8) {}
  rw [choosing_instrument] at hip
  cases hip
  have hreplay : (Fleet.replay? (fun _ => Rig.payloads) 4
      (.fresh (fun _ => 8) {} (.withLimit 4)) (choosingScript true true)).map Prod.fst =
        some [.loaded, .loaded, .answered (.ok .null) #["left"], .answered (.ok .null) #["left"],
          .flushed ⟨[⟨1, [true, true, true, false]⟩]⟩] := by
    decide +kernel
  obtain ⟨f', hruns⟩ := Fleet.exists_runs_of_replay? hreplay
  obtain ⟨replies, f, hjournaled, hreplies, -, hflush⟩ :=
    hshown _ (choosingScript_one _ _) _ _ hruns
  exact ⟨replies, f, hjournaled, hreplies, hflush⟩

/-- The program is accepted, and where the machine that comes first takes another way than the other
one, its mark is lost. -/
theorem choosing_loses_hit :
    choosing.analyze = .ok choosingMap ∧
      choosing.instrument { moduleId := .zero } choosingMap = .ok choosingInstrumented ∧
      (choosing.allUnits.map fun u => u.token.methodIndex).Nodup ∧
      (∀ u ∈ choosing.allUnits, u.spanMap.spans.size = 4) ∧
      ∃ replies f, Fleet.Runs Rig.journaled (.fresh (fun _ => 8) {} ({}, .withLimit 4))
          (choosingScript true false) replies f ∧
        ∃ j report, .flushed (j, report) ∈ replies ∧ (false, ⟨0x06000001⟩, 2) ∈ j.marks ∧
          ¬ report.Shows ⟨0x06000001⟩ 2 := by
  let journal : Journal Bool :=
    ⟨[(false, ⟨0x06000001⟩), (true, ⟨0x06000001⟩)],
      [(false, ⟨0x06000001⟩, 0), (false, ⟨0x06000001⟩, 1), (false, ⟨0x06000001⟩, 2),
        (true, ⟨0x06000001⟩, 0), (true, ⟨0x06000001⟩, 1), (true, ⟨0x06000001⟩, 3)]⟩
  let report : Report := ⟨[⟨1, [true, true, false, true]⟩]⟩
  have hreplay : (Fleet.replay? Rig.journaled 4 (.fresh (fun _ => 8) {} ({}, .withLimit 4))
      (choosingScript true false)).map Prod.fst =
        some [.loaded, .loaded, .answered (.ok .null) #["left"], .answered (.ok .null) #["right"],
          .flushed (journal, report)] := by
    decide +kernel
  obtain ⟨f', hruns⟩ := Fleet.exists_runs_of_replay? hreplay
  exact ⟨choosing_analyze, choosing_instrument, List.nodup_singleton _, by decide, _, f', hruns,
    journal, report, by simp, by decide, by decide⟩

end Host

end SpanCoverage
