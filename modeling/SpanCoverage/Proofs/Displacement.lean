import Mathlib.Data.List.Dedup
import SpanCoverage.Host.Replay
import SpanCoverage.Proofs.Ownership

/-!
# Displaced payloads

The registry keys arrays by the method index of a token, which leaves the token's table tag out.
Tokens of different tags can have one index, so the tokens of a program can be all different while
two of its units share a row: then the unit that is entered first loses the row to the other one.

The main results are:

* `undisplaced_iff_distinct` — on a machine that runs one instrumented program, no unit is displaced
  exactly if the units entered have indices of their own.
* `twins_displaced` — a program in which a unit is displaced.
-/

namespace SpanCoverage.Host

/-! ## Counting rows -/

/-- Keys without repetition are as many as the members of a list, exactly if the list has no
repetition either. -/
theorem length_eq_iff_nodup {α : Type} [DecidableEq α] {keys l : List α} (hkeys : keys.Nodup)
    (hmem : ∀ a, a ∈ keys ↔ a ∈ l) : keys.length = l.length ↔ l.Nodup := by
  have hperm : keys.Perm l.dedup := by
    rw [List.perm_ext_iff_of_nodup hkeys l.nodup_dedup]
    simp only [hmem, List.mem_dedup, implies_true]
  rw [hperm.length_eq, ← List.dedup_eq_self]
  exact ⟨l.dedup_sublist.eq_of_length, congrArg List.length⟩

section Counting

variable {κ : Type} {entries : List (κ × MethodToken)}

/-- The registry has one row for each entry exactly if no two entries are of one index. -/
theorem length_tableOf (h : entries.Nodup) :
    (tableOf entries).length = entries.length ↔
      (entries.map fun e => e.2.methodIndex).Nodup := by
  have hkeys : ((tableOf entries).map Prod.fst).Nodup :=
    List.pairwise_map.2 ((pairwise_tableOf entries).imp fun hlt => UInt32.ne_of_lt hlt)
  have hcount := length_eq_iff_nodup hkeys fun index => mem_indices_tableOf h
  rwa [List.length_map, List.length_map] at hcount

/-- A report has one row for each entry exactly if no two entries are of one index. -/
theorem OwnersReport.length_rows [DecidableEq κ] {units : List CodeUnit} {j : Journal κ}
    {report : Report} (h : OwnersReport units j report) :
    report.rows.length = j.entries.length ↔
      (j.entries.map fun e => e.2.methodIndex).Nodup := by
  have hkeys : (report.rows.map ReportRow.index).Nodup :=
    List.pairwise_map.2 (h.increasing.imp fun hlt => UInt32.ne_of_lt hlt)
  have hcount := length_eq_iff_nodup hkeys h.indices
  rwa [List.length_map, List.length_map] at hcount

end Counting

/-! ## Sessions -/

/-- No unit is displaced: the registry has the array in a unit's slot under its token, for each unit
that was entered, and it has as many rows as units were entered. -/
structure Undisplaced (s : Session (Journal Unit × Memory)) : Prop where
  registered : ∀ token, ((), token) ∈ s.record.1.entries → ∃ array,
    arrayOf? s.machine.slots s.record.2 token = some array ∧
      s.record.2.registry.get? token = some array
  rows : s.record.2.registry.table.length = s.record.1.entries.length

section Undisplaced

variable {units : List CodeUnit} {moduleId : ModuleId} {s : Session (Journal Unit × Memory)}

/-- A unit that was entered has an array, and the registry has this array exactly if no other unit
of the same index was entered later. -/
theorem Owned.exists_array
    (h : Owned units moduleId (fun _ => s.machine.slots) s.record.1 s.record.2)
    {token : MethodToken} (hentered : ((), token) ∈ s.record.1.entries) :
    ∃ array, arrayOf? s.machine.slots s.record.2 token = some array ∧
      (s.record.2.registry.get? token = some array ↔
        ownerOf s.record.1.entries token.methodIndex = some ((), token)) := by
  obtain ⟨array, hget⟩ := List.mem_iff_getElem?.1 hentered
  have harray := (h.arrays () token array).2 hget
  exact ⟨array, harray, h.registered_iff harray⟩

/-- No unit is displaced exactly if the units that were entered have indices of their own. -/
theorem Owned.undisplaced_iff
    (h : Owned units moduleId (fun _ => s.machine.slots) s.record.1 s.record.2) :
    Undisplaced s ↔ (s.record.1.entries.map fun e => e.2.methodIndex).Nodup := by
  constructor
  · intro hall
    rw [← length_tableOf h.nodup, ← h.table]
    exact hall.rows
  · intro hnodup
    refine ⟨fun token hentered => ?_, ?_⟩
    · obtain ⟨array, harray, hiff⟩ := h.exists_array hentered
      exact ⟨array, harray, hiff.2 ((owners_iff_nodup h.nodup).2 hnodup _ hentered)⟩
    · rw [h.table, length_tableOf h.nodup]
      exact hnodup

end Undisplaced

/-- A session of a fresh machine that loads one instrumented program keeps the memory as the journal
says. -/
theorem owned_session {p : Program} {coverage : CoverageMap} {limit : Nat}
    (accepted : p.analyze = .ok coverage)
    (fits : ∀ u ∈ p.allUnits, u.spanMap.spans.size ≤ limit)
    (small : ∀ u ∈ p.allUnits, u.spanMap.spans.size < allocationBound) {moduleId : ModuleId}
    {ip : InstrumentedProgram} (hip : p.instrument { moduleId := moduleId } coverage = .ok ip)
    {maxDepth : Nat} {heap : Heap} {script : List Step}
    (hscript : ∀ step ∈ script, step.LoadsNothing)
    {replies : List (Reply (Journal Unit × Report))} {s : Session (Journal Unit × Memory)}
    (hruns : (Rig.journaled ()).Runs (.fresh maxDepth heap ({}, .withLimit limit))
      (.load ip :: script) replies s) :
    Owned p.allUnits moduleId (fun _ => s.machine.slots) s.record.1 s.record.2 ∧
      ∀ reply ∈ replies, reply.FromOwners p.allUnits := by
  have hsteps : ∀ step ∈ (Step.load ip :: script).map (Prod.mk ()),
      step.2 = .load ip ∨ step.2.LoadsNothing := by
    intro step hstep
    obtain ⟨step, hmem, rfl⟩ := List.mem_map.1 hstep
    rcases List.mem_cons.1 hmem with rfl | hmem
    · exact .inl rfl
    · exact .inr (hscript step hmem)
  have hfleet : Fleet.Runs Rig.journaled
      (.fresh (fun _ => maxDepth) heap ({}, .withLimit limit)) _ replies _ :=
    Fleet.runs_of_one hruns
  obtain ⟨howns, hreplies⟩ := Fleet.owns_session accepted fits small hip hsteps hfleet
  exact ⟨howns.owned, hreplies⟩

/-- **No unit is displaced exactly if the units entered have indices of their own.**  An accepted
program is instrumented with its own map and loaded once, on a fresh machine whose registry admits
the payload of each unit; then it is called and flushed in any order.  Every unit entered has an
array in its slot, and the registry has this array exactly if the unit owns its row, so long as no
other unit of the same index is entered later. -/
theorem undisplaced_iff_distinct {p : Program} {coverage : CoverageMap} {limit : Nat}
    (accepted : p.analyze = .ok coverage)
    (fits : ∀ u ∈ p.allUnits, u.spanMap.spans.size ≤ limit)
    (small : ∀ u ∈ p.allUnits, u.spanMap.spans.size < allocationBound)
    (moduleId : ModuleId) (maxDepth : Nat) (heap : Heap) :
    ∃ ip, p.instrument { moduleId := moduleId } coverage = .ok ip ∧
      ∀ (script : List Step), (∀ step ∈ script, step.LoadsNothing) →
        ∀ replies' s', Rig.payloads.Runs (.fresh maxDepth heap (.withLimit limit))
            (.load ip :: script) replies' s' →
          ∃ replies s, (Rig.journaled ()).Runs (.fresh maxDepth heap ({}, .withLimit limit))
              (.load ip :: script) replies s ∧
            replies.map (Reply.map Prod.snd) = replies' ∧ s.payloads = s' ∧
            (∀ token, ((), token) ∈ s.record.1.entries → ∃ array,
              arrayOf? s.machine.slots s.record.2 token = some array ∧
                (s.record.2.registry.get? token = some array ↔
                  ownerOf s.record.1.entries token.methodIndex = some ((), token))) ∧
            (Undisplaced s ↔ (s.record.1.entries.map fun e => e.2.methodIndex).Nodup) ∧
            ∀ j report, .flushed (j, report) ∈ replies →
              OwnersReport p.allUnits j report ∧
                (report.rows.length = j.entries.length ↔
                  (j.entries.map fun e => e.2.methodIndex).Nodup) := by
  refine ⟨_, Program.instrument_own accepted moduleId, fun script hscript replies' s' hruns => ?_⟩
  obtain ⟨replies, s, hjournaled, hreplies, hend⟩ := Rig.journaled_runs (k := ())
    (s := .fresh maxDepth heap ({}, .withLimit limit)) hruns
  obtain ⟨howned, hflush⟩ := owned_session accepted fits small
    (Program.instrument_own accepted moduleId) hscript hjournaled
  refine ⟨replies, s, hjournaled, hreplies, hend, fun token => howned.exists_array,
    howned.undisplaced_iff, fun j report hmem => ?_⟩
  have hreport := (hflush _ hmem).1
  exact ⟨hreport, hreport.length_rows⟩

/-! ## An example -/

/-- A program with two units whose tokens differ in the table tag only. -/
def twins : Program where
  name := "twins"
  units := [⟨{ token := ⟨0x06000001⟩, name := "first", range := .none }, .stmt .skip .none⟩,
    ⟨{ token := ⟨0x2B000001⟩, name := "second", range := .none }, .stmt .skip .none⟩]

/-- The span tables of its units. -/
def twinsMap : CoverageMap := ⟨"twins", twins.units.map CodeUnit.spanMap⟩

/-- The program with its probes. -/
def twinsInstrumented : InstrumentedProgram where
  name := "twins"
  moduleId := .zero
  units := twins.allUnits.map CodeUnit.withProbes

theorem twins_analyze : twins.analyze = .ok twinsMap :=
  Program.analyze_eq_ok_iff.2 ⟨by decide, by decide, rfl⟩

theorem twins_instrument :
    twins.instrument { moduleId := .zero } twinsMap = .ok twinsInstrumented :=
  Program.instrument_own twins_analyze .zero

/-- Two calls of the first unit, and a flush: it is not displaced. -/
theorem twins_undisplaced :
    ∃ replies s, (Rig.journaled ()).Runs (.fresh 8 {} ({}, .withLimit 2))
        [.load twinsInstrumented, .call "first" [], .call "first" [], .flush] replies s ∧
      replies.map (Reply.map Prod.snd) = [.loaded, .answered (.ok .null) #[],
        .answered (.ok .null) #[], .flushed ⟨[⟨1, [true, true]⟩]⟩] ∧
      (Undisplaced s ↔ (s.record.1.entries.map fun e => e.2.methodIndex).Nodup) := by
  have hsize : ∀ u ∈ twins.allUnits, u.spanMap.spans.size = 2 := by decide
  obtain ⟨ip, hip, hsessions⟩ := undisplaced_iff_distinct twins_analyze
    (fun u hu => Nat.le_of_eq (hsize u hu)) (fun u hu => by rw [hsize u hu]; decide) .zero 8 {}
  rw [twins_instrument] at hip
  cases hip
  have hreplay : (Rig.payloads.replay? 4 (.fresh 8 {} (.withLimit 2))
      [.load twinsInstrumented, .call "first" [], .call "first" [], .flush]).map Prod.fst =
        some [.loaded, .answered (.ok .null) #[], .answered (.ok .null) #[],
          .flushed ⟨[⟨1, [true, true]⟩]⟩] := by
    decide +kernel
  obtain ⟨⟨_, s'⟩, hrun, rfl⟩ := Option.map_eq_some_iff.1 hreplay
  obtain ⟨replies, s, hruns, hreplies, -, -, hiff, -⟩ := hsessions
    [.call "first" [], .call "first" [], .flush] (by simp [Step.LoadsNothing]) _ _
    (Rig.runs_of_replay? hrun)
  exact ⟨replies, s, hruns, hreplies, hiff⟩

/-- The program is accepted, and a call of each unit displaces the first one. -/
theorem twins_displaced :
    twins.analyze = .ok twinsMap ∧
      twins.instrument { moduleId := .zero } twinsMap = .ok twinsInstrumented ∧
      (∀ u ∈ twins.allUnits, u.spanMap.spans.size = 2) ∧
      ∃ replies s, (Rig.journaled ()).Runs (.fresh 8 {} ({}, .withLimit 2))
          [.load twinsInstrumented, .call "first" [], .call "second" [], .flush] replies s ∧
        ¬ Undisplaced s := by
  have hreplay : ((Rig.journaled ()).replay? 4 (.fresh 8 {} ({}, .withLimit 2))
      [.load twinsInstrumented, .call "first" [], .call "second" [], .flush]).map
        (fun (_, s) => (s.record.1.entries, s.record.2.registry.table)) =
      some ([((), ⟨0x06000001⟩), ((), ⟨0x2B000001⟩)], [(1, 1)]) := by
    decide +kernel
  obtain ⟨⟨replies, s⟩, hrun, hends⟩ := Option.map_eq_some_iff.1 hreplay
  obtain ⟨hentries, htable⟩ := Prod.mk.inj hends
  refine ⟨twins_analyze, twins_instrument, by decide, replies, s, Rig.runs_of_replay? hrun,
    fun h => ?_⟩
  have hrows := h.rows
  rw [hentries, htable] at hrows
  exact absurd hrows (by decide)

end SpanCoverage.Host
