import SpanCoverage.Proofs.Exactness
import SpanCoverage.Proofs.GatedRuns

/-!
# Flushed cells respect the blocks

A report that shows a span in a block also shows the span through which control came into the block:
the condition of a branch, the header of a loop that tests first, the arm of a switch, the entry of
a handler or of a `finally` block, the resource of a guarded scope, and always the entry of the
unit.  This is so in every window of its own, because an activation that goes on ends before the
flush.

The main results are:

* `Session.Gated.runs` — behind every step of an observed session, and in each of its windows, the
  points that open what was reached were reached too.
* `flushes_respect_blocks` — so each report shows their spans.
-/

namespace SpanCoverage

open Analysis

/-! ## Cells of a row -/

namespace SpanTable

/-- The table has a span of this site and kind, and its cell is set. -/
def Hit (t : SpanTable) (hits : List Bool) (site : Nat) (kind : SpanKind) : Prop :=
  ∃ s ∈ t.spans, s.key = (site, kind) ∧ hits[s.index]? = some true

/-- The cell of some span is set whose site is in a tree that stands at `site`. -/
def HitIn (t : SpanTable) (hits : List Bool) (site : Nat) (n : Node) : Prop :=
  ∃ s ∈ t.spans, hits[s.index]? = some true ∧ ∃ m, (s.site, m) ∈ n.sited site

end SpanTable

/-- A row in which a span of a block is set only together with the spans through which control comes
into the block. -/
structure CodeUnit.BlocksHit (u : CodeUnit) (t : SpanTable) (hits : List Bool) : Prop where
  entry : true ∈ hits →
    hits[0]? = some true ∧ ∃ s rest, t.spans = s :: rest ∧ s.key = (0, .entry)
  branch : ∀ site c b e r, (site, .branch c b e r) ∈ u.root.sited 0 →
    (t.HitIn hits (site + 1) b ∨ ∃ b' ∈ e, t.HitIn hits (site + 1 + b.siteCount) b') →
    t.Hit hits site .condition
  rounds : ∀ site i c v b r, (site, .loop .before i c v b r) ∈ u.root.sited 0 →
    (t.HitIn hits (site + 1 + Node.siteCount? i) b ∨
      ∃ v' ∈ v, t.HitIn hits (site + 1 + Node.siteCount? i + b.siteCount) v') →
    t.Hit hits site .loopHeader
  arm : ∀ site v before case body range after r,
    (site, .switch v (before ++ ⟨case, body, range⟩ :: after) r) ∈ u.root.sited 0 →
    t.HitIn hits (site + 1 + Node.siteCountArms before) body →
    t.Hit hits (site + 1 + Node.siteCountArms before) .switchArm ∧ t.Hit hits site .condition
  handler : ∀ site b before binding body range after f r,
    (site, .attempt b (before ++ ⟨binding, body, range⟩ :: after) f r) ∈ u.root.sited 0 →
    t.HitIn hits (site + 1 + b.siteCount + Node.siteCountHandlers before) body →
    t.Hit hits (site + 1 + b.siteCount + Node.siteCountHandlers before) .catchEntry
  cleanup : ∀ site b handlers f r, (site, .attempt b handlers (some f) r) ∈ u.root.sited 0 →
    t.HitIn hits (site + 1 + b.siteCount + Node.siteCountHandlers handlers) f →
    t.Hit hits (site + 1 + b.siteCount + Node.siteCountHandlers handlers) .finallyEntry
  guarded : ∀ site k e b r, (site, .guarded k e b r) ∈ u.root.sited 0 →
    t.HitIn hits (site + 1) b → t.Hit hits site .scopeAcquire

/-! ## Blocks and their gates -/

namespace Analysis.Visit

variable {live : Bool} {site : Nat}

theorem mem_ofArms_append (before : List Arm) {case : Option Constant} {body : Node}
    {range : SourceRange} {after : List Arm} :
    ⟨live, site + Node.siteCountArms before, body⟩ ∈
      ofArms live site (before ++ ⟨case, body, range⟩ :: after) := by
  induction before generalizing site with
  | nil => exact List.mem_cons_self
  | cons a before ih =>
    obtain ⟨case', body', range'⟩ := a
    rw [Node.siteCountArms, ← Nat.add_assoc]
    exact List.mem_cons_of_mem _ ih

theorem mem_ofHandlers_append (before : List Handler) {binding : Option String} {body : Node}
    {range : SourceRange} {after : List Handler} :
    ⟨live, site + Node.siteCountHandlers before, body⟩ ∈
      ofHandlers live site (before ++ ⟨binding, body, range⟩ :: after) := by
  induction before generalizing site with
  | nil => exact List.mem_cons_self
  | cons a before ih =>
    obtain ⟨binding', body', range'⟩ := a
    rw [Node.siteCountHandlers, ← Nat.add_assoc]
    exact List.mem_cons_of_mem _ ih

end Analysis.Visit

namespace CodeUnit

open Analysis.Visit

variable {u : CodeUnit} {hits : List Bool}

/-- A row that, with the cell of a span, has the cells of all that opens the span's site. -/
def Opened (u : CodeUnit) (t : SpanTable) (hits : List Bool) : Prop :=
  ∀ s ∈ t.spans, hits[s.index]? = some true → ∀ key, u.Opens key s.site → t.Hit hits key.1 key.2

/-- The spans in the gate of a part are hit with any span in the part. -/
theorem Opened.gate {t : SpanTable} (h : u.Opened t hits) {v w : Visit}
    (hwalk : Walk u.entered u.start v) (hw : w ∈ v.parts u.entered)
    (hin : t.HitIn hits w.site w.node) :
    ∀ key ∈ v.node.gate v.site w.site, t.Hit hits key.1 key.2 := by
  intro key hkey
  obtain ⟨s, hs, hhit, m, hm⟩ := hin
  exact h s hs hhit key (.inr ⟨v, hwalk, w, hw, List.mem_map_of_mem hm, hkey⟩)

/-- The first cell of such a row, which is that of the unit's entry. -/
theorem Opened.first (hvalid : u.defects = []) (h : u.Opened u.spanMap.spans hits)
    (hlength : hits.length = u.spanMap.spans.spans.length) (htrue : true ∈ hits) :
    hits[0]? = some true ∧ ∃ s rest, u.spanMap.spans.spans = s :: rest ∧ s.key = (0, .entry) := by
  obtain ⟨first, rest, hspans, hkey, hindex⟩ : ∃ s rest,
      u.spanMap.spans.spans = s :: rest ∧ s.key = (0, .entry) ∧ s.index = 0 :=
    ⟨_, _, rfl, rfl, rfl⟩
  obtain ⟨i, hi, hhit⟩ := List.getElem_of_mem htrue
  have hlt : i < u.spanMap.spans.spans.length := hlength ▸ hi
  have hcell : hits[u.spanMap.spans.spans[i].index]? = some true := by
    rw [SpanTable.index_getElem _ hlt, List.getElem?_eq_getElem hi, hhit]
  obtain ⟨s, hs, hskey, hset⟩ := h _ (List.getElem_mem hlt) hcell (0, .entry) (.inl rfl)
  have hfirst : s = first :=
    List.inj_on_of_nodup_map (distinct_spans hvalid) hs (hspans ▸ List.mem_cons_self)
      (hskey.trans hkey.symm)
  rw [hfirst, hindex] at hset
  exact ⟨hset, first, rest, hspans, hkey⟩

/-- **A row that has the cells of all that opens its spans respects the blocks.** -/
theorem Opened.blocksHit (hvalid : u.defects = []) (h : u.Opened u.spanMap.spans hits)
    (hlength : hits.length = u.spanMap.spans.spans.length) :
    u.BlocksHit u.spanMap.spans hits where
  entry := h.first hvalid hlength
  branch site c b e r hmem hin := by
    obtain ⟨live, hv⟩ := exists_walk u.entered u.start site _ hmem
    rcases hin with hin | ⟨b', rfl, hin⟩
    · exact h.gate hv (.head _) hin (site, .condition) (.head _)
    · exact h.gate hv (.tail _ (.head _)) hin (site, .condition) (.head _)
  rounds site i c v b r hmem hin := by
    obtain ⟨live, hv⟩ := exists_walk u.entered u.start site _ hmem
    rcases hin with hin | ⟨v', rfl, hin⟩
    · refine h.gate hv (List.mem_append_right _ (.head _)) hin (site, .loopHeader) ?_
      simp [Node.gate]
    · refine h.gate hv (List.mem_append_right _ (.tail _ (.head _))) hin (site, .loopHeader) ?_
      simp [Node.gate]
  arm site v before case body range after r hmem hin := by
    obtain ⟨live, hv⟩ := exists_walk u.entered u.start site _ hmem
    have hgate := h.gate hv (mem_ofArms_append before) hin
    exact ⟨hgate (_, .switchArm) (.tail _ (.head _)), hgate (_, .condition) (.head _)⟩
  handler site b before binding body range after f r hmem hin := by
    obtain ⟨live, hv⟩ := exists_walk u.entered u.start site _ hmem
    have hpart : ⟨live, site + 1 + b.siteCount + Node.siteCountHandlers before, body⟩ ∈
        ofHandlers live (site + 1 + b.siteCount) (before ++ ⟨binding, body, range⟩ :: after) :=
      mem_ofHandlers_append before
    have hlast := (mem_ofHandlers u.entered hpart).2.2.1
    refine h.gate hv (List.mem_append_left _ (List.mem_cons_of_mem _ hpart)) hin (_, .catchEntry) ?_
    simp only [Node.gate]
    rw [if_neg (by omega), if_pos hlast]
    exact .head _
  cleanup site b handlers f r hmem hin := by
    obtain ⟨live, hv⟩ := exists_walk u.entered u.start site _ hmem
    refine h.gate hv (List.mem_append_right _ (.head _)) hin (_, .finallyEntry) ?_
    simp only [Node.gate]
    rw [if_neg (by omega), if_neg (by omega)]
    exact .head _
  guarded site k e b r hmem hin := by
    obtain ⟨live, hv⟩ := exists_walk u.entered u.start site _ hmem
    exact h.gate hv (.head _) hin (site, .scopeAcquire) (.head _)

end CodeUnit

namespace Host

/-! ## Sessions under observation -/

/-- A session on units of a program that has passed their gates since the last flush. -/
structure Session.Gated (units : List CodeUnit) (s : Session Log) : Prop where
  code : s.machine.code.All (· ∈ units)
  record : Host.Gated units [] s.record

/-- A reply that, if it shows a window, shows one in which the gates were passed. -/
def Reply.Gated (units : List CodeUnit) (reply : Reply Log) : Prop :=
  ∀ log, reply = .flushed log → Host.Gated units [] log

section Sessions

variable {units : List CodeUnit} {s s' : Session Log}

theorem Session.Gated.apply (hunits : (units.map (·.token)).Nodup) (hs : s.Gated units)
    {callee : Value} {args : List Value} {fuel : Nat} {result : Except HostError Value}
    (h : Rig.observed.apply s callee args fuel = some (result, s')) : s'.Gated units := by
  have hrun := Run.keeps_iff.1 ((steps_gated hunits hs.code (fuel + 1)).call [] callee args)
  obtain ⟨outcome, w, hw, -, rfl⟩ := Rig.apply_some h
  have hkept := hrun s.world hs.record
  rw [show (steps s.machine.code .log (fuel + 1)).call callee args s.world = (some outcome, w)
    from hw] at hkept
  exact ⟨hs.code, hkept⟩

/-- Every step that loads nothing passes the gates, and a flush begins a new window. -/
theorem Session.Gated.does (hunits : (units.map (·.token)).Nodup) (hs : s.Gated units)
    {step : Step} {reply : Reply Log} (hstep : step.LoadsNothing)
    (h : Rig.observed.Does s step reply s') : s'.Gated units ∧ reply.Gated units := by
  cases h with
  | loadPlain => cases hstep
  | load => cases hstep
  | apply fuel h => exact ⟨hs.apply hunits h, nofun⟩
  | flush =>
    refine ⟨⟨hs.code, .flushed rfl⟩, ?_⟩
    rintro log ⟨⟩
    exact hs.record
  | call fuel h =>
    rcases Rig.call_some h with ⟨token, happly⟩ | ⟨-, rfl⟩
    · exact ⟨hs.apply hunits happly, nofun⟩
    · exact ⟨hs, nofun⟩

/-- **A session passes the gates in each of its windows.** -/
theorem Session.Gated.runs (hunits : (units.map (·.token)).Nodup) (hs : s.Gated units)
    {script : List Step} (hscript : ∀ step ∈ script, step.LoadsNothing)
    {replies : List (Reply Log)} (h : Rig.observed.Runs s script replies s') :
    s'.Gated units ∧ ∀ reply ∈ replies, reply.Gated units :=
  h.keeps (fun hstep hs hdoes => hs.does hunits hstep hdoes) hscript hs

end Sessions

/-! ## Reports -/

/-- A report on one side is the report of a log on the other. -/
theorem exists_log_of_flushed {units : List CodeUnit} {replies : List (Reply Log)}
    {replies' : List (Reply Report)} (h : List.Forall₂ (Reply.Exact units) replies replies')
    {report : Report} (hreport : .flushed report ∈ replies') :
    ∃ log, .flushed log ∈ replies ∧ ExactReport units log report := by
  induction h with
  | nil => cases hreport
  | cons first rest ih =>
    rcases List.mem_cons.1 hreport with heq | hreport
    · subst heq
      cases first with
      | flushed hexact => exact ⟨_, List.mem_cons_self, hexact⟩
    · obtain ⟨log, hlog, hexact⟩ := ih hreport
      exact ⟨log, List.mem_cons_of_mem _ hlog, hexact⟩

/-- A row that says what a log says has the cells of all that opens its spans. -/
theorem opened_of_gated {units : List CodeUnit} {u : CodeUnit} (hu : u ∈ units)
    (hvalid : u.defects = []) {log : Log} (hlog : Gated units [] log) :
    u.Opened u.spanMap.spans (u.spanMap.spans.spans.map (log.visited u.token)) := by
  have cell {s : Span} (hs : s ∈ u.spanMap.spans.spans) :
      (u.spanMap.spans.spans.map (log.visited u.token))[s.index]? = some true ↔
        .reached u.token s.site s.kind ∈ log.window := by
    obtain ⟨i, hi, rfl⟩ := List.getElem_of_mem hs
    rw [SpanTable.index_getElem, List.getElem?_map, List.getElem?_eq_getElem hi]
    simp [Log.visited]
  intro s hs hset key hkey
  have hhas : u.spanMap.spans.Has s.site s.kind := List.mem_map_of_mem hs
  obtain ⟨s', hs', heq⟩ := List.mem_map.1 (CodeUnit.has_of_opens hvalid hhas hkey)
  have hreached := hlog.opened u hu s.site s.kind ((cell hs).1 hset) key hkey
  obtain ⟨hsite, hkind⟩ : s'.site = key.1 ∧ s'.kind = key.2 := Prod.mk.inj heq
  refine ⟨s', hs', heq, (cell hs').2 ?_⟩
  rw [hsite, hkind]
  exact hreached

/-- **Flushed cells respect the blocks.**  An accepted program whose units have rows of their own
can be instrumented with its own map; and whatever a host does with it, on a fresh machine and with
a registry whose limit admits the payload of each unit, each row of each report is that of a unit
of the program, and shows no span of a block without the spans through which control comes into
it. -/
theorem flushes_respect_blocks {p : Program} {coverage : CoverageMap} {limit : Nat}
    (accepted : p.analyze = .ok coverage)
    (distinct : (p.allUnits.map fun u => u.token.methodIndex).Nodup)
    (fits : ∀ u ∈ p.allUnits, u.spanMap.spans.size ≤ limit)
    (small : ∀ u ∈ p.allUnits, u.spanMap.spans.size < allocationBound)
    (moduleId : ModuleId) (maxDepth : Nat) (heap : Heap) :
    ∃ ip, p.instrument { moduleId := moduleId } coverage = .ok ip ∧
      ∀ (script : List Step), (∀ step ∈ script, step.LoadsNothing) →
        ∀ replies t, Rig.payloads.Runs (.fresh maxDepth heap (.withLimit limit))
            (.load ip :: script) replies t →
          ∀ report, .flushed report ∈ replies → ∀ row ∈ report.rows,
            (∃ u ∈ p.allUnits, row.index = u.token.methodIndex) ∧
            ∀ u ∈ p.allUnits, row.index = u.token.methodIndex →
              u.BlocksHit u.spanMap.spans row.hits := by
  obtain ⟨hdefects, -, hunits⟩ := Program.analyze_ok accepted
  refine ⟨_, Program.instrument_own accepted moduleId, fun script hscript replies t hruns => ?_⟩
  cases hruns with
  | step first rest =>
    cases first with
    | load =>
      have hloaded := Session.Exact.load (m := (Session.fresh maxDepth heap ()).machine) accepted
        distinct fits small moduleId rfl (fun _ => rfl) heap
      obtain ⟨replies, s, hobserved, hreplies, -⟩ := hloaded.runs hscript rest
      have hgated : Session.Gated p.allUnits
          ⟨(Session.fresh maxDepth heap ()).machine.loadPlain p, heap, {}⟩ :=
        ⟨Code.All.loadPlain (fun u hu => hu) (fun token u hu => by cases hu), .flushed rfl⟩
      obtain ⟨-, hwindows⟩ := hgated.runs hunits hscript hobserved
      intro report hreport row hrow
      rcases List.mem_cons.1 hreport with hreport | hreport
      · cases hreport
      obtain ⟨log, hlog, hexact⟩ := exists_log_of_flushed hreplies hreport
      refine ⟨hexact.owned row hrow, fun u hu hindex => ?_⟩
      have hhits := hexact.hits u hu row hrow hindex
      have hopened := opened_of_gated hu (hdefects u hu) (hwindows _ hlog log rfl)
      rw [hhits]
      exact hopened.blocksHit (hdefects u hu) (List.length_map _)

/-- The body of the loop is hit, and so is the header. -/
theorem greeting_respects_blocks :
    ∃ replies t, Rig.payloads.Runs (.fresh 8 {} (.withLimit 6))
        [.load greetingInstrumented, .call "main" [], .flush] replies t ∧
      .flushed ⟨[⟨1, List.replicate 6 true⟩]⟩ ∈ replies ∧
      greeting.units[0].BlocksHit greeting.units[0].spanMap.spans (List.replicate 6 true) ∧
      greeting.units[0].spanMap.spans.HitIn (List.replicate 6 true) 2 (.stmt .leave .none) ∧
      greeting.units[0].spanMap.spans.Hit (List.replicate 6 true) 1 .loopHeader := by
  have hmain : ∀ u ∈ greeting.allUnits, u.spanMap.spans.size = 6 := by
    intro u hu
    rw [List.mem_singleton.1 hu]
    rfl
  obtain ⟨ip, hip, hrespects⟩ := flushes_respect_blocks greeting_analyze (List.nodup_singleton _)
    (fun u hu => Nat.le_of_eq (hmain u hu))
    (fun u hu => by rw [hmain u hu]; decide) .zero 8 {}
  rw [greeting_instrument] at hip
  cases hip
  obtain ⟨replies, t, hruns, hreplies⟩ : ∃ replies t,
      Rig.payloads.Runs (.fresh 8 {} (.withLimit 6))
        [.load greetingInstrumented, .call "main" [], .flush] replies t ∧
      replies = [.loaded, .answered (.ok .null) #["hello"],
        .flushed ⟨[⟨1, List.replicate 6 true⟩]⟩] :=
    ⟨_, _, .step (.load _ _) (.step (.call 4 rfl) (.step (.flush _) (.done _))), rfl⟩
  have hflush : .flushed ⟨[⟨1, List.replicate 6 true⟩]⟩ ∈ replies := by
    rw [hreplies]
    exact .tail _ (.tail _ (.head _))
  have hscript : ∀ step ∈ [.call "main" [], .flush], Step.LoadsNothing step := by
    simp only [List.mem_cons, List.not_mem_nil, or_false, forall_eq_or_imp, forall_eq]
    exact ⟨trivial, trivial⟩
  have hblocks := (hrespects _ hscript _ _ hruns _ hflush _ (.head _)).2 _ (.head _) rfl
  have hleave : greeting.units[0].spanMap.spans.HitIn (List.replicate 6 true) 2
      (.stmt .leave .none) :=
    ⟨_, .tail _ (.tail _ (.head _)), rfl, _, .head _⟩
  exact ⟨_, _, hruns, hflush, hblocks, hleave,
    hblocks.rounds 1 _ _ _ _ _ (.tail _ (.head _)) (.inl hleave)⟩

end Host

end SpanCoverage
