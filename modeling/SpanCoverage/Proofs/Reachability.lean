import SpanCoverage.Proofs.KnownTruth
import SpanCoverage.Proofs.Loading
import SpanCoverage.Proofs.Overlooked
import SpanCoverage.Proofs.Watch

/-!
# Code that is reached has points

The points of a unit are those that the analysis takes for live.  This file compares them with what
runs reach: nothing else is reached but the headers of overlooked loops.

A unit's points are `Found` at a node if the node's own points are among them, and so are the labels
of its jumps and the nodes of its tree.  What is found at a node is found at its parts, so the
argument goes down the tree as a run does, with the analysis's word on what is live as the
precondition.

The main results are:

* `exec_charted` — a run reaches only points that its unit has, or the header of an overlooked loop.
* `steps_charted` — so do all runs of a program's units.
-/

namespace SpanCoverage.Host

open Analysis

/-! ## What a log may hold -/

/-- One of the units has this point. -/
def Known (units : List CodeUnit) (token : MethodToken) (site : Nat) (kind : SpanKind) : Prop :=
  ∃ u ∈ units, u.token = token ∧ ∃ p ∈ u.points, p.site = site ∧ p.kind = kind

/-- One of the units overlooks this header. -/
def Overlooked (units : List CodeUnit) (token : MethodToken) (site : Nat) : Prop :=
  ∃ u ∈ units, u.token = token ∧ site ∈ u.overlooked

/-- A log is clean while it holds only points that the units have, and broken once it holds the
header of an overlooked loop. -/
def pointWatch (units : List CodeUnit) : Watch Log where
  clean log := ∀ token site kind,
    .reached token site kind ∈ log.events → Known units token site kind
  broken log := ∃ token site,
    .reached token site .loopHeader ∈ log.events ∧ Overlooked units token site

/-- A run that reaches only points of the units, unless it comes by an overlooked header. -/
abbrev Run.Reaches {α : Type} (units : List CodeUnit) (pre : Prop) (x : Run Log α)
    (post : α → Prop) : Prop :=
  Run.Meets (pointWatch units) pre x post fun _ => True

/-- A flow that a summary of exits allows for; a jump has to name a label that is entered. -/
def Fits (entered : List String) (x : Exits) : Flow → Prop
  | .normal => x.falls = true
  | .breaking => x.breaks = true
  | .continuing => x.continues = true
  | .returning _ => True
  | .jumping label => label ∈ entered

theorem Fits.mono {entered : List String} {x y : Exits} (h : x.Within y) {flow : Flow}
    (hflow : Fits entered x flow) : Fits entered y flow := by
  cases flow with
  | normal => exact h.falls hflow
  | breaking => exact h.breaks hflow
  | continuing => exact h.continues hflow
  | returning => trivial
  | jumping => exact hflow

/-- A jump out of a piece of code also leaves the code and what comes behind it. -/
theorem Fits.andThen {entered : List String} {x : Exits} (y : Exits) {flow : Flow}
    (hflow : Fits entered x flow) (h : flow ≠ .normal) : Fits entered (x.andThen y) flow := by
  cases flow with
  | normal => exact absurd rfl h
  | breaking => exact Bool.or_eq_true_iff.2 (.inl hflow)
  | continuing => exact Bool.or_eq_true_iff.2 (.inl hflow)
  | returning => trivial
  | jumping => exact hflow

/-! ## What is found in a unit -/

/-- Points, labels of jumps and nodes that belong to a unit. -/
structure Found (u : CodeUnit) (points : List Point) (jumps : List String)
    (nodes : List (Nat × Node)) : Prop where
  points : ∀ p ∈ points, p ∈ u.points
  jumps : ∀ l ∈ jumps, l ∈ u.entered
  nodes : ∀ p ∈ nodes, p ∈ u.root.sited 0

theorem Found.mono {u : CodeUnit} {points points' : List Point} {jumps jumps' : List String}
    {nodes nodes' : List (Nat × Node)} (h : Found u points jumps nodes)
    (hpoints : points' ⊆ points) (hjumps : jumps' ⊆ jumps) (hnodes : nodes' ⊆ nodes) :
    Found u points' jumps' nodes' :=
  ⟨fun p hp => h.points p (hpoints hp), fun l hl => h.jumps l (hjumps hl),
    fun p hp => h.nodes p (hnodes hp)⟩

/-- Everything is found that the analysis says of a node, if it is live or not. -/
abbrev Charted (u : CodeUnit) (live : Bool) (site : Nat) (n : Node) : Prop :=
  Found u (points u.entered live site n) (exits u.entered live n).jumps (n.sited site)

/-- Everything is found of a child that may be missing. -/
abbrev Charted? (u : CodeUnit) (live : Bool) (site : Nat) (e : Option Node) : Prop :=
  Found u (points? u.entered live site e) (exits? u.entered live e).jumps (Node.sited? site e)

/-- Everything is found of a sequence's children. -/
abbrev ChartedAll (u : CodeUnit) (live : Bool) (site : Nat) (ns : List Node) : Prop :=
  Found u (pointsAll u.entered live site ns) (exitsAll u.entered live ns).jumps
    (Node.sitedAll site ns)

/-- Everything is found of a switch's arms. -/
abbrev ChartedArms (u : CodeUnit) (live : Bool) (site : Nat) (arms : List Arm) : Prop :=
  Found u (pointsArms u.entered live site arms) (exitsArms u.entered live arms).jumps
    (Node.sitedArms site arms)

/-- Everything is found of handlers. -/
abbrev ChartedHandlers (u : CodeUnit) (live : Bool) (site : Nat) (handlers : List Handler) : Prop :=
  Found u (pointsHandlers u.entered live site handlers)
    (exitsHandlers u.entered live handlers).jumps (Node.sitedHandlers site handlers)

/-- Everything is found of the rounds of a loop, where control comes to their start or not. -/
structure Rounds.Charted (u : CodeUnit) (start : Bool) (rounds : Rounds) : Prop where
  header : headerLive rounds.test start
      (exits? u.entered (updateLive
        (exits u.entered (bodyLive rounds.test rounds.cond start) rounds.body)) rounds.update)
      = true → ∃ p ∈ u.points, p.site = rounds.site ∧ p.kind = .loopHeader
  /-- The loop itself is one of the unit's nodes. -/
  loop : ∃ init range, (rounds.site, .loop rounds.test init rounds.cond rounds.update rounds.body
    range) ∈ u.root.sited 0
  body : Host.Charted u (bodyLive rounds.test rounds.cond start) rounds.bodySite rounds.body
  update : Charted? u
    (updateLive (exits u.entered (bodyLive rounds.test rounds.cond start) rounds.body))
    (rounds.bodySite + rounds.body.siteCount) rounds.update

/-- How control leaves the rounds of a loop. -/
def roundsExits (entered : List String) (start : Bool) (rounds : Rounds) : Exits :=
  let body := exits entered (bodyLive rounds.test rounds.cond start) rounds.body
  let update := exits? entered (updateLive body) rounds.update
  { falls := (headerLive rounds.test start update && rounds.cond.knownTruth != some true)
      || body.breaks || update.breaks }

/-- Steps that reach only points of the units, and end as the analysis says. -/
structure Resume.Charted (units : List CodeUnit) (s : Resume Log) : Prop where
  call : ∀ callee args, (s.call callee args).Reaches units True fun _ => True
  loop : ∀ u ∈ units, ∀ frame : Frame, frame.unit = u.token → ∀ start rounds,
    Rounds.Charted u start rounds →
      (s.loop frame rounds).Reaches units (start = true)
        (Fits u.entered (roundsExits u.entered start rounds))
  jump : ∀ u ∈ units, ∀ frame : Frame, frame.unit = u.token → ∀ live whole site label,
    ChartedAll u live site whole →
      (s.jump frame whole site label).Reaches units (live = true ∧ label ∈ u.entered)
        (Fits u.entered (exitsAll u.entered live whole))

/-! ## Notes in the log -/

section Notes

variable {units : List CodeUnit}

theorem note_broken (event : Event) {log : Log} (h : (pointWatch units).broken log) :
    (pointWatch units).broken (log.note event) := by
  obtain ⟨token, site, hmem, hloop⟩ := h
  exact ⟨token, site, List.mem_append_left _ hmem, hloop⟩

/-- What the host notes besides points matters to nobody. -/
theorem note_ignored {event : Event} (h : ∀ token site kind, event ≠ .reached token site kind) :
    (pointWatch units).Ignores (Log.note event) := by
  refine fun log => ⟨note_broken event, fun hlog _ => .inr ⟨?_, trivial⟩⟩
  intro token site kind hmem
  rcases List.mem_append.1 hmem with hmem | hmem
  · exact hlog token site kind hmem
  · exact absurd (List.mem_singleton.1 hmem).symm (h token site kind)

theorem note_known {log : Log} {token : MethodToken} {site : Nat} {kind : SpanKind}
    (hlog : (pointWatch units).clean log) (h : Known units token site kind) :
    (pointWatch units).clean (log.note (.reached token site kind)) := by
  intro token' site' kind' hmem
  rcases List.mem_append.1 hmem with hmem | hmem
  · exact hlog token' site' kind' hmem
  · cases List.mem_singleton.1 hmem
    exact h

/-- A run may reach a point that the units have. -/
theorem reach_known {frame : Frame} {site : Nat} {kind : SpanKind} {P : Prop}
    (h : P → Known units frame.unit site kind) :
    (reach .log frame site kind).Reaches units P fun _ => P :=
  Run.Meets.onRecord fun _ => ⟨note_broken _, fun hlog hP => .inr ⟨note_known hlog (h hP), hP⟩⟩

/-- A loop header that a run reaches is a point, or the log is broken by it. -/
theorem reach_header {frame : Frame} {site : Nat} {P seen : Prop}
    (h : P → (seen ∧ Known units frame.unit site .loopHeader) ∨
      Overlooked units frame.unit site) :
    (reach .log frame site .loopHeader).Reaches units P fun _ => P ∧ seen := by
  refine Run.Meets.onRecord fun log => ⟨note_broken _, fun hlog hP => ?_⟩
  rcases h hP with ⟨hseen, hknown⟩ | hover
  · exact .inr ⟨note_known hlog hknown, hP, hseen⟩
  · exact .inl ⟨frame.unit, site, List.mem_append_right _ (List.mem_singleton.2 rfl), hover⟩

theorem Resume.Charted.quiet {s : Resume Log} (hs : s.Charted units) :
    Quiet (pointWatch units) .log s fun _ => True where
  thrown _ := trivial
  failed _ _ := trivial
  noted _ _ := note_ignored fun _ _ _ => by simp
  call := hs.call

/-- The log takes no notice of injected instructions. -/
theorem perform_ignored (frame : Frame) (i : Instruction) :
    (pointWatch units).Ignores (Recorder.log.perform frame i) := by
  cases i <;> exact fun _ => .refl id

/-- A condition has the truth that the analysis knows, if it knows any. -/
theorem cond_meets {s : Resume Log} (hs : s.Charted units) (P : Prop) (frame : Frame) (e : Expr) :
    (eval .log s frame e).Reaches units P fun value =>
      P ∧ ∀ truth, e.knownTruth = some truth → value.truth = truth := by
  cases h : e.knownTruth with
  | none =>
    exact (eval_meets hs.quiet P frame e fun i _ => perform_ignored frame i).mono
      fun _ hP => ⟨hP, by simp⟩
  | some truth =>
    rw [eval_of_knownTruth .log s frame e h]
    exact Run.Meets.pure fun hP => ⟨hP, by simp [Value.truth]⟩

end Notes

/-! ## Nodes -/

section Nodes

variable {units : List CodeUnit} {s : Resume Log} {u : CodeUnit} {frame : Frame}

/-- A marked point is one of the unit's points. -/
theorem known_of_mark (hu : u ∈ units) (hf : frame.unit = u.token) {live : Bool} {kind : SpanKind}
    {site : Nat} {range : SourceRange} (h : ∀ p ∈ mark live kind site range, p ∈ u.points)
    (hlive : live = true) : Known units frame.unit site kind := by
  refine ⟨u, hu, hf.symm, ⟨kind, site, range⟩, h _ ?_, rfl, rfl⟩
  rw [mark, if_pos hlive]
  exact List.mem_singleton.2 rfl

/-- A node, wherever it is charted, reaches only points of the units if it is live, and leaves in
one of the ways that the analysis names. -/
def Charts (units : List CodeUnit) (s : Resume Log) (u : CodeUnit) (frame : Frame) (n : Node) :
    Prop :=
  ∀ {live site}, Charted u live site n →
    (exec .log s frame site n).Reaches units (live = true)
      (Fits u.entered (exits u.entered live n))

theorem exec?_charts {e : Option Node} (h : ∀ n ∈ e, Charts units s u frame n) {live : Bool}
    {site : Nat} (hc : Charted? u live site e) :
    (exec? .log s frame site e).Reaches units (live = true)
      (Fits u.entered (exits? u.entered live e)) := by
  cases e with
  | none => exact Run.Meets.pure id
  | some n => exact h n rfl hc

/-- The rest of a sequence leaves as the whole sequence may. -/
theorem execAll_charts (hs : s.Charted units) (hu : u ∈ units) (hf : frame.unit = u.token)
    {whole : List Node} {start : Bool} {wholeSite : Nat} (hw : ChartedAll u start wholeSite whole)
    {ns : List Node} (h : ∀ n ∈ ns, Charts units s u frame n) {live : Bool} {site : Nat}
    (hc : ChartedAll u live site ns)
    (hx : (exitsAll u.entered live ns).Within (exitsAll u.entered start whole)) :
    (execAll .log s frame whole wholeSite site ns).Reaches units (start = true ∧ live = true)
      (Fits u.entered (exitsAll u.entered start whole)) := by
  induction ns generalizing live site with
  | nil => exact Run.Meets.pure fun hlive => hx.falls hlive.2
  | cons n ns ih =>
    simp only [List.mem_cons, forall_eq_or_imp] at h
    have first : Charted u live site n :=
      hc.mono (List.subset_append_left _ _) (List.subset_append_left _ _)
        (List.subset_append_left _ _)
    have rest : ChartedAll u (exits u.entered live n).falls (site + n.siteCount) ns :=
      hc.mono (List.subset_append_right _ _) (List.subset_append_right _ _)
        (List.subset_append_right _ _)
    simp only [execAll]
    refine ((h.1 first).frame (start = true)).bind fun flow => ?_
    cases flow with
    | normal => exact ih h.2 rest ((Exits.within_andThen_right _ _).trans hx)
    | jumping label =>
      refine Run.Meets.ite (fun _ => ?_) fun _ => Run.Meets.pure And.right
      exact hs.jump u hu frame hf start whole wholeSite label hw
    | breaking | continuing | returning =>
      exact Run.Meets.pure fun hfirst => Fits.mono hx (hfirst.2.andThen _ (by simp))

/-- What becomes of a switch without an arm for its value: it has no default. -/
theorem all_isSome_of_chosenArm? {value : Value} {arms : List Arm}
    (h : chosenArm? value arms = none) : (arms.all fun arm => arm.case.isSome) = true := by
  unfold chosenArm? at h
  split at h
  · cases h
  · simp only [List.findIdx?_eq_none_iff] at h
    simp only [List.all_eq_true]
    intro arm harm
    have hcase := h arm harm
    cases hc : arm.case with
    | none => simp [hc] at hcase
    | some => rfl

theorem chosenArm?_lt {value : Value} {arms : List Arm} {place : Nat}
    (h : chosenArm? value arms = some place) : place < arms.length := by
  unfold chosenArm? at h
  split at h
  · rename_i place' hfind
    cases h
    exact (List.findIdx?_eq_some_iff_findIdx_eq.1 hfind).1
  · exact (List.findIdx?_eq_some_iff_findIdx_eq.1 h).1

theorem execArm_charts (hu : u ∈ units) (hf : frame.unit = u.token) {arms : List Arm}
    (h : ∀ a ∈ arms, Charts units s u frame a.body) {live : Bool} {site : Nat}
    (hc : ChartedArms u live site arms) {place : Nat} (hplace : place < arms.length) :
    (execArm .log s frame place site arms).Reaches units (live = true)
      (Fits u.entered (exitsArms u.entered live arms)) := by
  induction arms generalizing place site with
  | nil => exact absurd hplace (by simp)
  | cons a arms ih =>
    obtain ⟨case, body, range⟩ := a
    simp only [List.mem_cons, forall_eq_or_imp] at h
    cases place with
    | zero =>
      have entry : ∀ p ∈ mark live .switchArm site range, p ∈ u.points :=
        fun p hp => hc.points p (by simp [pointsArms, hp])
      have inside : Charted u live site body :=
        hc.mono (fun p hp => by simp [pointsArms, hp]) (List.subset_append_left _ _)
          (List.subset_append_left _ _)
      refine (reach_known (known_of_mark hu hf entry)).bind fun _ => ?_
      exact (h.1 inside).mono fun _ => Fits.mono (Exits.within_orElse_left _ _)
    | succ place =>
      have rest : ChartedArms u live (site + body.siteCount) arms :=
        hc.mono (fun p hp => by simp [pointsArms, hp]) (List.subset_append_right _ _)
          (List.subset_append_right _ _)
      refine (ih h.2 rest (by simpa using hplace)).mono fun _ => ?_
      exact Fits.mono (Exits.within_orElse_right _ _)

/-- The flow of a `try` block with its handlers, if none of them ends with an exception. -/
theorem execHandler_charts (hu : u ∈ units) (hf : frame.unit = u.token) {handlers : List Handler}
    (h : ∀ a ∈ handlers, Charts units s u frame a.body) {live : Bool} {site : Nat}
    (hc : ChartedHandlers u live site handlers) {body : Exits} (outcome : Except Abort Flow) :
    (execHandler .log s frame outcome site handlers).Reaches units
      (live = true ∧ Ending (Fits u.entered body) (fun _ => True) (some outcome))
      fun o => Ending (Fits u.entered (body.orElse (exitsHandlers u.entered live handlers)))
        (fun _ => True) (some o) := by
  have keep {flow : Flow} (hflow : Fits u.entered body flow) :
      Fits u.entered (body.orElse (exitsHandlers u.entered live handlers)) flow :=
    Fits.mono (Exits.within_orElse_left _ _) hflow
  cases handlers with
  | nil =>
    cases outcome with
    | error => exact Run.Meets.pure fun _ => trivial
    | ok flow => exact Run.Meets.pure fun hflow => keep hflow.2
  | cons a handlers =>
    obtain ⟨binding, inner, range⟩ := a
    simp only [List.mem_cons, forall_eq_or_imp] at h
    rcases outcome with (value | error) | flow
    · have entry : ∀ p ∈ mark live .catchEntry site range, p ∈ u.points :=
        fun p hp => hc.points p (by simp [pointsHandlers, hp])
      have inside : Charted u live site inner :=
        hc.mono (fun p hp => by simp [pointsHandlers, hp]) (List.subset_append_left _ _)
          (List.subset_append_left _ _)
      refine Run.Meets.outcome ?_
      refine ((bindCaught_meets (live = true) frame value binding).weaken And.left).bind
        fun _ => ?_
      refine (reach_known (known_of_mark hu hf entry)).bind fun _ => ?_
      refine (h.1 inside).mono fun _ hflow => Fits.mono (Exits.within_orElse_right _ _) ?_
      exact Fits.mono (Exits.within_orElse_left _ _) hflow
    · exact Run.Meets.pure fun _ => trivial
    · exact Run.Meets.pure fun hflow => keep hflow.2

theorem execFinally_charts (hu : u ∈ units) (hf : frame.unit = u.token) {f : Option Node}
    (h : ∀ n ∈ f, Charts units s u frame n) {live : Bool} {site : Nat}
    (hentry : ∀ p ∈ markFinally live site f, p ∈ u.points) (hc : Charted? u live site f) :
    (execFinally .log s frame site f).Reaches units (live = true)
      (Fits u.entered (exits? u.entered live f)) := by
  cases f with
  | none => exact Run.Meets.pure id
  | some n => exact (reach_known (known_of_mark hu hf hentry)).bind fun _ => h n rfl hc

/-- The rounds of a charted loop are charted. -/
theorem rounds_charted {live : Bool} {site : Nat} {test : TestTime} {i v : Option Node} {c : Expr}
    {b : Node} {range : SourceRange} (hc : Charted u live site (.loop test i c v b range)) :
    Rounds.Charted u (exits? u.entered live i).falls
      ⟨test, c, b, v, site, site + 1 + Node.siteCount? i⟩ where
  header h := by
    refine ⟨⟨.loopHeader, site, range⟩, hc.points _ ?_, rfl, rfl⟩
    cases test <;> simp [points, mark, h]
  loop := ⟨i, range, hc.nodes _ (by simp [Node.sited])⟩
  body := by
    refine hc.mono (fun p hp => ?_) (fun l hl => ?_) (fun p hp => by simp [Node.sited, hp])
    · cases test <;> simp [points, hp]
    · simp [exits, hl]
  update := by
    refine hc.mono (fun p hp => ?_) (fun l hl => ?_) (fun p hp => by simp [Node.sited, hp])
    · cases test <;> simp [points, hp]
    · simp [exits, hl]

/-- Statements leave as the analysis says. -/
theorem fits_of_leadsTo {live : Bool} {a : Stmt} {range : SourceRange} {site : Nat}
    (hc : Charted u live site (.stmt a range)) {flow : Flow} (hlive : live = true)
    (h : LeadsTo a flow) : Fits u.entered (stmtExits live a) flow := by
  cases a with
  | goto label =>
    cases h
    exact hc.jumps label (by simp [exits, stmtExits, hlive])
  | leave => cases h; exact hlive
  | next => cases h; exact hlive
  | ret value =>
    obtain ⟨value, rfl⟩ := h
    trivial
  | raise value => cases h
  | assign | eval | print | skip =>
    cases h
    simp [Fits, stmtExits, Stmt.fallsThrough, hlive]

theorem branch_charts (hs : s.Charted units) (hu : u ∈ units) (hf : frame.unit = u.token)
    {c : Expr} {t : Node} {e : Option Node} {range : SourceRange}
    (iht : Charts units s u frame t) (ihe : ∀ n ∈ e, Charts units s u frame n) :
    Charts units s u frame (.branch c t e range) := by
  intro live site hc
  have entry : ∀ p ∈ mark live .condition site range, p ∈ u.points :=
    fun p hp => hc.points p (by simp [points, hp])
  have thenPart : Charted u (live && c.knownTruth != some false) (site + 1) t :=
    hc.mono (fun p hp => by simp [points, hp]) (List.subset_append_left _ _)
      (fun p hp => by simp [Node.sited, hp])
  have elsePart : Charted? u (live && c.knownTruth != some true) (site + 1 + t.siteCount) e :=
    hc.mono (List.subset_append_right _ _) (List.subset_append_right _ _)
      (fun p hp => by simp [Node.sited, hp])
  simp only [exec]
  refine (reach_known (known_of_mark hu hf entry)).bind fun _ => ?_
  refine (cond_meets hs _ frame c).bind fun value => ?_
  refine Run.Meets.ite (fun hv => ?_) fun hv => ?_
  · refine ((iht thenPart).weaken fun h => ?_).mono fun _ =>
      Fits.mono (Exits.within_orElse_left _ _)
    cases hk : c.knownTruth with
    | none => simp [h.1]
    | some truth => simp [h.1, ← h.2 truth hk, hv]
  · refine ((exec?_charts ihe elsePart).weaken fun h => ?_).mono fun _ =>
      Fits.mono (Exits.within_orElse_right _ _)
    cases hk : c.knownTruth with
    | none => simp [h.1]
    | some truth => simp [h.1, ← h.2 truth hk, hv]

theorem loop_charts (hs : s.Charted units) (hu : u ∈ units) (hf : frame.unit = u.token)
    {test : TestTime} {i v : Option Node} {c : Expr} {b : Node} {range : SourceRange}
    (ihi : ∀ n ∈ i, Charts units s u frame n) :
    Charts units s u frame (.loop test i c v b range) := by
  intro live site hc
  have before : Charted? u live (site + 1) i :=
    hc.mono (List.subset_append_left _ _)
      (List.Subset.trans (List.subset_append_left _ _) (List.subset_append_left _ _))
      (fun p hp => by simp [Node.sited, hp])
  have rounds := rounds_charted hc
  simp only [exec]
  refine (exec?_charts ihi before).bind fun flow => ?_
  cases flow with
  | normal =>
    refine (hs.loop u hu frame hf _ _ rounds).mono fun flow => Fits.mono ?_
    exact ⟨id, by simp [roundsExits], by simp [roundsExits], by simp [roundsExits]⟩
  | breaking | continuing | returning | jumping => exact Run.Meets.pure id

theorem switch_charts (hs : s.Charted units) (hu : u ∈ units) (hf : frame.unit = u.token)
    {value : Expr} {arms : List Arm} {range : SourceRange}
    (ih : ∀ a ∈ arms, Charts units s u frame a.body) :
    Charts units s u frame (.switch value arms range) := by
  intro live site hc
  have entry : ∀ p ∈ mark live .condition site range, p ∈ u.points :=
    fun p hp => hc.points p (by simp [points, hp])
  have inside : ChartedArms u live (site + 1) arms :=
    hc.mono (List.subset_append_right _ _) (List.Subset.refl _) (List.subset_cons_self _ _)
  simp only [exec]
  refine (reach_known (known_of_mark hu hf entry)).bind fun _ => ?_
  refine (eval_meets hs.quiet _ frame value fun i _ => perform_ignored frame i).bind fun v => ?_
  cases hchosen : chosenArm? v arms with
  | none =>
    refine Run.Meets.pure fun hlive => ?_
    simp [Fits, exits, hlive, all_isSome_of_chosenArm? hchosen]
  | some place =>
    refine (execArm_charts hu hf ih inside (chosenArm?_lt hchosen)).bind fun flow => ?_
    cases flow with
    | normal => exact Run.Meets.pure fun h => by simp [Fits, exits, show _ = true from h]
    | breaking => exact Run.Meets.pure fun h => by simp [Fits, exits, show _ = true from h]
    | continuing | returning | jumping => exact Run.Meets.pure id

/-- Behind a cleanup that ends normally, the flow of the block and its handlers is still to be
taken. -/
theorem fits_behind_cleanup {b : Node} {handlers : List Handler} {f : Option Node}
    {range : SourceRange} {live : Bool} {flow : Flow}
    (h : Fits u.entered ((exits u.entered live b).orElse (exitsHandlers u.entered live handlers))
      flow) (hcleanup : (exits? u.entered live f).falls = true) :
    Fits u.entered (exits u.entered live (.attempt b handlers f range)) flow := by
  cases flow with
  | normal => simp [Fits, exits, show Exits.falls _ = true from h, hcleanup]
  | breaking | continuing | returning | jumping =>
    exact h.andThen (exits? u.entered live f) (by simp)

theorem attempt_charts (hu : u ∈ units) (hf : frame.unit = u.token) {b : Node}
    {handlers : List Handler} {f : Option Node} {range : SourceRange}
    (ihb : Charts units s u frame b) (ihh : ∀ a ∈ handlers, Charts units s u frame a.body)
    (ihf : ∀ n ∈ f, Charts units s u frame n) :
    Charts units s u frame (.attempt b handlers f range) := by
  intro live site hc
  have body : Charted u live (site + 1) b :=
    hc.mono (fun p hp => by simp [points, hp])
      (fun l hl => by simp [exits, Exits.andThen, Exits.orElse, hl])
      (fun p hp => by simp [Node.sited, hp])
  have taken : ChartedHandlers u live (site + 1 + b.siteCount) handlers :=
    hc.mono (fun p hp => by simp [points, hp])
      (fun l hl => by simp [exits, Exits.andThen, Exits.orElse, hl])
      (fun p hp => by simp [Node.sited, hp])
  have last : Charted? u live (site + 1 + b.siteCount + Node.siteCountHandlers handlers) f :=
    hc.mono (fun p hp => by simp [points, hp])
      (fun l hl => by simp [exits, Exits.andThen, Exits.orElse, hl])
      (fun p hp => by simp [Node.sited, hp])
  have cleanup : (execFinally .log s frame
      (site + 1 + b.siteCount + Node.siteCountHandlers handlers) f).Reaches units (live = true)
        (Fits u.entered (exits? u.entered live f)) :=
    execFinally_charts hu hf ihf (fun p hp => hc.points p (by simp [points, hp])) last
  simp only [exec]
  refine (((ihb body).outcome.frame (live = true)).weaken fun h => ⟨h, h⟩).bind
    fun outcome => ?_
  refine (((execHandler_charts hu hf ihh taken outcome).frame (live = true)).weaken
    fun h => ⟨h.1, h⟩).bind fun outcome => ?_
  refine ((cleanup.frame _).weaken fun h => ⟨h.2, h.1⟩).bind fun flow => ?_
  cases flow with
  | normal =>
    refine Run.Meets.conclude fun h => ?_
    cases outcome with
    | error => trivial
    | ok flow => exact fits_behind_cleanup h.1 h.2
  | breaking | continuing => exact Run.Meets.pure fun h => Bool.or_eq_true_iff.2 (.inr h.2)
  | returning | jumping => exact Run.Meets.pure And.right

theorem guarded_charts (hs : s.Charted units) (hu : u ∈ units) (hf : frame.unit = u.token)
    {kind : GuardKind} {resource : Expr} {b : Node} {range : SourceRange}
    (ihb : Charts units s u frame b) :
    Charts units s u frame (.guarded kind resource b range) := by
  intro live site hc
  have entry : ∀ p ∈ mark live .scopeAcquire site range, p ∈ u.points :=
    fun p hp => hc.points p (by simp [points, hp])
  have inside : Charted u live (site + 1) b :=
    hc.mono (List.subset_append_right _ _) (List.Subset.refl _) (List.subset_cons_self _ _)
  refine (reach_known (known_of_mark hu hf entry)).bind fun _ => ?_
  refine (eval_meets hs.quiet _ frame resource fun i _ => perform_ignored frame i).bind
    fun value => ?_
  refine Run.Meets.ite (fun _ => ?_) fun _ => ihb inside
  exact Run.Meets.conclude fun _ => trivial

/-- **A live node reaches only points of the units, or the header of an overlooked loop, and leaves
in one of the ways that the analysis names.** -/
theorem exec_charted (hs : s.Charted units) (hu : u ∈ units) (hf : frame.unit = u.token)
    (n : Node) : Charts units s u frame n := by
  induction n using Node.induct with
  | stmt a range =>
    intro live site hc
    refine (reach_known (known_of_mark hu hf hc.points)).bind fun _ => ?_
    exact (execStmt_meets hs.quiet _ frame a fun i _ => perform_ignored frame i).mono
      fun flow h => fits_of_leadsTo hc h.1 h.2
  | seq ns ih =>
    intro live site hc
    have inside : ChartedAll u live (site + 1) ns :=
      hc.mono (List.Subset.refl _) (List.Subset.refl _) (List.subset_cons_self _ _)
    exact (execAll_charts hs hu hf inside ih inside (.refl _)).weaken fun h => ⟨h, h⟩
  | branch c t e range iht ihe => exact branch_charts hs hu hf iht ihe
  | loop test i c v b range ihi ihv ihb => exact loop_charts hs hu hf ihi
  | switch value arms range ih => exact switch_charts hs hu hf ih
  | attempt b handlers f range ihb ihh ihf => exact attempt_charts hu hf ihb ihh ihf
  | guarded kind resource b range ihb => exact guarded_charts hs hu hf ihb
  | label name range =>
    intro live site hc
    have passed : live = true → Known units frame.unit site .label :=
      fun hlive => known_of_mark hu hf hc.points (by simp [hlive])
    refine (reach_known passed).bind fun _ => Run.Meets.pure fun hlive => ?_
    simp [Fits, exits, hlive]
  | nested header root => exact fun _ => Run.Meets.pure id
  | probe span =>
    exact fun _ => (Run.Meets.ignored (perform_ignored frame (.mark span))).bind fun _ =>
      Run.Meets.pure id
  | acquire =>
    exact fun _ => (Run.Meets.onRecord fun _ => .refl id).bind fun _ => Run.Meets.pure id

/-! ## Rounds, jumps and units -/

/-- A test of a loop's condition, at a time when the analysis says how control comes to it. -/
theorem goesOn_charts (hs : s.Charted units) (time : TestTime) {rounds : Rounds} {P seen : Prop}
    (h : rounds.test = time → P →
      (seen ∧ Known units frame.unit rounds.site .loopHeader) ∨
        Overlooked units frame.unit rounds.site) :
    (goesOn .log s frame time rounds).Reaches units P fun again =>
      P ∧ (rounds.test = time → seen ∧ ∀ truth, rounds.cond.knownTruth = some truth →
        again = truth) ∧ (rounds.test ≠ time → again = true) := by
  refine Run.Meets.ite (fun htest => ?_) fun htest => ?_
  · refine (reach_header (h htest)).bind fun _ => ?_
    refine (cond_meets hs _ frame rounds.cond).bind fun value => Run.Meets.pure fun hv => ?_
    exact ⟨hv.1.1, fun _ => ⟨hv.1.2, hv.2⟩, fun hne => absurd htest hne⟩
  · exact Run.Meets.pure fun hP => ⟨hP, fun he => absurd he htest, fun _ => rfl⟩

/-- Behind an update that goes on, the condition of a loop that tests there has a point, or the loop
is overlooked. -/
theorem header_after (hu : u ∈ units) (hf : frame.unit = u.token) {start : Bool} {rounds : Rounds}
    (hc : Rounds.Charted u start rounds) {flow : Flow} (hflow : flow = .normal ∨ flow = .continuing)
    (htest : rounds.test = .after)
    (h : start = true ∧ Fits u.entered (exits? u.entered (updateLive
      (exits u.entered (bodyLive rounds.test rounds.cond start) rounds.body)) rounds.update) flow) :
    (headerLive rounds.test start (exits? u.entered (updateLive
        (exits u.entered (bodyLive rounds.test rounds.cond start) rounds.body)) rounds.update)
      = true ∧ Known units frame.unit rounds.site .loopHeader) ∨
      Overlooked units frame.unit rounds.site := by
  have hheader := hc.header
  obtain ⟨init, range, hnode⟩ := hc.loop
  obtain ⟨test, c, b, v, site, bodySite⟩ := rounds
  obtain ⟨rfl, hfits⟩ := h
  cases htest
  simp only [bodyLive, headerLive] at hheader hfits hnode ⊢
  by_cases hfalls : (exits? u.entered (updateLive (exits u.entered true b)) v).falls = true
  · exact .inl ⟨hfalls, u, hu, hf.symm, hheader hfalls⟩
  · refine .inr ⟨u, hu, hf.symm, CodeUnit.mem_overlooked.2 ⟨_, hnode, ?_⟩⟩
    rcases hflow with rfl | rfl
    · exact absurd hfits hfalls
    · simp [overlooksHeader, show Exits.continues _ = true from hfits, hfalls]

/-- Behind the body of a loop, the flow of its update decides how the rounds go on. -/
theorem execUpdate_charts (hs : s.Charted units) (hu : u ∈ units) (hf : frame.unit = u.token)
    {start : Bool} {rounds : Rounds} (hc : Rounds.Charted u start rounds) :
    (execUpdate .log s frame rounds).Reaches units
      (start = true ∧
        updateLive (exits u.entered (bodyLive rounds.test rounds.cond start) rounds.body) = true)
      (Fits u.entered (roundsExits u.entered start rounds)) := by
  have update := exec?_charts (fun n _ => exec_charted hs hu hf n) hc.update
  refine (update.frame (start = true)).bind fun flow => ?_
  cases flow with
  | normal | continuing =>
    refine (goesOn_charts hs .after (header_after hu hf hc (by simp))).bind fun again => ?_
    refine Run.Meets.ite (fun _ => ?_) fun hagain => Run.Meets.pure fun h => ?_
    · exact (hs.loop u hu frame hf start rounds hc).weaken fun h => h.1.1
    · by_cases htest : rounds.test = .after
      · obtain ⟨hlive, hknown⟩ := h.2.1 htest
        have hopen : rounds.cond.knownTruth ≠ some true := fun hk => hagain (hknown true hk)
        simp [Fits, roundsExits, hlive, hopen]
      · exact absurd (h.2.2 htest) hagain
  | breaking => exact Run.Meets.pure fun h => Bool.or_eq_true_iff.2 (.inr h.2)
  | returning | jumping => exact Run.Meets.pure And.right

/-- A round leaves the loop as the analysis says, or the further rounds do. -/
theorem execRound_charts (hs : s.Charted units) (hu : u ∈ units) (hf : frame.unit = u.token)
    {start : Bool} {rounds : Rounds} (hc : Rounds.Charted u start rounds) :
    (execRound .log s frame rounds).Reaches units (start = true)
      (Fits u.entered (roundsExits u.entered start rounds)) := by
  have header (htest : rounds.test = .before) (hstart : start = true) :
      (True ∧ Known units frame.unit rounds.site .loopHeader) ∨
        Overlooked units frame.unit rounds.site := by
    refine .inl ⟨trivial, u, hu, hf.symm, hc.header ?_⟩
    rw [htest]
    exact hstart
  have body := (exec_charted hs hu hf rounds.body hc.body).frame (start = true)
  refine (goesOn_charts hs .before header).bind fun enters => ?_
  refine Run.Meets.ite (fun henters => ?_) fun henters => Run.Meets.pure fun h => ?_
  · refine (body.weaken fun h => ⟨h.1, ?_⟩).bind fun flow => ?_
    · cases htest : rounds.test with
      | after => exact h.1
      | before =>
        have hopen : rounds.cond.knownTruth ≠ some false := fun hk => by
          have hfalse := (h.2.1 htest).2 false hk
          simp [hfalse] at henters
        simp [bodyLive, h.1, hopen]
    · cases flow with
      | normal =>
        exact (execUpdate_charts hs hu hf hc).weaken fun h =>
          ⟨h.1, Bool.or_eq_true_iff.2 (.inl h.2)⟩
      | continuing =>
        exact (execUpdate_charts hs hu hf hc).weaken fun h =>
          ⟨h.1, Bool.or_eq_true_iff.2 (.inr h.2)⟩
      | breaking =>
        refine Run.Meets.pure fun h => ?_
        simp [Fits, roundsExits, show Exits.breaks _ = true from h.2]
      | returning | jumping => exact Run.Meets.pure And.right
  · by_cases htest : rounds.test = .before
    · have hopen : rounds.cond.knownTruth ≠ some true := fun hk =>
        henters ((h.2.1 htest).2 true hk)
      simp [Fits, roundsExits, headerLive, htest, h.1, hopen]
    · exact absurd (h.2.2 htest) henters

/-- A label that is entered leaves like one that control falls into. -/
theorem exits_label {label : String} (hl : label ∈ u.entered) {n : Node}
    (hn : n.isLabel label = true) (live : Bool) (site : Nat) :
    exits u.entered live n = exits u.entered true n ∧
      points u.entered live site n = points u.entered true site n := by
  cases n with
  | label name range =>
    have hname : name = label := by simpa [Node.isLabel] using hn
    have hmem : u.entered.contains name = true := by
      rw [List.contains_iff_mem, hname]
      exact hl
    simp only [exits, points, hmem, Bool.or_true, and_self]
  | _ => cases hn

/-- What is found of a sequence is found from a label on, which is live if the label is entered. -/
theorem charted_fromLabel? {label : String} {ns : List Node} {live : Bool} {site : Nat}
    (hc : ChartedAll u live site ns) {p : Nat × List Node}
    (h : fromLabel? label site ns = some p) :
    ∃ start, (label ∈ u.entered → start = true) ∧ ChartedAll u start p.1 p.2 ∧
      (exitsAll u.entered start p.2).Within (exitsAll u.entered live ns) := by
  induction ns generalizing live site with
  | nil => cases h
  | cons n ns ih =>
    by_cases hn : n.isLabel label = true
    · rw [fromLabel?, if_pos hn] at h
      cases h
      by_cases hl : label ∈ u.entered
      · obtain ⟨hexits, hpoints⟩ := exits_label hl hn live site
        have hall : exitsAll u.entered live (n :: ns) = exitsAll u.entered true (n :: ns) := by
          simp only [exitsAll, hexits]
        have hallPoints : pointsAll u.entered live site (n :: ns) =
            pointsAll u.entered true site (n :: ns) := by
          simp only [pointsAll, hexits, hpoints]
        refine ⟨true, fun _ => rfl, ?_, ?_⟩
        · show Found u (pointsAll u.entered true site (n :: ns)) _ _
          rw [← hall, ← hallPoints]
          exact hc
        · rw [hall]
          exact .refl _
      · exact ⟨live, fun hmem => absurd hmem hl, hc, .refl _⟩
    · rw [fromLabel?, if_neg hn] at h
      have rest : ChartedAll u (exits u.entered live n).falls (site + n.siteCount) ns :=
        hc.mono (List.subset_append_right _ _) (List.subset_append_right _ _)
          (List.subset_append_right _ _)
      obtain ⟨start, hstart, hcharted, hwithin⟩ := ih rest h
      exact ⟨start, hstart, hcharted, hwithin.trans (Exits.within_andThen_right _ _)⟩

/-- A sequence that a jump comes back to goes on at a label that is entered. -/
theorem execJump_charts (hs : s.Charted units) (hu : u ∈ units) (hf : frame.unit = u.token)
    {live : Bool} {whole : List Node} {site : Nat} (hc : ChartedAll u live site whole)
    (label : String) :
    (execJump .log s frame whole site label).Reaches units (live = true ∧ label ∈ u.entered)
      (Fits u.entered (exitsAll u.entered live whole)) := by
  unfold execJump
  cases hfrom : fromLabel? label site whole with
  | none => exact Run.Meets.pure And.right
  | some p =>
    obtain ⟨start, hstart, hrest, hwithin⟩ := charted_fromLabel? hc hfrom
    have nodes : ∀ n ∈ p.2, Charts units s u frame n := fun n _ => exec_charted hs hu hf n
    exact (execAll_charts hs hu hf hc nodes hrest hwithin).weaken fun h => ⟨h.1, hstart h.2⟩

/-- The body of a unit is live, and everything is found of it. -/
theorem charted_root (h : u.defects = []) : Charted u true 0 u.root where
  points _ hp := List.mem_cons_of_mem _ hp
  jumps := enteredLabels_closed h
  nodes _ hp := hp

theorem activate_charts (hs : s.Charted units) (u : LoadedUnit) (hu : u.unit ∈ units)
    (hvalid : u.unit.defects = []) (outer : Option Scope) (args : List Value) :
    (activate .log s u outer args).Reaches units True fun _ => True := by
  refine (enter_meets True u.unit outer args).bind fun scope => ?_
  have entry : Known units u.unit.token 0 .entry :=
    ⟨u.unit, hu, rfl, ⟨.entry, 0, u.unit.range⟩, List.mem_cons_self, rfl, rfl⟩
  have noted : (noteEntry .log ⟨u.unit.token, scope, u.payloadLength⟩).Reaches units True
      fun _ => True :=
    (Run.Meets.read _).bind fun depth =>
      (Run.Meets.ignored (note_ignored fun _ _ _ => by simp)).bind fun _ =>
        reach_known fun _ => entry
  refine noted.bind fun _ => ?_
  have body : Charts units s u.unit ⟨u.unit.token, scope, u.payloadLength⟩ u.unit.root :=
    exec_charted hs hu rfl u.unit.root
  refine ((body (charted_root hvalid)).outcome.weaken fun _ => rfl).bind fun outcome => ?_
  refine (leave_meets _ fun depth => note_ignored fun _ _ _ => by simp).bind fun _ => ?_
  refine Run.Meets.conclude fun _ => ?_
  cases outcome <;> trivial

theorem applyValue_charts (hvalid : ∀ u ∈ units, u.defects = []) (hs : s.Charted units)
    {code : Code} (hcode : code.All (· ∈ units)) (callee : Value) (args : List Value) :
    (applyValue code .log s callee args).Reaches units True fun _ => True := by
  have hq := hs.quiet
  simp only [applyValue]
  rcases callee? callee with _ | ⟨token, outer⟩
  · exact hq.fail fun _ _ => by simp
  · dsimp only
    cases hget : code.units.get? token with
    | none => exact hq.fail fun _ _ => by simp
    | some u =>
      have hu := hcode token u hget
      refine Run.Meets.ite (fun _ => hq.fail fun _ _ => by simp) fun _ => ?_
      refine (Run.Meets.read _).bind fun depth => ?_
      refine Run.Meets.ite (fun _ => hq.fail fun _ _ => by simp) fun _ => ?_
      refine (activate_charts hs u hu (hvalid _ hu) outer args).bind fun flow => ?_
      cases flow with
      | normal | returning => exact Run.Meets.pure id
      | breaking | continuing | jumping =>
        exact Run.Meets.fail (note_ignored fun _ _ _ => by simp) trivial

/-- **All runs of a program's units reach only points that these have**, unless they come by the
header of an overlooked loop. -/
theorem steps_charted (hvalid : ∀ u ∈ units, u.defects = []) {code : Code}
    (hcode : code.All (· ∈ units)) (fuel : Nat) : (steps code .log fuel).Charted units := by
  induction fuel with
  | zero =>
    exact ⟨fun _ _ => Run.Meets.exhausted, fun _ _ _ _ _ _ _ => Run.Meets.exhausted,
      fun _ _ _ _ _ _ _ _ _ => Run.Meets.exhausted⟩
  | succ fuel ih =>
    exact ⟨applyValue_charts hvalid ih hcode,
      fun u hu frame hf start rounds hc => execRound_charts ih hu hf hc,
      fun u hu frame hf live whole site label hc => execJump_charts ih hu hf hc label⟩

end Nodes

end SpanCoverage.Host
