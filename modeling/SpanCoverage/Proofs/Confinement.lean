import SpanCoverage.Proofs.Blocks
import SpanCoverage.Proofs.ConfinedSplice
import SpanCoverage.Proofs.Loading
import SpanCoverage.Proofs.Watch

/-!
# Flows of confined code

A node of a confined tree ends with a flow that its surroundings take: a `break` only where a loop
or a switch is around it, a `continue` only where a loop is, and a jump only where a sequence with
its label is.  So nothing but a return or the end of the body comes out of a unit.

The main results are:

* `exec_confined` — a node of a confined tree ends with a flow that its surroundings take.
* `steps_confined` — calls, loops and jumps of confined code keep control in its unit.
-/

namespace SpanCoverage.Host

open Analysis

variable {σ : Type}

/-! ## Flows that the surroundings take -/

/-- Whether the surroundings of a node take a flow that comes out of it: a `break` a loop or switch,
a `continue` a loop, and a jump a sequence that holds its label. -/
def Takes (ctx : Context) : Flow → Prop
  | .normal | .returning _ => True
  | .breaking => ctx.canLeave = true
  | .continuing => ctx.canRepeat = true
  | .jumping label => label ∈ ctx.labels

/-- A run does not end with control that has left its unit. -/
def Abort.Tame : Abort → Prop
  | .thrown _ => True
  | .failed error => error.Tame

/-- A statement whose jump has its target around it leads to a flow that the surroundings take. -/
theorem takes_of_leadsTo {ctx : Context} {a : Stmt} {flow : Flow} (ha : ctx.Admits a)
    (h : LeadsTo a flow) : Takes ctx flow := by
  cases a with
  | goto label => cases h; exact ha
  | leave => cases h; exact ha
  | next => cases h; exact ha
  | ret value =>
    obtain ⟨value, rfl⟩ := h
    trivial
  | raise value => cases h
  | assign | eval | print | skip => cases h; trivial

/-- The body and the update of a loop, in the surroundings of the loop. -/
structure Rounds.Confined (ctx : Context) (rounds : Rounds) : Prop where
  body : SpanCoverage.Confined ctx.inLoop rounds.body
  update : ∀ n ∈ rounds.update, SpanCoverage.Confined ctx.inLoop n

/-- A run that keeps a watch and does not end with control outside its unit. -/
abbrev Run.Stays {α : Type} (W : Watch σ) (x : Run σ α) (post : α → Prop) : Prop :=
  Run.Meets W True x post Abort.Tame

/-- Steps that keep control in its unit. -/
structure Resume.Confined (W : Watch σ) (s : Resume σ) : Prop where
  call : ∀ callee args, (s.call callee args).Stays W fun _ => True
  loop : ∀ ctx frame rounds, Rounds.Confined ctx rounds →
    (s.loop frame rounds).Stays W (Takes ctx)
  jump : ∀ ctx frame whole site label, (∀ n ∈ whole, SpanCoverage.Confined (ctx.inSeq whole) n) →
    whole.any (·.isLabel label) = true → (s.jump frame whole site label).Stays W (Takes ctx)

/-- A recorder that keeps a watch, whatever it is told but that control has left a unit. -/
structure Recorder.Calm (W : Watch σ) (r : Recorder σ) : Prop where
  note : ∀ event : Event, (∀ error, event = .failed error → error.Tame) → W.Ignores (r.note event)
  broken : ∀ event s, W.broken s → W.broken (r.note event s)
  acquire : ∀ unit length, W.Ignores (r.acquire unit length)
  mark : ∀ unit span, W.Ignores (r.mark unit span)

section Stays

variable {W : Watch σ} {r : Recorder σ} {s : Resume σ}

theorem Resume.Confined.quiet (hs : s.Confined W) (hr : r.Calm W) : Quiet W r s Abort.Tame where
  thrown _ := trivial
  failed _ h := h
  noted error h := hr.note _ fun e he => by cases he; exact h
  call := hs.call

theorem Recorder.Calm.perform (hr : r.Calm W) (frame : Frame) (i : Instruction) :
    W.Ignores (r.perform frame i) := by
  cases i with
  | acquire => exact hr.acquire _ _
  | mark span => exact hr.mark _ _

theorem reach_stays (hr : r.Calm W) (frame : Frame) (site : Nat) (kind : SpanKind) (P : Prop) :
    Run.Meets W P (reach r frame site kind) (fun _ => P) Abort.Tame :=
  Run.Meets.ignored (hr.note _ fun _ he => nomatch he)

/-! ## Nodes -/

/-- A node of a confined tree keeps control in its unit. -/
def Stays (W : Watch σ) (r : Recorder σ) (s : Resume σ) (frame : Frame) (ctx : Context) (n : Node) :
    Prop :=
  ∀ site, (exec r s frame site n).Stays W (Takes ctx)

theorem exec?_stays {frame : Frame} {ctx : Context} {e : Option Node}
    (h : ∀ n ∈ e, Stays W r s frame ctx n) (site : Nat) :
    (exec? r s frame site e).Stays W (Takes ctx) := by
  cases e with
  | none => exact Run.Meets.pure fun _ => trivial
  | some n => exact h n rfl site

theorem execAll_stays (hs : s.Confined W) {frame : Frame} {ctx : Context} {whole ns : List Node}
    (hw : ∀ n ∈ whole, Confined (ctx.inSeq whole) n)
    (h : ∀ n ∈ ns, Stays W r s frame (ctx.inSeq whole) n) (wholeSite site : Nat) :
    (execAll r s frame whole wholeSite site ns).Stays W (Takes ctx) := by
  induction ns generalizing site with
  | nil => exact Run.Meets.pure fun _ => trivial
  | cons n ns ih =>
    simp only [List.mem_cons, forall_eq_or_imp] at h
    simp only [execAll]
    refine (h.1 site).bind fun flow => ?_
    cases flow with
    | normal => exact (ih h.2 _)
    | jumping label =>
      refine Run.Meets.ite (fun hl => ?_) fun hl => ?_
      · exact (hs.jump ctx frame whole wholeSite label hw hl).weaken fun _ => trivial
      refine Run.Meets.pure fun htakes => ?_
      -- The sequence does not hold the label, so something around the sequence does.
      have hmem : label ∈ ctx.labels ++ labelNames whole := htakes
      rcases List.mem_append.1 hmem with hout | hin
      · exact hout
      · exact absurd (mem_labelNames_iff.1 hin) hl
    | breaking => exact Run.Meets.pure id
    | continuing => exact Run.Meets.pure id
    | returning value => exact Run.Meets.pure fun _ => trivial

theorem execArm_stays (hr : r.Calm W) {frame : Frame} {ctx : Context} {arms : List Arm}
    (h : ∀ a ∈ arms, Stays W r s frame ctx a.body) (which site : Nat) :
    (execArm r s frame which site arms).Stays W (Takes ctx) := by
  induction arms generalizing which site with
  | nil => exact Run.Meets.pure fun _ => trivial
  | cons a arms ih =>
    obtain ⟨case, body, range⟩ := a
    simp only [List.mem_cons, forall_eq_or_imp] at h
    cases which with
    | zero => exact (reach_stays hr _ _ _ _).bind fun _ => h.1 site
    | succ which => exact ih h.2 which _

theorem execHandler_stays (hr : r.Calm W) {frame : Frame} {ctx : Context} {handlers : List Handler}
    (h : ∀ a ∈ handlers, Stays W r s frame ctx a.body) (outcome : Except Abort Flow) (site : Nat) :
    Run.Meets W (Ending (Takes ctx) Abort.Tame (some outcome))
      (execHandler r s frame outcome site handlers)
      (fun o => Ending (Takes ctx) Abort.Tame (some o)) Abort.Tame := by
  cases handlers with
  | nil => exact Run.Meets.pure id
  | cons a handlers =>
    obtain ⟨binding, body, range⟩ := a
    simp only [List.mem_cons, forall_eq_or_imp] at h
    rcases outcome with (value | error) | flow
    · refine ((bindCaught_meets _ frame value binding).bind fun _ => ?_).outcome
      exact (reach_stays hr _ _ _ _).bind fun _ => (h.1 site).weaken fun _ => trivial
    · exact Run.Meets.pure id
    · exact Run.Meets.pure id

/-- **A node of a confined tree ends with a flow that its surroundings take.** -/
theorem exec_confined (hr : r.Calm W) (hs : s.Confined W) (frame : Frame) (n : Node) :
    ∀ {ctx : Context}, Confined ctx n → Stays W r s frame ctx n := by
  have hq := hs.quiet hr
  have instructions (is : List Instruction) : ∀ i ∈ is, W.Ignores (r.perform frame i) :=
    fun i _ => hr.perform frame i
  induction n using Node.induct with
  | stmt a range =>
    intro ctx h site
    cases h with
    | stmt ha =>
      refine (reach_stays hr _ _ _ _).bind fun _ => ?_
      exact (execStmt_meets hq True frame a (instructions _)).mono fun flow hf =>
        takes_of_leadsTo ha hf.2
  | seq ns ih =>
    intro ctx h site
    cases h with
    | seq hns => exact execAll_stays hs hns (fun n hn => ih n hn (hns n hn)) _ _
  | branch c t e range iht ihe =>
    intro ctx h site
    cases h with
    | branch ht he =>
      refine (reach_stays hr _ _ _ _).bind fun _ => ?_
      refine (eval_meets hq _ frame c (instructions _)).bind fun value => ?_
      refine Run.Meets.ite (fun _ => iht ht _) fun _ => ?_
      exact exec?_stays (fun n hn => ihe n hn (he n hn)) _
  | loop test i c u b range ihi ihu ihb =>
    intro ctx h site
    cases h with
    | loop hi hu hb =>
      refine (exec?_stays (fun n hn => ihi n hn (hi n hn)) _).bind fun flow => ?_
      cases flow with
      | normal => exact (hs.loop ctx frame _ ⟨hb, hu⟩)
      | breaking | continuing | returning | jumping => exact Run.Meets.pure id
  | switch value arms range ih =>
    intro ctx h site
    cases h with
    | switch ha =>
      simp only [exec]
      refine (reach_stays hr _ _ _ _).bind fun _ => ?_
      refine (eval_meets hq _ frame value (instructions _)).bind fun v => ?_
      cases chosenArm? v arms with
      | none => exact Run.Meets.pure fun _ => trivial
      | some which =>
        refine (execArm_stays hr (fun a hm => ih a hm (ha a hm)) which _).bind fun flow => ?_
        cases flow with
        | breaking => exact Run.Meets.pure fun _ => trivial
        | normal | continuing | returning | jumping => exact Run.Meets.pure id
  | attempt b handlers f range ihb ihh ihf =>
    intro ctx h site
    cases h with
    | attempt hb hh hf =>
      refine (ihb hb (site + 1)).outcome.bind fun outcome => ?_
      refine (execHandler_stays hr (fun a hm => ihh a hm (hh a hm)) outcome _).bind
        fun outcome => ?_
      have cleanup : (execFinally r s frame
          (site + 1 + b.siteCount + Node.siteCountHandlers handlers) f).Stays W (Takes ctx) := by
        cases f with
        | none => exact Run.Meets.pure fun _ => trivial
        | some n => exact (reach_stays hr _ _ _ _).bind fun _ => ihf n rfl (hf n rfl) _
      -- The outcome of the block and its handler is still to be taken behind a normal end.
      refine ((cleanup.frame _).weaken fun h => ⟨h, trivial⟩).bind fun flow => ?_
      cases flow with
      | normal => exact Run.Meets.conclude And.left
      | breaking | continuing | returning | jumping => exact Run.Meets.pure And.right
  | guarded kind resource b range ihb =>
    intro ctx h site
    cases h with
    | guarded hb =>
      refine (reach_stays hr _ _ _ _).bind fun _ => ?_
      refine (eval_meets hq _ frame resource (instructions _)).bind fun value => ?_
      refine Run.Meets.ite (fun _ => ?_) fun _ => ihb hb _
      exact Run.Meets.conclude fun _ => trivial
  | label name range =>
    intro ctx h site
    exact (reach_stays hr _ _ _ _).bind fun _ => Run.Meets.pure fun _ => trivial
  | nested header root => exact fun _ _ => Run.Meets.pure fun _ => trivial
  | probe span =>
    exact fun _ _ => (Run.Meets.ignored (hr.mark _ _)).bind fun _ => Run.Meets.pure fun _ => trivial
  | acquire =>
    exact fun _ _ => (Run.Meets.ignored (hr.acquire _ _)).bind fun _ =>
      Run.Meets.pure fun _ => trivial

/-! ## Rounds, jumps and units -/

theorem goesOn_stays (hr : r.Calm W) (hs : s.Confined W) (frame : Frame) (time : TestTime)
    (rounds : Rounds) : (goesOn r s frame time rounds).Stays W fun _ => True := by
  refine Run.Meets.ite (fun _ => ?_) fun _ => Run.Meets.pure id
  exact (reach_stays hr _ _ _ _).bind fun _ =>
    (eval_meets (hs.quiet hr) _ frame rounds.cond fun i _ => hr.perform frame i).bind fun _ =>
      Run.Meets.pure id

theorem execUpdate_stays (hr : r.Calm W) (hs : s.Confined W) {ctx : Context} (frame : Frame)
    {rounds : Rounds} (h : Rounds.Confined ctx rounds) :
    (execUpdate r s frame rounds).Stays W (Takes ctx) := by
  refine (exec?_stays (fun n hn => exec_confined hr hs frame n (h.update n hn)) _).bind
    fun flow => ?_
  cases flow with
  | normal | continuing =>
    refine ((goesOn_stays hr hs frame .after rounds).weaken fun _ => trivial).bind fun again => ?_
    exact Run.Meets.ite (fun _ => hs.loop ctx frame rounds h) fun _ =>
      Run.Meets.pure fun _ => trivial
  | breaking => exact Run.Meets.pure fun _ => trivial
  | returning | jumping => exact Run.Meets.pure id

/-- A loop takes what its body and its update do to it, and hands on the rest. -/
theorem execRound_stays (hr : r.Calm W) (hs : s.Confined W) {ctx : Context} (frame : Frame)
    {rounds : Rounds} (h : Rounds.Confined ctx rounds) :
    (execRound r s frame rounds).Stays W (Takes ctx) := by
  refine (goesOn_stays hr hs frame .before rounds).bind fun enters => ?_
  refine Run.Meets.ite (fun _ => ?_) fun _ => Run.Meets.pure fun _ => trivial
  refine (exec_confined hr hs frame rounds.body h.body _).bind fun flow => ?_
  cases flow with
  | normal | continuing => exact (execUpdate_stays hr hs frame h).weaken fun _ => trivial
  | breaking => exact Run.Meets.pure fun _ => trivial
  | returning | jumping => exact Run.Meets.pure id

theorem fromLabel?_of_any {label : String} {ns : List Node} (site : Nat)
    (h : ns.any (·.isLabel label) = true) : ∃ p, fromLabel? label site ns = some p := by
  induction ns generalizing site with
  | nil => cases h
  | cons n ns ih =>
    by_cases hl : n.isLabel label = true
    · exact ⟨(site, n :: ns), by simp [fromLabel?, hl]⟩
    · have hrest : ns.any (·.isLabel label) = true := by simpa [hl] using h
      obtain ⟨p, hp⟩ := ih (site + n.siteCount) hrest
      exact ⟨p, by simp [fromLabel?, hl, hp]⟩

/-- A sequence with a label takes the jumps to it. -/
theorem execJump_stays (hr : r.Calm W) (hs : s.Confined W) {ctx : Context} (frame : Frame)
    {whole : List Node} (site : Nat) {label : String}
    (h : ∀ n ∈ whole, Confined (ctx.inSeq whole) n) (hl : whole.any (·.isLabel label) = true) :
    (execJump r s frame whole site label).Stays W (Takes ctx) := by
  obtain ⟨p, hp⟩ := fromLabel?_of_any site hl
  unfold execJump
  rw [hp]
  exact execAll_stays hs h
    (fun n hn => exec_confined hr hs frame n (h n (mem_of_fromLabel? hp n hn))) _ _

/-- Code whose units are all confined. -/
abbrev Code.Confined (code : Code) : Prop :=
  code.All fun u => SpanCoverage.Confined { unit := u.name } u.root

theorem activate_stays (hr : r.Calm W) (hs : s.Confined W) (u : LoadedUnit) (outer : Option Scope)
    (args : List Value) (hu : Confined { unit := u.unit.name } u.unit.root) :
    (activate r s u outer args).Stays W (Takes { unit := u.unit.name }) := by
  have noted (event : Event) (h : ∀ error, event ≠ .failed error) : W.Ignores (r.note event) :=
    hr.note event fun error he => absurd he (h error)
  have notes (frame : Frame) : (noteEntry r frame).Stays W fun _ => True :=
    (Run.Meets.read _).bind fun depth => (Run.Meets.ignored (noted _ (by simp))).bind fun _ =>
      reach_stays hr frame 0 .entry True
  refine (enter_meets True u.unit outer args).bind fun scope => (notes _).bind fun _ => ?_
  refine (exec_confined hr hs _ u.unit.root hu 0).outcome.bind fun outcome => ?_
  exact (leave_meets _ fun depth => noted _ (by simp)).bind fun _ => Run.Meets.conclude id

/-- A call keeps control in the unit called. -/
theorem applyValue_stays (hr : r.Calm W) (hs : s.Confined W) {code : Code} (hc : code.Confined)
    (callee : Value) (args : List Value) :
    (applyValue code r s callee args).Stays W fun _ => True := by
  have hq := hs.quiet hr
  simp only [applyValue]
  rcases callee? callee with _ | ⟨token, outer⟩
  · exact hq.fail fun _ _ => by simp
  · dsimp only
    cases hu : code.units.get? token with
    | none => exact hq.fail fun _ _ => by simp
    | some u =>
      refine Run.Meets.ite (fun _ => hq.fail fun _ _ => by simp) fun _ => ?_
      refine (Run.Meets.read _).bind fun depth => ?_
      refine Run.Meets.ite (fun _ => hq.fail fun _ _ => by simp) fun _ => ?_
      refine (activate_stays hr hs u outer args (hc token u hu)).bind fun flow => ?_
      cases flow with
      | normal | returning => exact Run.Meets.pure fun _ => trivial
      -- No surroundings are left that could take a jump, so none comes here.
      | breaking | continuing | jumping =>
        refine Run.Meets.weaken (Run.Meets.unreachable fun s => hr.broken _ s) fun h => ?_
        simp [Takes] at h

/-- **All steps of a run keep control in its unit.** -/
theorem steps_confined (hr : r.Calm W) {code : Code} (hc : code.Confined) (fuel : Nat) :
    (steps code r fuel).Confined W := by
  induction fuel with
  | zero =>
    exact ⟨fun _ _ => Run.Meets.exhausted, fun _ _ _ _ => Run.Meets.exhausted,
      fun _ _ _ _ _ _ _ => Run.Meets.exhausted⟩
  | succ fuel ih =>
    exact ⟨applyValue_stays hr ih hc, fun _ frame _ h => execRound_stays hr ih frame h,
      fun _ frame _ site _ h hl => execJump_stays hr ih frame site h hl⟩

end Stays

end SpanCoverage.Host
