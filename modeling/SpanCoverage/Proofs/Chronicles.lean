import SpanCoverage.Host.Chronicle
import SpanCoverage.Proofs.Determinism

/-!
# Chronicles of calls

A chronicle is kept beside a run and changes nothing in it: every call is one with a chronicle, with
the same answer.  The failures that it holds are those that the host notes.

The main results are:

* `Chronicled.steps_same` — all steps are the same with and without a chronicle.
* `Rig.chronicled_run`, `Rig.chronicled_apply` — so are calls.
* `Rig.observed_failures` — the failures of a call are those that its log has more.
-/

namespace SpanCoverage.Host

variable {σ ρ α β : Type}

/-! ## The same run with and without a chronicle -/

namespace Chronicled

/-- A relation to the record of a run without a chronicle: the recorder keeps it, and it does not
matter which `finally` blocks are written down. -/
structure Alongside (r : Recorder σ) (R : σ × Chronicle → σ → Prop) : Prop where
  like : r.chronicled.Like R r
  clean : ∀ cleanup s t, R s t → R (s.1, s.2.clean cleanup) t

/-- The chronicle does not show in the record. -/
theorem beside (r : Recorder σ) : Alongside r fun s t => s.1 = t where
  like := {
    note := fun event _ _ h => congrArg (r.note event) h
    acquire := fun unit length _ _ h => congrArg (r.acquire unit length) h
    mark := fun unit span _ _ h => congrArg (r.mark unit span) h }
  clean _ _ _ h := h

section Same

variable {r : Recorder σ} {R : σ × Chronicle → σ → Prop} {s : Resume (σ × Chronicle)}
  {s' : Resume σ} {frame : Frame}

/-- Two runs of one piece of code, with and without a chronicle. -/
abbrev Same (R : σ × Chronicle → σ → Prop) (x : Run (σ × Chronicle) α) (y : Run σ α) : Prop :=
  Run.Like False R x y

/-- Steps with and without a chronicle. -/
abbrev SameSteps (R : σ × Chronicle → σ → Prop) (s : Resume (σ × Chronicle)) (s' : Resume σ) :
    Prop :=
  s.Like False R s'

/-- A node runs in the same way, wherever it stands. -/
abbrev SameNode (R : σ × Chronicle → σ → Prop) (r : Recorder σ) (s : Resume (σ × Chronicle))
    (s' : Resume σ) (frame : Frame) (n : Node) : Prop :=
  ∀ site, Same R (exec r.chronicled s frame site n) (Host.exec r s' frame site n)

theorem exec?_same {e : Option Node} (h : ∀ n ∈ e, SameNode R r s s' frame n) (site : Nat) :
    Same R (exec? r.chronicled s frame site e) (Host.exec? r s' frame site e) := by
  cases e with
  | none => exact Run.Like.pure _
  | some n => exact h n rfl site

theorem execAll_same (hs : SameSteps R s s') (whole : List Node) (wholeSite : Nat) {ns : List Node}
    (hns : ∀ n ∈ ns, SameNode R r s s' frame n) (site : Nat) :
    Same R (execAll r.chronicled s frame whole wholeSite site ns)
      (Host.execAll r s' frame whole wholeSite site ns) := by
  induction ns generalizing site with
  | nil => exact Run.Like.pure _
  | cons n ns ih =>
    simp only [List.mem_cons, forall_eq_or_imp] at hns
    simp only [execAll, Host.execAll]
    refine (hns.1 site).bind fun flow => ?_
    cases flow with
    | normal => exact ih hns.2 _
    | jumping label => exact Run.Like.ite (fun _ => hs.jump _ _ _ _) fun _ => Run.Like.pure _
    | breaking | continuing | returning => exact Run.Like.pure _

variable (hr : Alongside r R)

include hr

theorem execArm_same {arms : List Arm} (harms : ∀ a ∈ arms, SameNode R r s s' frame a.body)
    (place site : Nat) :
    Same R (execArm r.chronicled s frame place site arms)
      (Host.execArm r s' frame place site arms) := by
  induction arms generalizing place site with
  | nil => exact Run.Like.pure _
  | cons a arms ih =>
    obtain ⟨case, body, range⟩ := a
    simp only [List.mem_cons, forall_eq_or_imp] at harms
    cases place with
    | zero => exact (reach_like hr.like _ _ _).bind fun _ => harms.1 _
    | succ place => exact ih harms.2 _ _

theorem execHandler_same {handlers : List Handler}
    (hh : ∀ h ∈ handlers, SameNode R r s s' frame h.body) (outcome : Except Abort Flow)
    (site : Nat) :
    Same R (execHandler r.chronicled s frame outcome site handlers)
      (Host.execHandler r s' frame outcome site handlers) := by
  cases handlers with
  | nil => exact Run.Like.pure _
  | cons h handlers =>
    obtain ⟨binding, body, range⟩ := h
    simp only [List.mem_cons, forall_eq_or_imp] at hh
    rcases outcome with (value | error) | flow
    · exact ((bindCaught_like _ _ _).bind fun _ =>
        (reach_like hr.like _ _ _).bind fun _ => hh.1 _).outcome
    · exact Run.Like.pure _
    · exact Run.Like.pure _

/-- A `finally` block settles things in the same way, whether or not that is written down. -/
theorem settle_same {found : Except Abort Flow} {x : Run (σ × Chronicle) Flow} {y : Run σ Flow}
    (h : Same R x y) {next : Flow → Run σ Flow}
    (hnext : ∀ flow, next flow = Run.conclude (Cleanup.outcome ⟨found, .ok flow⟩)) :
    Same R (settle found x) (y >>= next) := by
  intro w v hwv
  have hends := h w v hwv
  rw [settle, Run.bind_apply, Run.bind_apply]
  unfold Run.outcome
  generalize x w = p at hends ⊢
  generalize y v = q at hends ⊢
  obtain ⟨o, w'⟩ := p
  obtain ⟨o', v'⟩ := q
  rcases hends with ⟨hlax, -⟩ | ⟨rfl, hlike⟩
  · exact hlax.elim
  rcases o with _ | (_ | flow)
  · exact .inr ⟨rfl, hlike⟩
  · exact .inr ⟨rfl, hlike.heap, hlike.output, hlike.depth, hr.clean _ _ _ hlike.record⟩
  · simp only [hnext flow]
    exact .inr ⟨rfl, hlike.heap, hlike.output, hlike.depth, hr.clean _ _ _ hlike.record⟩

/-- **A node runs in the same way with and without a chronicle.** -/
theorem exec_same (hs : SameSteps R s s') (n : Node) : SameNode R r s s' frame n := by
  induction n using Node.induct with
  | stmt a range =>
    intro site
    exact (reach_like hr.like _ _ _).bind fun _ => execStmt_like hr.like hs _ _
  | seq ns ih => exact fun site => execAll_same hs _ _ ih _
  | branch c t e range iht ihe =>
    intro site
    refine (reach_like hr.like _ _ _).bind fun _ => (eval_like hr.like hs _ _).bind fun value => ?_
    exact Run.Like.ite (fun _ => iht _) fun _ => exec?_same ihe _
  | loop test i c u b range ihi ihu ihb =>
    intro site
    refine (exec?_same ihi _).bind fun flow => ?_
    cases flow with
    | normal => exact hs.loop _ _
    | breaking | continuing | returning | jumping => exact Run.Like.pure _
  | switch value arms range ih =>
    intro site
    simp only [exec, Host.exec]
    refine (reach_like hr.like _ _ _).bind fun _ => (eval_like hr.like hs _ _).bind fun value => ?_
    cases chosenArm? value arms with
    | none => exact Run.Like.pure _
    | some place =>
      refine (execArm_same hr ih _ _).bind fun flow => ?_
      cases flow <;> exact Run.Like.pure _
  | attempt b handlers f range ihb ihh ihf =>
    intro site
    refine (ihb _).outcome.bind fun outcome => (execHandler_same hr ihh _ _).bind fun found => ?_
    cases f with
    | none => exact Run.Like.conclude _
    | some n =>
      refine settle_same hr ((reach_like hr.like _ _ _).bind fun _ => ihf n rfl _) fun flow => ?_
      cases flow <;> rfl
  | guarded kind resource b range ihb =>
    intro site
    refine (reach_like hr.like _ _ _).bind fun _ => (eval_like hr.like hs _ _).bind fun value => ?_
    exact Run.Like.ite (fun _ => Run.Like.ofFault _) fun _ => ihb _
  | label name range =>
    intro site
    exact (reach_like hr.like _ _ _).bind fun _ => Run.Like.pure _
  | nested header root => exact fun _ => Run.Like.pure _
  | probe span =>
    exact fun _ => (Run.Like.onRecord (hr.like.mark _ _)).bind fun _ => Run.Like.pure _
  | acquire =>
    exact fun _ => (Run.Like.onRecord (hr.like.acquire _ _)).bind fun _ => Run.Like.pure _

theorem execUpdate_same (hs : SameSteps R s s') (rounds : Rounds) :
    Same R (execUpdate r.chronicled s frame rounds) (Host.execUpdate r s' frame rounds) := by
  refine (exec?_same (fun n _ => exec_same hr hs n) _).bind fun flow => ?_
  cases flow with
  | normal | continuing =>
    exact (goesOn_like hr.like hs _ _ _).bind fun _ =>
      Run.Like.ite (fun _ => hs.loop _ _) fun _ => Run.Like.pure _
  | breaking | returning | jumping => exact Run.Like.pure _

theorem execRound_same (hs : SameSteps R s s') (rounds : Rounds) :
    Same R (execRound r.chronicled s frame rounds) (Host.execRound r s' frame rounds) := by
  refine (goesOn_like hr.like hs _ _ _).bind fun enters =>
    Run.Like.ite (fun _ => ?_) fun _ => Run.Like.pure _
  refine (exec_same hr hs _ _).bind fun flow => ?_
  cases flow with
  | normal | continuing => exact execUpdate_same hr hs _
  | breaking | returning | jumping => exact Run.Like.pure _

theorem execJump_same (hs : SameSteps R s s') (whole : List Node) (site : Nat) (label : String) :
    Same R (execJump r.chronicled s frame whole site label)
      (Host.execJump r s' frame whole site label) := by
  simp only [execJump, Host.execJump]
  cases fromLabel? label site whole with
  | none => exact Run.Like.pure _
  | some place => exact execAll_same hs _ _ (fun n _ => exec_same hr hs n) _

theorem applyValue_same (hs : SameSteps R s s') (code : Code) (callee : Value) (args : List Value) :
    Same R (applyValue code r.chronicled s callee args)
      (Host.applyValue code r s' callee args) := by
  have fail (error : HostError) :
      Same R (Run.fail r.chronicled error) (Run.fail r error : Run σ Value) :=
    Run.Like.fail error (hr.like.note _)
  simp only [applyValue, Host.applyValue]
  rcases callee? callee with _ | ⟨token, outer⟩
  · exact fail _
  · cases hu : code.units.get? token with
    | none => simpa only [hu] using fail _
    | some u =>
      simp only [hu]
      refine Run.Like.ite (fun _ => fail _) fun _ => ?_
      refine (Run.Like.read fun _ _ h => h.depth).bind fun depth => ?_
      refine Run.Like.ite (fun _ => fail _) fun _ => Run.Like.bind ?_ fun flow =>
        ofFlow_like _ _ fun _ => hr.like.note _
      refine (enter_like _ _ _).bind fun scope => (noteEntry_like hr.like _).bind fun _ => ?_
      refine (exec_same hr hs _ _).outcome.bind fun outcome => ?_
      exact (leave_like _ fun _ => hr.like.note _).bind fun _ => Run.Like.conclude _

/-- **All steps are the same with and without a chronicle.** -/
theorem steps_same (code : Code) (fuel : Nat) :
    SameSteps R (steps code r.chronicled fuel) (Host.steps code r fuel) := by
  induction fuel with
  | zero =>
    exact ⟨fun _ _ => Run.Like.exhausted, fun _ _ => Run.Like.exhausted,
      fun _ _ _ _ => Run.Like.exhausted⟩
  | succ fuel ih =>
    exact ⟨applyValue_same hr ih code, fun _ => execRound_same hr ih, fun _ => execJump_same hr ih⟩

end Same

end Chronicled

/-! ## Calls -/

section Calls

variable {s s' : Session σ} {callee : Value} {args : List Value} {fuel : Nat}
  {result : Except HostError Value}

/-- **A call that ended ends with a chronicle as well**, with the same answer and a record that is
related. -/
theorem Rig.chronicled_run {rig : Rig σ ρ} {R : σ × Chronicle → σ → Prop}
    (hr : Chronicled.Alongside (rig.recorder s.machine) R) (hs : R (s.record, {}) s.record)
    (h : rig.apply s callee args fuel = some (result, s')) :
    ∃ outcome w, rig.chronicledRun s callee args fuel = (some outcome, w) ∧
      result = Machine.answerOf outcome ∧ R w.record s'.record := by
  obtain ⟨outcome, v, hrun, rfl, rfl⟩ := Rig.apply_some h
  have hsame := (Chronicled.steps_same hr s.machine.code (fuel + 1)).call callee args
    ⟨s.heap, s.machine.output, s.machine.depth, (s.record, {})⟩ s.world ⟨rfl, rfl, rfl, hs⟩
  rw [show (steps s.machine.code (rig.recorder s.machine) (fuel + 1)).call callee args s.world =
    (some outcome, v) from hrun] at hsame
  rcases hsame with ⟨hlax, -⟩ | ⟨hends, hlike⟩
  · exact hlax.elim
  · exact ⟨outcome, _, Prod.ext hends rfl, rfl, hlike.record⟩

theorem Rig.chronicled_apply {rig : Rig σ ρ}
    (h : rig.apply s callee args fuel = some (result, s')) :
    ∃ outcome w, rig.chronicledRun s callee args fuel = (some outcome, w) ∧
      result = Machine.answerOf outcome ∧ s'.record = w.record.1 := by
  obtain ⟨outcome, w, hrun, hresult, hrecord⟩ := Rig.chronicled_run (Chronicled.beside _) rfl h
  exact ⟨outcome, w, hrun, hresult, hrecord.symm⟩

/-- The failures that a log holds. -/
def Log.failures (log : Log) : List HostError :=
  log.events.filterMap fun
    | .failed error => some error
    | .entered .. | .left .. | .reached .. => none

/-- A chronicle holds the failures that came to a log behind some others. -/
theorem Chronicled.alongside_log (before : List HostError) :
    Alongside .log fun s t => s.1 = t ∧ t.failures = before ++ s.2.failures where
  like := {
    note := by
      rintro event ⟨log, c⟩ _ ⟨rfl, hfailures⟩
      refine ⟨rfl, ?_⟩
      simp only [Recorder.log, Recorder.chronicled, Log.failures, Log.note,
        List.filterMap_append] at hfailures ⊢
      rw [hfailures]
      cases event <;> simp [Chronicle.note]
    acquire := fun _ _ _ _ h => h
    mark := fun _ _ _ _ h => h }
  clean _ _ _ h := h

/-- **The failures of a call are those that its log has more.** -/
theorem Rig.observed_failures {s s' : Session Log}
    (h : Rig.observed.apply s callee args fuel = some (result, s')) :
    s'.record.failures =
      s.record.failures ++ (Rig.observed.chronicle s callee args fuel).failures := by
  obtain ⟨outcome, w, hrun, -, -, hfailures⟩ := Rig.chronicled_run
    (Chronicled.alongside_log s.record.failures) ⟨rfl, (List.append_nil _).symm⟩ h
  rw [hfailures, Rig.chronicle, hrun]

end Calls

end SpanCoverage.Host
