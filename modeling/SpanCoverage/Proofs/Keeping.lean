import SpanCoverage.Program.Hollow
import SpanCoverage.Proofs.Splicing
import SpanCoverage.Proofs.Watch

/-!
# Invariants of a record

What a run does to its record comes from the notes of the host and from the injected instructions of
the code.  So an invariant that these keep is kept by every run, wherever the run stops.  Of a unit
that is active its own instructions count, and not those of the units nested in it.

The entry of a unit is the one place where this is not true note by note: a unit that creates its
payload does so right behind its entry, and only both together keep what one wants to know of units
that were entered.  `UnitKeeps` has a case for such units, and one for units without a payload.

The main results are:

* `exec_keeps` — code keeps an invariant that its instructions keep.
* `steps_keep` — calls, loops and jumps keep an invariant that the entries of all units keep.
-/

namespace SpanCoverage.Host

variable {σ α : Type}

/-! ## Runs that keep an invariant -/

/-- The watch for an invariant, which excuses nothing. -/
def Watch.invariant (I : σ → Prop) : Watch σ := ⟨I, fun _ => False⟩

/-- A run that keeps an invariant. -/
abbrev Run.Keeps (I : σ → Prop) (x : Run σ α) : Prop :=
  Run.Meets (.invariant I) True x (fun _ => True) fun _ => True

theorem ending_trivial (o : Option (Except Abort α)) :
    Ending (fun _ => True) (fun _ => True) o := by
  rcases o with _ | _ | _ <;> trivial

theorem Watch.ignores_invariant {I : σ → Prop} {f : σ → σ} :
    (Watch.invariant I).Ignores f ↔ ∀ s, I s → I (f s) := by
  constructor
  · exact fun h s hs => (((h s).2 hs trivial).resolve_left id).1
  · exact fun h s => ⟨id, fun hs _ => .inr ⟨h s hs, trivial⟩⟩

/-- What it means to keep an invariant: it holds wherever the run stops. -/
theorem Run.keeps_iff {I : σ → Prop} {x : Run σ α} :
    x.Keeps I ↔ ∀ w, I w.record → I (x w).2.record := by
  constructor
  · exact fun h w hw => (((h w).2 hw trivial).resolve_left id).1
  · exact fun h w => ⟨id, fun hw _ => .inr ⟨h w hw, ending_trivial _⟩⟩

/-- The outcome of a run is a run that keeps what the run keeps. -/
theorem Run.Keeps.outcome {I : σ → Prop} {x : Run σ α} (h : x.Keeps I) :
    x.outcome.Keeps I :=
  (Run.Meets.outcome h).mono fun _ _ => trivial

/-- An end, whatever it is. -/
theorem Run.Keeps.conclude {I : σ → Prop} (o : Except Abort α) :
    (Run.conclude o : Run σ α).Keeps I :=
  Run.Meets.conclude fun _ => ending_trivial _

theorem Run.Keeps.pure {I : σ → Prop} (a : α) : (pure a : Run σ α).Keeps I :=
  Run.Keeps.conclude (.ok a)

/-! ## Instructions that keep an invariant -/

/-- Instructions of a frame's unit that keep an invariant. -/
def Performs (I : σ → Prop) (r : Recorder σ) (frame : Frame) (is : List Instruction) : Prop :=
  ∀ i ∈ is, (Watch.invariant I).Ignores (r.perform frame i)

theorem Performs.mono {I : σ → Prop} {r : Recorder σ} {frame : Frame} {is is' : List Instruction}
    (h : Performs I r frame is) (hsub : ∀ i ∈ is', i ∈ is) : Performs I r frame is' :=
  fun i hi => h i (hsub i hi)

/-- The instructions of a loop's rounds. -/
def Rounds.instructions (rounds : Rounds) : List Instruction :=
  rounds.cond.instructions ++ rounds.body.ownInstructions ++
    Node.instructions? (Node.hollow? rounds.update)

/-- Steps that keep an invariant, which may depend on the units that are active. -/
structure Resume.Keeps (I : (MethodToken → Prop) → σ → Prop) (r : Recorder σ) (s : Resume σ) :
    Prop where
  call : ∀ active callee args, (s.call callee args).Keeps (I active)
  loop : ∀ active frame rounds, Performs (I active) r frame rounds.instructions →
    (s.loop frame rounds).Keeps (I active)
  jump : ∀ active frame whole site label, Performs (I active) r frame
    (Node.instructionsAll (Node.hollowAll whole)) → (s.jump frame whole site label).Keeps (I active)

/-- A recorder whose notes keep an invariant, but for the entry of a unit.  With more units active
the invariant says no less. -/
structure Recorder.Upholds (I : (MethodToken → Prop) → σ → Prop) (r : Recorder σ) : Prop where
  note : ∀ active event s, (∀ unit depth, event ≠ .entered unit depth) → I active s →
    I active (r.note event s)
  back : ∀ active token s, I (Also active token) s → I active s

section Keeps

variable {I : (MethodToken → Prop) → σ → Prop} {active : MethodToken → Prop} {r : Recorder σ}
  {s : Resume σ}

theorem Recorder.Upholds.ignores (hr : r.Upholds I) (active : MethodToken → Prop) {event : Event}
    (h : ∀ unit depth, event ≠ .entered unit depth) :
    (Watch.invariant (I active)).Ignores (r.note event) :=
  Watch.ignores_invariant.2 fun s => hr.note active event s h

theorem Resume.Keeps.quiet (hr : r.Upholds I) (hs : s.Keeps I r) (active : MethodToken → Prop) :
    Quiet (.invariant (I active)) r s fun _ => True where
  thrown _ := trivial
  failed _ _ := trivial
  noted _ _ := hr.ignores active (by simp)
  call := hs.call active

theorem reach_keeps (hr : r.Upholds I) (frame : Frame) (site : Nat) (kind : SpanKind) :
    (reach r frame site kind).Keeps (I active) :=
  Run.Meets.ignored (hr.ignores active (by simp))

/-! ## Nodes -/

theorem exec?_keeps {frame : Frame} {e : Option Node}
    (h : ∀ n ∈ e, ∀ site, (exec r s frame site n).Keeps (I active)) (site : Nat) :
    (exec? r s frame site e).Keeps (I active) := by
  cases e with
  | none => exact Run.Keeps.pure _
  | some n => exact h n rfl site

theorem execAll_keeps (hs : s.Keeps I r) {frame : Frame} {whole ns : List Node}
    (hwhole : Performs (I active) r frame (Node.instructionsAll (Node.hollowAll whole)))
    (h : ∀ n ∈ ns, ∀ site, (exec r s frame site n).Keeps (I active)) (wholeSite site : Nat) :
    (execAll r s frame whole wholeSite site ns).Keeps (I active) := by
  induction ns generalizing site with
  | nil => exact Run.Keeps.pure _
  | cons n ns ih =>
    simp only [List.mem_cons, forall_eq_or_imp] at h
    simp only [execAll]
    refine (h.1 site).bind fun flow => ?_
    cases flow with
    | normal => exact ih h.2 _
    | jumping label =>
      exact Run.Meets.ite (fun _ => hs.jump active frame whole wholeSite label hwhole)
        fun _ => Run.Keeps.pure _
    | breaking | continuing | returning => exact Run.Keeps.pure _

theorem execArm_keeps (hr : r.Upholds I) {frame : Frame} {arms : List Arm}
    (h : ∀ a ∈ arms, ∀ site, (exec r s frame site a.body).Keeps (I active)) (which site : Nat) :
    (execArm r s frame which site arms).Keeps (I active) := by
  induction arms generalizing which site with
  | nil => exact Run.Keeps.pure _
  | cons a arms ih =>
    obtain ⟨case, body, range⟩ := a
    simp only [List.mem_cons, forall_eq_or_imp] at h
    cases which with
    | zero => exact (reach_keeps hr _ _ _).bind fun _ => h.1 site
    | succ which => exact ih h.2 which _

theorem execHandler_keeps (hr : r.Upholds I) {frame : Frame} {handlers : List Handler}
    (h : ∀ a ∈ handlers, ∀ site, (exec r s frame site a.body).Keeps (I active))
    (outcome : Except Abort Flow) (site : Nat) :
    (execHandler r s frame outcome site handlers).Keeps (I active) := by
  cases handlers with
  | nil => exact Run.Keeps.pure _
  | cons a handlers =>
    obtain ⟨binding, body, range⟩ := a
    simp only [List.mem_cons, forall_eq_or_imp] at h
    rcases outcome with (value | error) | flow
    · refine Run.Keeps.outcome ((bindCaught_meets True frame value binding).bind fun _ => ?_)
      exact (reach_keeps hr _ _ _).bind fun _ => h.1 site
    · exact Run.Keeps.pure _
    · exact Run.Keeps.pure _

/-- **Code keeps an invariant that its instructions keep.** -/
theorem exec_keeps (hr : r.Upholds I) (hs : s.Keeps I r) (frame : Frame) (n : Node) :
    Performs (I active) r frame n.ownInstructions →
      ∀ site, (exec r s frame site n).Keeps (I active) := by
  have hq := hs.quiet hr active
  induction n using Node.induct with
  | stmt a range =>
    intro h site
    exact (reach_keeps hr _ _ _).bind fun _ => (execStmt_meets hq True frame a h).mono
      fun _ _ => trivial
  | seq ns ih =>
    intro h site
    refine execAll_keeps hs h (fun n hn => ih n hn (h.mono fun i hi => ?_)) _ _
    exact Node.mem_instructionsAll_hollowAll.2 ⟨n, hn, hi⟩
  | branch c t e range iht ihe =>
    intro h site
    refine (reach_keeps hr _ _ _).bind fun _ => ?_
    refine (eval_meets hq True frame c (h.mono ?_)).bind fun value => ?_
    · exact fun i hi => by simp [hi]
    refine Run.Meets.ite (fun _ => iht (h.mono ?_) _) fun _ =>
      exec?_keeps (fun n hn => ihe n hn (h.mono ?_)) _
    · exact fun i hi => by simp [hi]
    · intro i hi
      exact List.mem_append_right _ (Node.mem_instructions?_hollow?.2 ⟨n, hn, hi⟩)
  | loop test i c u b range ihi ihu ihb =>
    intro h site
    refine (exec?_keeps (fun n hn => ihi n hn (h.mono ?_)) _).bind fun flow => ?_
    · intro i hi
      exact Node.mem_ownInstructions_loop.2 (.inl (Node.mem_instructions?_hollow?.2 ⟨n, hn, hi⟩))
    cases flow with
    | normal =>
      refine hs.loop active frame _ (h.mono fun i hi => Node.mem_ownInstructions_loop.2 (.inr ?_))
      simpa [Rounds.instructions, or_assoc] using hi
    | breaking | continuing | returning | jumping => exact Run.Keeps.pure _
  | switch value arms range ih =>
    intro h site
    simp only [exec]
    refine (reach_keeps hr _ _ _).bind fun _ => ?_
    refine (eval_meets hq True frame value (h.mono ?_)).bind fun v => ?_
    · exact fun i hi => by simp [hi]
    cases chosenArm? v arms with
    | none => exact Run.Keeps.pure _
    | some which =>
      refine (execArm_keeps hr (fun a ha => ih a ha (h.mono ?_)) which _).bind fun flow => ?_
      · intro i hi
        exact List.mem_append_right _ (Node.mem_instructionsArms_hollowArms.2 ⟨a, ha, hi⟩)
      · cases flow <;> exact Run.Keeps.pure _
  | attempt b handlers f range ihb ihh ihf =>
    intro h site
    have body := ihb (h.mono fun i hi => by simp [hi]) (site + 1)
    have handled : ∀ a ∈ handlers, ∀ site, (exec r s frame site a.body).Keeps (I active) := by
      refine fun a ha => ihh a ha (h.mono fun i hi => ?_)
      simp [Node.mem_instructionsHandlers_hollowHandlers.2 ⟨a, ha, hi⟩]
    have cleanup (site : Nat) : (execFinally r s frame site f).Keeps (I active) := by
      cases f with
      | none => exact Run.Keeps.pure _
      | some n =>
        refine (reach_keeps hr _ _ _).bind fun _ => ihf n rfl (h.mono fun i hi => ?_) _
        exact List.mem_append_right _ (Node.mem_instructions?_hollow?.2 ⟨n, rfl, hi⟩)
    refine body.outcome.bind fun outcome => Run.Meets.weaken ?_ fun _ => trivial
    refine (execHandler_keeps hr handled outcome _).bind fun outcome => ?_
    refine (cleanup _).bind fun flow => ?_
    cases flow with
    | normal => exact Run.Keeps.conclude _
    | breaking | continuing | returning | jumping => exact Run.Keeps.pure _
  | guarded kind resource b range ihb =>
    intro h site
    refine (reach_keeps hr _ _ _).bind fun _ => ?_
    refine (eval_meets hq True frame resource (h.mono ?_)).bind fun value => ?_
    · exact fun i hi => by simp [hi]
    refine Run.Meets.ite (fun _ => Run.Keeps.conclude _) fun _ => ihb (h.mono ?_) _
    exact fun i hi => by simp [hi]
  | label name range => exact fun _ _ => (reach_keeps hr _ _ _).bind fun _ => Run.Keeps.pure _
  | nested header root => exact fun _ _ => Run.Keeps.pure _
  | probe span =>
    intro h site
    exact (Run.Meets.ignored (h _ List.mem_cons_self)).bind fun _ => Run.Keeps.pure _
  | acquire =>
    intro h site
    exact (Run.Meets.ignored (h _ List.mem_cons_self)).bind fun _ => Run.Keeps.pure _

/-! ## Rounds and jumps -/

theorem goesOn_keeps (hr : r.Upholds I) (hs : s.Keeps I r) {frame : Frame} (time : TestTime)
    {rounds : Rounds} (h : Performs (I active) r frame rounds.instructions) :
    (goesOn r s frame time rounds).Keeps (I active) := by
  refine Run.Meets.ite (fun _ => ?_) fun _ => Run.Keeps.pure _
  refine (reach_keeps hr _ _ _).bind fun _ => ?_
  refine (eval_meets (hs.quiet hr active) True frame rounds.cond (h.mono ?_)).bind fun _ =>
    Run.Keeps.pure _
  exact fun i hi => by simp [Rounds.instructions, hi]

theorem execUpdate_keeps (hr : r.Upholds I) (hs : s.Keeps I r) {frame : Frame} {rounds : Rounds}
    (h : Performs (I active) r frame rounds.instructions) :
    (execUpdate r s frame rounds).Keeps (I active) := by
  refine (exec?_keeps (fun n hn => exec_keeps hr hs frame n (h.mono ?_)) _).bind fun flow => ?_
  · intro i hi
    exact List.mem_append_right _ (Node.mem_instructions?_hollow?.2 ⟨n, hn, hi⟩)
  cases flow with
  | normal | continuing =>
    refine (goesOn_keeps hr hs .after h).bind fun _ => ?_
    exact Run.Meets.ite (fun _ => hs.loop active frame rounds h) fun _ => Run.Keeps.pure _
  | breaking | returning | jumping => exact Run.Keeps.pure _

theorem execRound_keeps (hr : r.Upholds I) (hs : s.Keeps I r) {frame : Frame} {rounds : Rounds}
    (h : Performs (I active) r frame rounds.instructions) :
    (execRound r s frame rounds).Keeps (I active) := by
  refine (goesOn_keeps hr hs .before h).bind fun _ => ?_
  refine Run.Meets.ite (fun _ => ?_) fun _ => Run.Keeps.pure _
  refine (exec_keeps hr hs frame rounds.body (h.mono ?_) _).bind fun flow => ?_
  · exact fun i hi => by simp [Rounds.instructions, hi]
  cases flow with
  | normal | continuing => exact execUpdate_keeps hr hs h
  | breaking | returning | jumping => exact Run.Keeps.pure _

theorem execJump_keeps (hr : r.Upholds I) (hs : s.Keeps I r) {frame : Frame} {whole : List Node}
    (site : Nat) (label : String)
    (h : Performs (I active) r frame (Node.instructionsAll (Node.hollowAll whole))) :
    (execJump r s frame whole site label).Keeps (I active) := by
  unfold execJump
  cases hrest : fromLabel? label site whole with
  | none => exact Run.Keeps.pure _
  | some p =>
    refine execAll_keeps hs h (fun n hn => exec_keeps hr hs frame n (h.mono fun i hi => ?_)) _ _
    exact Node.mem_instructionsAll_hollowAll.2 ⟨n, mem_of_fromLabel? hrest n hn, hi⟩

/-! ## Units -/

/-- A unit whose activations keep an invariant: with its entry together with the creation of its
payload right behind it, or with its entry alone. -/
inductive UnitKeeps (I : (MethodToken → Prop) → σ → Prop) (r : Recorder σ) (u : LoadedUnit) : Prop
  | armed {body : List Node} (root : u.unit.root = .seq (.acquire :: body))
    (entry : ∀ active depth s, I active s →
      I (Also active u.unit.token) (r.acquire u.unit.token u.payloadLength
        (r.note (.reached u.unit.token 0 .entry) (r.note (.entered u.unit.token depth) s))))
    (code : ∀ active scope, Performs (I (Also active u.unit.token)) r
      ⟨u.unit.token, scope, u.payloadLength⟩ u.unit.root.ownInstructions)
  | bare (entry : ∀ active depth s, I active s →
      I (Also active u.unit.token)
        (r.note (.reached u.unit.token 0 .entry) (r.note (.entered u.unit.token depth) s)))
    (code : ∀ active scope, Performs (I (Also active u.unit.token)) r
      ⟨u.unit.token, scope, u.payloadLength⟩ u.unit.root.ownInstructions)

/-- Behind its entry, and all that comes with it, a unit is active until its activation ends. -/
theorem noteEntry_keeps (hr : r.Upholds I) {x : Run σ α} {f : σ → σ} (frame : Frame)
    (hf : ∀ depth s, I active s → I (Also active frame.unit)
      (f (r.note (.reached frame.unit 0 .entry) (r.note (.entered frame.unit depth) s))))
    (h : x.Keeps (I (Also active frame.unit))) :
    (noteEntry r frame >>= fun _ => Run.onRecord f >>= fun _ => x).Keeps (I active) := by
  rw [Run.keeps_iff] at h ⊢
  exact fun w hw => hr.back _ _ _ (h _ (hf w.depth w.record hw))

/-- The root of a unit that creates its payload runs the rest behind the creation. -/
theorem exec_acquire (r : Recorder σ) (s : Resume σ) (frame : Frame) (body : List Node) :
    exec r s frame 0 (.seq (.acquire :: body)) =
      Run.onRecord (r.acquire frame.unit frame.payloadLength) >>= fun _ =>
        execAll r s frame (.acquire :: body) 1 2 body := rfl

theorem activate_keeps (hr : r.Upholds I) (hs : s.Keeps I r) {u : LoadedUnit}
    (hu : UnitKeeps I r u) (outer : Option Scope) (args : List Value) :
    (activate r s u outer args).Keeps (I active) := by
  have leaves (outcome : Except Abort Flow) :
      (leave r u.unit.token >>= fun _ => Run.conclude outcome).Keeps
        (I (Also active u.unit.token)) :=
    (leave_meets True fun depth => hr.ignores _ (by simp)).bind fun _ => Run.Keeps.conclude _
  refine (enter_meets True u.unit outer args).bind fun scope => ?_
  let frame : Frame := ⟨u.unit.token, scope, u.payloadLength⟩
  cases hu with
  | @armed body root entry code =>
    have hcode := code active scope
    rw [root] at hcode
    have rest : (execAll r s frame (.acquire :: body) 1 2 body).Keeps
        (I (Also active u.unit.token)) := by
      refine execAll_keeps hs hcode (fun n hn => exec_keeps hr hs frame n ?_) _ _
      refine hcode.mono fun i hi => Node.mem_instructionsAll_hollowAll.2 ?_
      exact ⟨n, List.mem_cons_of_mem _ hn, hi⟩
    show (noteEntry r frame >>= fun _ => Run.outcome (exec r s frame 0 u.unit.root) >>=
      fun outcome => leave r u.unit.token >>= fun _ => Run.conclude outcome).Keeps (I active)
    rw [root, exec_acquire]
    exact noteEntry_keeps hr frame (entry active) (rest.outcome.bind leaves)
  | bare entry code =>
    have rest := exec_keeps hr hs frame u.unit.root (code active scope) 0
    exact noteEntry_keeps (f := id) hr frame (entry active) (rest.outcome.bind leaves)

theorem applyValue_keeps (hr : r.Upholds I) (hs : s.Keeps I r) {code : Code}
    (hc : ∀ token u, code.units.get? token = some u → UnitKeeps I r u) (callee : Value)
    (args : List Value) : (applyValue code r s callee args).Keeps (I active) := by
  have hq := hs.quiet hr active
  simp only [applyValue]
  rcases callee? callee with _ | ⟨token, outer⟩
  · exact hq.fail fun _ _ => by simp
  · dsimp only
    cases hu : code.units.get? token with
    | none => exact hq.fail fun _ _ => by simp
    | some u =>
      refine Run.Meets.ite (fun _ => hq.fail fun _ _ => by simp) fun _ => ?_
      refine (Run.Meets.read _).bind fun depth => ?_
      refine Run.Meets.ite (fun _ => hq.fail fun _ _ => by simp) fun _ => ?_
      refine (activate_keeps hr hs (hc token u hu) outer args).bind fun flow => ?_
      have stray (error : HostError) : (Run.fail r error : Run σ Value).Keeps (I active) :=
        Run.Meets.fail (hr.ignores active (by simp)) trivial
      cases flow with
      | normal | returning => exact Run.Keeps.pure _
      | breaking | continuing | jumping => exact stray _

/-- **Every run keeps an invariant that the entries of all units keep.** -/
theorem steps_keep (hr : r.Upholds I) {code : Code}
    (hc : ∀ token u, code.units.get? token = some u → UnitKeeps I r u) (fuel : Nat) :
    (steps code r fuel).Keeps I r := by
  induction fuel with
  | zero =>
    exact ⟨fun _ _ _ => Run.Meets.exhausted, fun _ _ _ _ => Run.Meets.exhausted,
      fun _ _ _ _ _ _ => Run.Meets.exhausted⟩
  | succ fuel ih =>
    exact ⟨fun _ => applyValue_keeps hr ih hc, fun _ _ _ h => execRound_keeps hr ih h,
      fun _ _ _ site label h => execJump_keeps hr ih site label h⟩

end Keeps

end SpanCoverage.Host
