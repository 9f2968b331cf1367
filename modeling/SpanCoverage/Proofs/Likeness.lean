import SpanCoverage.Host.Eval

/-!
# Runs side by side

Two worlds are **alike** if a program sees the same things in both and their records are related;
two runs are alike if they take alike worlds to alike worlds and end in the same way.  Likeness is
the tool for every statement that compares two runs of the host: each combinator of `Run` keeps it,
so a proof about a piece of code follows the shape of that code.

A comparison can be `lax`: then the run on the left may also spend its fuel, and nothing is said of
that case.

The main results are:

* `Run.Like.bind`, `Run.Like.outcome` — likeness goes through sequences and through `try`.
* `Run.Like.left`, `Run.Like.right` — a record may be written on one side alone, if the relation
  between the records allows it.
* `steps_like` — the same code run by two recorders that keep the records related, the one on the
  left with no more fuel, makes runs that are alike.
-/

namespace SpanCoverage.Host

variable {σ τ α β : Type}

/-- Two worlds that show a program the same things, and whose records are related. -/
structure World.Like (R : σ → τ → Prop) (w : World σ) (v : World τ) : Prop where
  heap : w.heap = v.heap
  output : w.output = v.output
  depth : w.depth = v.depth
  record : R w.record v.record

namespace Run

/-- Two runs that take alike worlds to alike worlds and end in the same way.  If `lax` holds, the
left one may spend its fuel instead. -/
def Like (lax : Prop) (R : σ → τ → Prop) (x : Run σ α) (y : Run τ α) : Prop :=
  ∀ w v, w.Like R v → (lax ∧ (x w).1 = none) ∨ ((x w).1 = (y v).1 ∧ (x w).2.Like R (y v).2)

variable {lax : Prop} {R : σ → τ → Prop}

/-! ## Combinators -/

theorem Like.conclude (o : Except Abort α) :
    Like lax R (conclude o : Run σ α) (conclude o : Run τ α) :=
  fun _ _ h => .inr ⟨rfl, h⟩

theorem Like.pure (a : α) : Like lax R (pure a : Run σ α) (pure a : Run τ α) :=
  Like.conclude (.ok a)

theorem Like.throw (value : Value) :
    Like lax R (throw value : Run σ α) (throw value : Run τ α) :=
  Like.conclude _

theorem Like.ofFault (f : Except Fault α) :
    Like lax R (ofFault f : Run σ α) (ofFault f : Run τ α) := by
  cases f with
  | ok a => exact Like.pure a
  | error fault => exact Like.throw _

theorem Like.exhausted : Like lax R (exhausted : Run σ α) (exhausted : Run τ α) :=
  fun _ _ h => .inr ⟨rfl, h⟩

/-- A run that spends its fuel at once is like any other, in a lax comparison. -/
theorem Like.exhausted_of_lax (h : lax) (y : Run τ α) :
    Like lax R (Run.exhausted : Run σ α) y :=
  fun _ _ _ => .inl ⟨h, rfl⟩

theorem Like.bind {x : Run σ α} {y : Run τ α} {f : α → Run σ β} {g : α → Run τ β}
    (hx : Like lax R x y) (hf : ∀ a, Like lax R (f a) (g a)) :
    Like lax R (x >>= f) (y >>= g) := by
  intro w v h
  rw [bind_apply, bind_apply]
  have hxy := hx w v h
  generalize x w = p at hxy ⊢
  generalize y v = q at hxy ⊢
  obtain ⟨o, w'⟩ := p
  obtain ⟨o', v'⟩ := q
  rcases hxy with ⟨hl, rfl⟩ | ⟨rfl, hlike⟩
  · exact .inl ⟨hl, rfl⟩
  · cases o with
    | none => exact .inr ⟨rfl, hlike⟩
    | some o =>
      cases o with
      | ok a => exact hf a w' v' hlike
      | error u => exact .inr ⟨rfl, hlike⟩

theorem Like.ite {c : Prop} [Decidable c] {x x' : Run σ α} {y y' : Run τ α}
    (h : c → Like lax R x y) (h' : ¬ c → Like lax R x' y') :
    Like lax R (if c then x else x') (if c then y else y') := by
  by_cases hc : c
  · rw [if_pos hc, if_pos hc]
    exact h hc
  · rw [if_neg hc, if_neg hc]
    exact h' hc

theorem Like.outcome {x : Run σ α} {y : Run τ α} (hx : Like lax R x y) :
    Like lax R x.outcome y.outcome := by
  intro w v h
  unfold Run.outcome
  have hxy := hx w v h
  generalize x w = p at hxy ⊢
  generalize y v = q at hxy ⊢
  obtain ⟨o, w'⟩ := p
  obtain ⟨o', v'⟩ := q
  rcases hxy with ⟨hl, rfl⟩ | ⟨rfl, hlike⟩
  · exact .inl ⟨hl, rfl⟩
  · cases o with
    | none => exact .inr ⟨rfl, hlike⟩
    | some o => exact .inr ⟨rfl, hlike⟩

theorem Like.read {f : World σ → α} {g : World τ → α} (h : ∀ w v, w.Like R v → f w = g v) :
    Like lax R (read f) (read g) :=
  fun w v hw => .inr ⟨by simp [Run.read, h w v hw], hw⟩

theorem Like.change {f : World σ → World σ} {g : World τ → World τ}
    (h : ∀ w v, w.Like R v → (f w).Like R (g v)) : Like lax R (change f) (change g) :=
  fun w v hw => .inr ⟨rfl, h w v hw⟩

theorem Like.onHeap (f : Heap → α × Heap) :
    Like lax R (onHeap f : Run σ α) (onHeap f : Run τ α) := by
  intro w v h
  simp only [Run.onHeap]
  exact .inr ⟨by rw [h.heap], by rw [h.heap], h.output, h.depth, h.record⟩

theorem Like.print (line : String) :
    Like lax R (print line : Run σ Unit) (print line : Run τ Unit) :=
  Like.change fun _ _ h => ⟨h.heap, congrArg (·.push line) h.output, h.depth, h.record⟩

theorem Like.onRecord {f : σ → σ} {g : τ → τ} (h : ∀ s t, R s t → R (f s) (g t)) :
    Like lax R (onRecord f) (onRecord g) :=
  Like.change fun _ _ hw => ⟨hw.heap, hw.output, hw.depth, h _ _ hw.record⟩

theorem Like.depth (f : Nat → Nat) :
    Like lax R (Run.change fun w : World σ => { w with depth := f w.depth })
      (Run.change fun v : World τ => { v with depth := f v.depth }) :=
  Like.change fun _ _ h => ⟨h.heap, h.output, congrArg f h.depth, h.record⟩

/-- A record written on the left alone. -/
theorem Like.left {f : σ → σ} {x : Run σ α} {y : Run τ α} (h : ∀ s t, R s t → R (f s) t)
    (hx : Like lax R x y) : Like lax R (Run.onRecord f >>= fun _ => x) y :=
  fun w v hw => hx { w with record := f w.record } v ⟨hw.heap, hw.output, hw.depth, h _ _ hw.record⟩

/-- A record written on the right alone. -/
theorem Like.right {g : τ → τ} {x : Run σ α} {y : Run τ α} (h : ∀ s t, R s t → R s (g t))
    (hx : Like lax R x y) : Like lax R x (Run.onRecord g >>= fun _ => y) :=
  fun w v hw => hx w { v with record := g v.record } ⟨hw.heap, hw.output, hw.depth, h _ _ hw.record⟩

/-- A failure, which only the host notes. -/
theorem Like.fail {r : Recorder σ} {r' : Recorder τ} (error : HostError)
    (h : ∀ s t, R s t → R (r.note (.failed error) s) (r'.note (.failed error) t)) :
    Like lax R (fail r error : Run σ α) (fail r' error : Run τ α) :=
  (Like.onRecord h).bind fun _ => Like.conclude _

end Run

/-! ## The same code, recorded in two ways -/

/-- Two recorders that keep their records related, whatever they are told. -/
structure Recorder.Like (R : σ → τ → Prop) (r : Recorder σ) (r' : Recorder τ) : Prop where
  note : ∀ event s t, R s t → R (r.note event s) (r'.note event t)
  acquire : ∀ unit length s t, R s t → R (r.acquire unit length s) (r'.acquire unit length t)
  mark : ∀ unit span s t, R s t → R (r.mark unit span s) (r'.mark unit span t)

/-- Steps that are alike for the same code. -/
structure Resume.Like (lax : Prop) (R : σ → τ → Prop) (s : Resume σ) (s' : Resume τ) : Prop where
  call : ∀ callee args, Run.Like lax R (s.call callee args) (s'.call callee args)
  loop : ∀ frame rounds, Run.Like lax R (s.loop frame rounds) (s'.loop frame rounds)
  jump : ∀ frame whole site label,
    Run.Like lax R (s.jump frame whole site label) (s'.jump frame whole site label)

section SameCode

variable {lax : Prop} {R : σ → τ → Prop} {r : Recorder σ} {r' : Recorder τ} {s : Resume σ}
  {s' : Resume τ}

theorem reach_like (hr : r.Like R r') (frame : Frame) (site : Nat) (kind : SpanKind) :
    Run.Like lax R (reach r frame site kind) (reach r' frame site kind) :=
  Run.Like.onRecord (hr.note _)

/-! ### Expressions -/

theorem eval_like (hr : r.Like R r') (hs : s.Like lax R s') (frame : Frame) (e : Expr) :
    Run.Like lax R (eval r s frame e) (eval r' s' frame e) := by
  induction e using Expr.induct with
  | const c => exact Run.Like.pure _
  | var name =>
    refine (Run.Like.read fun w v h => by rw [h.heap]).bind fun value => ?_
    cases value with
    | none => exact Run.Like.fail _ (hr.note _)
    | some value => exact Run.Like.pure _
  | unary op e ih => exact ih.bind fun value => Run.Like.ofFault _
  | binary op l r ihl ihr =>
    simp only [eval]
    refine ihl.bind fun left => ?_
    refine Run.Like.ite (fun _ => Run.Like.pure _) fun _ => ?_
    refine Run.Like.ite (fun _ => Run.Like.pure _) fun _ => ?_
    exact ihr.bind fun right =>
      Run.Like.ite (fun _ => Run.Like.pure _) fun _ => Run.Like.ofFault _
  | function t => exact Run.Like.pure _
  | closure t => exact (Run.Like.onHeap _).bind fun _ => Run.Like.pure _
  | call f args ihf ihargs =>
    simp only [eval]
    refine ihf.bind fun callee => Run.Like.bind ?_ fun values => hs.call callee values
    induction args with
    | nil => exact Run.Like.pure _
    | cons e es ih =>
      simp only [List.mem_cons, forall_eq_or_imp] at ihargs
      exact ihargs.1.bind fun _ => (ih ihargs.2).bind fun _ => Run.Like.pure _
  | probed i e ih => exact (Run.Like.onRecord (hr.mark _ _)).bind fun _ => ih

theorem execStmt_like (hr : r.Like R r') (hs : s.Like lax R s') (frame : Frame) (a : Stmt) :
    Run.Like lax R (execStmt r s frame a) (execStmt r' s' frame a) := by
  have value := eval_like hr hs frame
  cases a with
  | assign name e =>
    refine (value e).bind fun a => Run.Like.bind (Run.Like.change ?_) fun _ => Run.Like.pure _
    exact fun w v h => ⟨congrArg (·.assign frame.scope name a) h.heap, h.output, h.depth, h.record⟩
  | eval e => exact (value e).bind fun _ => Run.Like.pure _
  | print e => exact (value e).bind fun _ => (Run.Like.print _).bind fun _ => Run.Like.pure _
  | ret e =>
    refine Run.Like.bind ?_ fun _ => Run.Like.pure _
    cases e with
    | none => exact Run.Like.pure _
    | some e => exact value e
  | raise e => exact (value e).bind fun _ => Run.Like.throw _
  | skip | goto | leave | next => exact Run.Like.pure _

/-! ### Nodes -/

theorem execAll_like (whole : List Node) (wholeSite : Nat) {frame : Frame}
    (hs : s.Like lax R s') {ns : List Node}
    (hns : ∀ n ∈ ns, ∀ site, Run.Like lax R (exec r s frame site n) (exec r' s' frame site n))
    (site : Nat) :
    Run.Like lax R (execAll r s frame whole wholeSite site ns)
      (execAll r' s' frame whole wholeSite site ns) := by
  induction ns generalizing site with
  | nil => exact Run.Like.pure _
  | cons n ns ih =>
    simp only [List.mem_cons, forall_eq_or_imp] at hns
    simp only [execAll]
    refine (hns.1 site).bind fun flow => ?_
    cases flow with
    | normal => exact ih hns.2 _
    | jumping label => exact Run.Like.ite (fun _ => hs.jump _ _ _ _) fun _ => Run.Like.pure _
    | breaking | continuing | returning => exact Run.Like.pure _

theorem execArm_like (hr : r.Like R r') {frame : Frame} {arms : List Arm}
    (harms : ∀ a ∈ arms, ∀ site,
      Run.Like lax R (exec r s frame site a.body) (exec r' s' frame site a.body))
    (place site : Nat) :
    Run.Like lax R (execArm r s frame place site arms) (execArm r' s' frame place site arms) := by
  induction arms generalizing place site with
  | nil => exact Run.Like.pure _
  | cons a arms ih =>
    obtain ⟨case, body, range⟩ := a
    simp only [List.mem_cons, forall_eq_or_imp] at harms
    cases place with
    | zero => exact (reach_like hr _ _ _).bind fun _ => harms.1 _
    | succ place => exact ih harms.2 _ _

theorem bindCaught_like (frame : Frame) (value : Value) (binding : Option String) :
    Run.Like lax R (bindCaught frame value binding) (bindCaught frame value binding) := by
  cases binding with
  | none => exact Run.Like.pure _
  | some name =>
    exact Run.Like.change fun w v h =>
      ⟨congrArg (·.define frame.scope name value) h.heap, h.output, h.depth, h.record⟩

theorem execHandler_like (hr : r.Like R r') {frame : Frame} {handlers : List Handler}
    (hh : ∀ h ∈ handlers, ∀ site,
      Run.Like lax R (exec r s frame site h.body) (exec r' s' frame site h.body))
    (outcome : Except Abort Flow) (site : Nat) :
    Run.Like lax R (execHandler r s frame outcome site handlers)
      (execHandler r' s' frame outcome site handlers) := by
  cases handlers with
  | nil => exact Run.Like.pure _
  | cons h handlers =>
    obtain ⟨binding, body, range⟩ := h
    simp only [List.mem_cons, forall_eq_or_imp] at hh
    rcases outcome with (value | error) | flow
    · exact ((bindCaught_like _ _ _).bind fun _ => (reach_like hr _ _ _).bind fun _ =>
        hh.1 _).outcome
    · exact Run.Like.pure _
    · exact Run.Like.pure _

theorem exec_like (hr : r.Like R r') (hs : s.Like lax R s') (frame : Frame) (n : Node) :
    ∀ site, Run.Like lax R (exec r s frame site n) (exec r' s' frame site n) := by
  have optional {e : Option Node}
      (h : ∀ n ∈ e, ∀ site, Run.Like lax R (exec r s frame site n) (exec r' s' frame site n))
      (site : Nat) : Run.Like lax R (exec? r s frame site e) (exec? r' s' frame site e) := by
    cases e with
    | none => exact Run.Like.pure _
    | some n => exact h n rfl site
  induction n using Node.induct with
  | stmt a range =>
    intro site
    exact (reach_like hr _ _ _).bind fun _ => execStmt_like hr hs _ _
  | seq ns ih =>
    intro site
    exact execAll_like _ _ hs ih _
  | branch c t e range iht ihe =>
    intro site
    refine (reach_like hr _ _ _).bind fun _ => (eval_like hr hs _ _).bind fun value => ?_
    exact Run.Like.ite (fun _ => iht _) fun _ => optional ihe _
  | loop test i c u b range ihi ihu ihb =>
    intro site
    refine (optional ihi _).bind fun flow => ?_
    cases flow with
    | normal => exact hs.loop _ _
    | breaking | continuing | returning | jumping => exact Run.Like.pure _
  | switch value arms range ih =>
    intro site
    simp only [exec]
    refine (reach_like hr _ _ _).bind fun _ => (eval_like hr hs _ _).bind fun value => ?_
    cases chosenArm? value arms with
    | none => exact Run.Like.pure _
    | some place =>
      refine (execArm_like hr ih _ _).bind fun flow => ?_
      cases flow <;> exact Run.Like.pure _
  | attempt b handlers f range ihb ihh ihf =>
    intro site
    refine (ihb _).outcome.bind fun outcome => (execHandler_like hr ihh _ _).bind fun outcome => ?_
    refine Run.Like.bind ?_ fun flow => ?_
    · cases f with
      | none => exact Run.Like.pure _
      | some n => exact (reach_like hr _ _ _).bind fun _ => ihf n rfl _
    · cases flow with
      | normal => exact Run.Like.conclude _
      | breaking | continuing | returning | jumping => exact Run.Like.pure _
  | guarded kind resource b range ihb =>
    intro site
    refine (reach_like hr _ _ _).bind fun _ => (eval_like hr hs _ _).bind fun value => ?_
    exact Run.Like.ite (fun _ => Run.Like.ofFault _) fun _ => ihb _
  | label name range =>
    intro site
    exact (reach_like hr _ _ _).bind fun _ => Run.Like.pure _
  | nested header root => exact fun _ => Run.Like.pure _
  | probe span => exact fun _ => (Run.Like.onRecord (hr.mark _ _)).bind fun _ => Run.Like.pure _
  | acquire => exact fun _ => (Run.Like.onRecord (hr.acquire _ _)).bind fun _ => Run.Like.pure _

theorem exec?_like (hr : r.Like R r') (hs : s.Like lax R s') (frame : Frame) (e : Option Node)
    (site : Nat) : Run.Like lax R (exec? r s frame site e) (exec? r' s' frame site e) := by
  cases e with
  | none => exact Run.Like.pure _
  | some n => exact exec_like hr hs frame n site

/-! ### Rounds, jumps and units -/

theorem holds_like (hr : r.Like R r') (hs : s.Like lax R s') (frame : Frame) (rounds : Rounds) :
    Run.Like lax R (holds r s frame rounds) (holds r' s' frame rounds) :=
  (reach_like hr _ _ _).bind fun _ => (eval_like hr hs _ _).bind fun _ => Run.Like.pure _

theorem goesOn_like (hr : r.Like R r') (hs : s.Like lax R s') (frame : Frame) (time : TestTime)
    (rounds : Rounds) :
    Run.Like lax R (goesOn r s frame time rounds) (goesOn r' s' frame time rounds) :=
  Run.Like.ite (fun _ => holds_like hr hs _ _) fun _ => Run.Like.pure _

theorem execUpdate_like (hr : r.Like R r') (hs : s.Like lax R s') (frame : Frame)
    (rounds : Rounds) :
    Run.Like lax R (execUpdate r s frame rounds) (execUpdate r' s' frame rounds) := by
  refine (exec?_like hr hs _ _ _).bind fun flow => ?_
  cases flow with
  | normal | continuing =>
    exact (goesOn_like hr hs _ _ _).bind fun _ =>
      Run.Like.ite (fun _ => hs.loop _ _) fun _ => Run.Like.pure _
  | breaking | returning | jumping => exact Run.Like.pure _

theorem execRound_like (hr : r.Like R r') (hs : s.Like lax R s') (frame : Frame)
    (rounds : Rounds) :
    Run.Like lax R (execRound r s frame rounds) (execRound r' s' frame rounds) := by
  refine (goesOn_like hr hs _ _ _).bind fun enters => Run.Like.ite (fun _ => ?_) fun _ =>
    Run.Like.pure _
  refine (exec_like hr hs _ _ _).bind fun flow => ?_
  cases flow with
  | normal | continuing => exact execUpdate_like hr hs _ _
  | breaking | returning | jumping => exact Run.Like.pure _

theorem execJump_like (hr : r.Like R r') (hs : s.Like lax R s') (frame : Frame)
    (whole : List Node) (site : Nat) (label : String) :
    Run.Like lax R (execJump r s frame whole site label)
      (execJump r' s' frame whole site label) := by
  simp only [execJump]
  cases fromLabel? label site whole with
  | none => exact Run.Like.pure _
  | some place => exact execAll_like _ _ hs (fun n _ => exec_like hr hs frame n) _

theorem enter_like (u : CodeUnit) (outer : Option Scope) (args : List Value) :
    Run.Like lax R (enter u outer args : Run σ Scope) (enter u outer args : Run τ Scope) :=
  (Run.Like.onHeap _).bind fun _ => (Run.Like.depth (· + 1)).bind fun _ => Run.Like.pure _

theorem leave_like (token : MethodToken)
    (h : ∀ depth s t, R s t → R (r.note (.left token depth) s) (r'.note (.left token depth) t)) :
    Run.Like lax R (leave r token) (leave r' token) :=
  (Run.Like.depth (· - 1)).bind fun _ =>
    (Run.Like.read fun _ _ h => h.depth).bind fun _ => Run.Like.onRecord (h _)

theorem noteEntry_like (hr : r.Like R r') (frame : Frame) :
    Run.Like lax R (noteEntry r frame) (noteEntry r' frame) :=
  (Run.Like.read fun _ _ h => h.depth).bind fun _ =>
    (Run.Like.onRecord (hr.note _)).bind fun _ => reach_like hr _ _ _

theorem activate_like (hr : r.Like R r') (hs : s.Like lax R s') (u : LoadedUnit)
    (outer : Option Scope) (args : List Value) :
    Run.Like lax R (activate r s u outer args) (activate r' s' u outer args) := by
  refine (enter_like _ _ _).bind fun scope => (noteEntry_like hr _).bind fun _ => ?_
  refine (exec_like hr hs _ _ _).outcome.bind fun outcome => ?_
  exact (leave_like _ fun _ => hr.note _).bind fun _ => Run.Like.conclude _

theorem ofFlow_like (name : String) (flow : Flow)
    (h : ∀ error s t, R s t → R (r.note (.failed error) s) (r'.note (.failed error) t)) :
    Run.Like lax R (ofFlow r name flow) (ofFlow r' name flow) := by
  cases flow with
  | normal | returning => exact Run.Like.pure _
  | breaking | continuing | jumping => exact Run.Like.fail _ (h _)

theorem applyValue_like (hr : r.Like R r') (hs : s.Like lax R s') (code : Code) (callee : Value)
    (args : List Value) :
    Run.Like lax R (applyValue code r s callee args) (applyValue code r' s' callee args) := by
  have fail (error : HostError) : Run.Like lax R (Run.fail r error : Run σ Value)
      (Run.fail r' error) := Run.Like.fail error (hr.note _)
  simp only [applyValue]
  rcases callee? callee with _ | ⟨token, outer⟩
  · exact fail _
  · cases hu : code.units.get? token with
    | none => simpa only [hu] using fail _
    | some u =>
      simp only [hu]
      refine Run.Like.ite (fun _ => fail _) fun _ => ?_
      refine (Run.Like.read fun _ _ h => h.depth).bind fun depth => ?_
      refine Run.Like.ite (fun _ => fail _) fun _ => ?_
      exact (activate_like hr hs _ _ _).bind fun flow => ofFlow_like _ _ fun _ => hr.note _

/-- The same code makes runs that are alike, with the same fuel on both sides or, in a lax
comparison, with no more fuel on the left. -/
theorem steps_like (hr : r.Like R r') (code : Code) {m n : Nat} (h : m = n ∨ (lax ∧ m ≤ n)) :
    (steps code r m).Like lax R (steps code r' n) := by
  induction m generalizing n with
  | zero =>
    rcases h with rfl | ⟨hlax, -⟩
    · exact ⟨fun _ _ => Run.Like.exhausted, fun _ _ => Run.Like.exhausted,
        fun _ _ _ _ => Run.Like.exhausted⟩
    · exact ⟨fun _ _ => Run.Like.exhausted_of_lax hlax _,
        fun _ _ => Run.Like.exhausted_of_lax hlax _,
        fun _ _ _ _ => Run.Like.exhausted_of_lax hlax _⟩
  | succ m ih =>
    obtain ⟨n, rfl⟩ : ∃ k, n = k + 1 := ⟨n - 1, by rcases h with h | ⟨-, h⟩ <;> omega⟩
    have hs := ih (n := n) (h.imp (by omega) fun h => ⟨h.1, by omega⟩)
    exact ⟨applyValue_like hr hs code, execRound_like hr hs, execJump_like hr hs⟩

end SameCode

end SpanCoverage.Host
