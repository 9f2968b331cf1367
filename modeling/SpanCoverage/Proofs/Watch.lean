import SpanCoverage.Host.Eval
import SpanCoverage.Program.Instructions

/-!
# Watching the record of a run

What a run does to its record is an invariant of the run: it is kept at every moment, also where the
run ends with an exception, and where its fuel is spent in the middle.  A `Watch` names two states
of a record: **clean**, which is what one wants to keep, and **broken**, which is what excuses
everything that comes after it.  `Run.Meets` is the triple of a precondition, a run, and what the
run is to end with, under such a watch.

A precondition says something of the place in the code, such as that the analysis takes it for live.
It is part of the triple and no hypothesis, since behind a broken record it need not hold.

The main results are:

* `Run.Meets.bind`, `Run.Meets.outcome` — triples go through sequences and through `try`.
* `eval_meets` — expressions keep whatever the calls in them keep.
* `execStmt_meets` — so do statements, and they lead where their form says.
-/

namespace SpanCoverage.Host

variable {σ α β : Type}

/-! ## Watches and triples -/

/-- What to look for in a record. -/
structure Watch (σ : Type) where
  clean : σ → Prop
  broken : σ → Prop

namespace Watch

/-- From one record to a later one: a broken record stays broken, and a clean one at a place of
which `pre` holds becomes a clean one at a place of which `post` holds, unless it breaks. -/
def Leads (W : Watch σ) (pre : Prop) (s : σ) (post : Prop) (s' : σ) : Prop :=
  (W.broken s → W.broken s') ∧ (W.clean s → pre → W.broken s' ∨ (W.clean s' ∧ post))

variable {W : Watch σ} {pre mid post : Prop} {s s' s'' : σ}

theorem Leads.refl (h : pre → post) : W.Leads pre s post s :=
  ⟨id, fun hs hpre => .inr ⟨hs, h hpre⟩⟩

theorem Leads.trans (h : W.Leads pre s mid s') (h' : W.Leads mid s' post s'') :
    W.Leads pre s post s'' := by
  refine ⟨fun hb => h'.1 (h.1 hb), fun hs hpre => ?_⟩
  rcases h.2 hs hpre with hb | ⟨hs', hmid⟩
  · exact .inl (h'.1 hb)
  · exact h'.2 hs' hmid

theorem Leads.mono {pre' post' : Prop} (h : W.Leads pre s post s') (hpre : pre' → pre)
    (hpost : post → post') : W.Leads pre' s post' s' :=
  ⟨h.1, fun hs h' => (h.2 hs (hpre h')).imp id fun hs' => ⟨hs'.1, hpost hs'.2⟩⟩

/-- What holds of the place stays true. -/
theorem Leads.frame (P : Prop) (h : W.Leads pre s post s') :
    W.Leads (P ∧ pre) s (P ∧ post) s' :=
  ⟨h.1, fun hs hP => (h.2 hs hP.2).imp id fun hs' => ⟨hs'.1, hP.1, hs'.2⟩⟩

/-- A record that is clean, or broken and so excused. -/
def Kept (W : Watch σ) (s : σ) : Prop := W.broken s ∨ W.clean s

theorem Leads.kept (h : W.Leads True s post s') (hs : W.Kept s) : W.Kept s' := by
  rcases hs with hb | hc
  · exact .inl (h.1 hb)
  · exact (h.2 hc trivial).imp id And.left

/-- A change of the record that matters to nobody. -/
def Ignores (W : Watch σ) (f : σ → σ) : Prop := ∀ s, W.Leads True s True (f s)

end Watch

/-- What a run is to end with; a run whose fuel is spent has not ended yet. -/
def Ending (post : α → Prop) (stop : Abort → Prop) : Option (Except Abort α) → Prop
  | some (.ok a) => post a
  | some (.error e) => stop e
  | none => True

namespace Run

/-- Started at a place of which `pre` holds, the run keeps the watch and ends as it is to end. -/
def Meets (W : Watch σ) (pre : Prop) (x : Run σ α) (post : α → Prop) (stop : Abort → Prop) : Prop :=
  ∀ w, W.Leads pre w.record (Ending post stop (x w).1) (x w).2.record

variable {W : Watch σ} {pre : Prop} {stop : Abort → Prop}

theorem Meets.mono {x : Run σ α} {post post' : α → Prop} (h : Meets W pre x post stop)
    (hpost : ∀ a, post a → post' a) : Meets W pre x post' stop := by
  intro w
  refine (h w).mono id ?_
  rcases (x w).1 with _ | _ | a
  · exact id
  · exact id
  · exact hpost a

theorem Meets.weaken {x : Run σ α} {pre' : Prop} {post : α → Prop} (h : Meets W pre x post stop)
    (hpre : pre' → pre) : Meets W pre' x post stop :=
  fun w => (h w).mono hpre id

/-- What held of the place before a run still holds behind it. -/
theorem Meets.frame {x : Run σ α} {post : α → Prop} (P : Prop) (h : Meets W pre x post stop) :
    Meets W (P ∧ pre) x (fun a => P ∧ post a) stop := by
  intro w
  refine ((h w).frame P).mono id ?_
  rcases (x w).1 with _ | e | a
  · exact fun _ => trivial
  · exact fun h => h.2
  · exact id

/-- A run that needs nothing and promises nothing keeps what held before it. -/
theorem Meets.keep {x : Run σ α} (P : Prop) (h : Meets W True x (fun _ => True) stop) :
    Meets W P x (fun _ => P) stop :=
  ((h.frame P).weaken fun hP => ⟨hP, trivial⟩).mono fun _ hP => hP.1

theorem Meets.conclude {o : Except Abort α} {post : α → Prop}
    (h : pre → Ending post stop (some o)) : Meets W pre (conclude o) post stop :=
  fun _ => .refl h

theorem Meets.pure {a : α} {post : α → Prop} (h : pre → post a) :
    Meets W pre (pure a) post stop :=
  Meets.conclude h

theorem Meets.exhausted {post : α → Prop} : Meets W pre exhausted post stop :=
  fun _ => .refl fun _ => trivial

theorem Meets.bind {x : Run σ α} {f : α → Run σ β} {mid : α → Prop} {post : β → Prop}
    (hx : Meets W pre x mid stop) (hf : ∀ a, Meets W (mid a) (f a) post stop) :
    Meets W pre (x >>= f) post stop := by
  intro w
  rw [bind_apply]
  have hmid := hx w
  generalize x w = p at hmid ⊢
  obtain ⟨o, w'⟩ := p
  rcases o with _ | e | a
  · exact hmid
  · exact hmid
  · exact hmid.trans (hf a w')

theorem Meets.ite {c : Prop} [Decidable c] {x y : Run σ α} {post : α → Prop}
    (hx : c → Meets W pre x post stop) (hy : ¬ c → Meets W pre y post stop) :
    Meets W pre (if c then x else y) post stop := by
  by_cases hc : c
  · rw [if_pos hc]
    exact hx hc
  · rw [if_neg hc]
    exact hy hc

/-- The outcome of a run is as the run was to end. -/
theorem Meets.outcome {x : Run σ α} {post : α → Prop} {stop' : Abort → Prop}
    (h : Meets W pre x post stop) :
    Meets W pre x.outcome (fun o => Ending post stop (some o)) stop' := by
  intro w
  have hx := h w
  unfold Run.outcome
  generalize x w = p at hx ⊢
  obtain ⟨o, w'⟩ := p
  cases o with
  | none => exact hx
  | some o => exact hx

theorem Meets.read (f : World σ → α) : Meets W pre (read f) (fun _ => pre) stop :=
  fun _ => .refl id

theorem Meets.change {f : World σ → World σ} (hf : ∀ w, (f w).record = w.record) :
    Meets W pre (change f) (fun _ => pre) stop := by
  intro w
  show W.Leads pre w.record pre (f w).record
  rw [hf]
  exact .refl id

theorem Meets.onHeap (f : Heap → α × Heap) : Meets W pre (onHeap f) (fun _ => pre) stop :=
  fun _ => .refl id

theorem Meets.onRecord {f : σ → σ} {post : Prop} (h : ∀ s, W.Leads pre s post (f s)) :
    Meets W pre (Run.onRecord f) (fun _ => post) stop :=
  fun w => h w.record

theorem Meets.ignored {f : σ → σ} (h : W.Ignores f) :
    Meets W pre (Run.onRecord f) (fun _ => pre) stop :=
  Meets.keep pre (Meets.onRecord h)

theorem Meets.fail {r : Recorder σ} {error : HostError} {post : α → Prop}
    (h : W.Ignores (r.note (.failed error))) (hstop : stop (.failed error)) :
    Meets W pre (fail r error) post stop :=
  (Meets.ignored h).bind fun _ => Meets.conclude fun _ => hstop

/-- A failure at a place that is never reached. -/
theorem Meets.unreachable {r : Recorder σ} {error : HostError} {post : α → Prop}
    (h : ∀ s, W.broken s → W.broken (r.note (.failed error) s)) :
    Meets W False (Run.fail r error) post stop := by
  have hnote : ∀ s, W.Leads False s False (r.note (.failed error) s) :=
    fun s => ⟨h s, fun _ h => h.elim⟩
  exact (Meets.onRecord hnote).bind fun _ => Meets.conclude False.elim

end Run

/-! ## Expressions and statements -/

/-- A failure other than control that leaves its unit. -/
def HostError.Tame (error : HostError) : Prop :=
  ∀ unit escape, error ≠ .strayControlFlow unit escape

/-- What an injected instruction does in a frame. -/
def Recorder.perform (r : Recorder σ) (frame : Frame) : Instruction → σ → σ
  | .acquire => r.acquire frame.unit frame.payloadLength
  | .mark span => r.mark frame.unit span

/-- What the code between two points relies on: exceptions and failures may stop it, nobody looks at
them, and the calls in it keep whatever held before them. -/
structure Quiet (W : Watch σ) (r : Recorder σ) (s : Resume σ) (stop : Abort → Prop) : Prop where
  thrown : ∀ value, stop (.thrown value)
  failed : ∀ error : HostError, error.Tame → stop (.failed error)
  noted : ∀ error : HostError, error.Tame → W.Ignores (r.note (.failed error))
  call : ∀ callee args, Run.Meets W True (s.call callee args) (fun _ => True) stop

section Quiet

variable {W : Watch σ} {r : Recorder σ} {s : Resume σ} {stop : Abort → Prop}

theorem Quiet.fail (hq : Quiet W r s stop) {P : Prop} {error : HostError} {post : α → Prop}
    (h : error.Tame) : Run.Meets W P (Run.fail r error) post stop :=
  Run.Meets.fail (hq.noted error h) (hq.failed error h)

theorem Quiet.ofFault (hq : Quiet W r s stop) {P : Prop} (x : Except Fault α) :
    Run.Meets W P (Run.ofFault x) (fun _ => P) stop := by
  cases x with
  | ok a => exact Run.Meets.pure id
  | error fault => exact Run.Meets.conclude fun _ => hq.thrown _

/-- **Expressions keep whatever the calls and the marks in them keep.** -/
theorem eval_meets (hq : Quiet W r s stop) (P : Prop) (frame : Frame) (e : Expr)
    (hi : ∀ i ∈ e.instructions, W.Ignores (r.perform frame i)) :
    Run.Meets W P (eval r s frame e) (fun _ => P) stop := by
  induction e using Expr.induct with
  | const c => exact Run.Meets.pure id
  | var name =>
    refine (Run.Meets.read _).bind fun value => ?_
    cases value with
    | none => exact hq.fail fun _ _ => by simp
    | some value => exact Run.Meets.pure id
  | unary op e ih => exact (ih hi).bind fun value => hq.ofFault _
  | binary op l r ihl ihr =>
    simp only [Expr.instructions, List.forall_mem_append] at hi
    simp only [eval]
    refine (ihl hi.1).bind fun left => ?_
    refine Run.Meets.ite (fun _ => Run.Meets.pure id) fun _ => ?_
    refine Run.Meets.ite (fun _ => Run.Meets.pure id) fun _ => ?_
    exact (ihr hi.2).bind fun right =>
      Run.Meets.ite (fun _ => Run.Meets.pure id) fun _ => hq.ofFault _
  | function t => exact Run.Meets.pure id
  | closure t => exact (Run.Meets.onHeap _).bind fun _ => Run.Meets.pure id
  | call f args ihf ihargs =>
    simp only [Expr.instructions, List.forall_mem_append] at hi
    simp only [eval]
    refine (ihf hi.1).bind fun callee => Run.Meets.bind ?_ fun values =>
      (hq.call callee values).keep P
    replace hi := hi.2
    induction args with
    | nil => exact Run.Meets.pure id
    | cons e es ih =>
      simp only [List.mem_cons, forall_eq_or_imp] at ihargs
      simp only [Expr.instructionsAll, List.forall_mem_append] at hi
      exact (ihargs.1 hi.1).bind fun _ => (ih ihargs.2 hi.2).bind fun _ => Run.Meets.pure id
  | probed span e ih =>
    simp only [Expr.instructions, List.forall_mem_cons] at hi
    exact (Run.Meets.ignored hi.1).bind fun _ => ih hi.2

/-- Where control goes behind a statement, if it goes on at all. -/
def LeadsTo : Stmt → Flow → Prop
  | .goto label, flow => flow = .jumping label
  | .leave, flow => flow = .breaking
  | .next, flow => flow = .continuing
  | .ret _, flow => ∃ value, flow = .returning value
  | .raise _, _ => False
  | .assign .., flow | .eval _, flow | .print _, flow | .skip, flow => flow = .normal

/-- **Statements keep whatever the calls and the marks in them keep, and lead where their form
says.** -/
theorem execStmt_meets (hq : Quiet W r s stop) (P : Prop) (frame : Frame) (a : Stmt)
    (hi : ∀ i ∈ a.instructions, W.Ignores (r.perform frame i)) :
    Run.Meets W P (execStmt r s frame a) (fun flow => P ∧ LeadsTo a flow) stop := by
  have value := eval_meets hq P frame
  cases a with
  | assign name e =>
    exact (value e hi).bind fun a => (Run.Meets.change fun _ => rfl).bind fun _ =>
      Run.Meets.pure fun h => ⟨h, rfl⟩
  | eval e => exact (value e hi).bind fun _ => Run.Meets.pure fun h => ⟨h, rfl⟩
  | print e =>
    exact (value e hi).bind fun _ => (Run.Meets.change fun _ => rfl).bind fun _ =>
      Run.Meets.pure fun h => ⟨h, rfl⟩
  | ret e =>
    have orNull : Run.Meets W P (evalOrNull r s frame e) (fun _ => P) stop := by
      cases e with
      | none => exact Run.Meets.pure id
      | some e => exact value e hi
    exact orNull.bind fun v => Run.Meets.pure fun h => ⟨h, v, rfl⟩
  | raise e => exact (value e hi).bind fun _ => Run.Meets.conclude fun _ => hq.thrown _
  | skip | goto | leave | next => exact Run.Meets.pure fun h => ⟨h, rfl⟩

theorem bindCaught_meets (P : Prop) (frame : Frame) (value : Value) (binding : Option String) :
    Run.Meets W P (bindCaught frame value binding) (fun _ => P) stop := by
  cases binding with
  | none => exact Run.Meets.pure id
  | some name => exact Run.Meets.change fun _ => rfl

/-! ## The ends of an activation -/

theorem enter_meets (P : Prop) (u : CodeUnit) (outer : Option Scope) (args : List Value) :
    Run.Meets W P (enter u outer args : Run σ Scope) (fun _ => P) stop := by
  refine (Run.Meets.onHeap _).bind fun scope => ?_
  refine Run.Meets.bind (Run.Meets.change ?_) fun _ => Run.Meets.pure id
  exact fun _ => rfl

theorem leave_meets (P : Prop) {token : MethodToken}
    (h : ∀ depth, W.Ignores (r.note (.left token depth))) :
    Run.Meets W P (leave r token) (fun _ => P) stop := by
  refine Run.Meets.bind (Run.Meets.change ?_) fun _ => ?_
  · exact fun _ => rfl
  · exact (Run.Meets.read _).bind fun depth => Run.Meets.ignored (h depth)

end Quiet

end SpanCoverage.Host
