import SpanCoverage.Host.Eval

/-!
# Properties that runs inherit from their parts

Every run of the host is made of a few kinds of parts: ends, reads, changes of the heap, printed
lines, notes, injected instructions, and activations of units, put together by sequence and by
`try`.  A property of runs is **hereditary** if all of these parts have it and both ways to put runs
together keep it; then every run of every code has it, whatever fuel the run gets.  So a statement
about all runs comes down to the parts, and the activation is the only one that the proof has to
open.

The main results are:

* `Hereditary.eval`, `Hereditary.exec` — expressions and nodes have a hereditary property if calls,
  loops and jumps have it.
* `Hereditary.steps` — calls, loops and jumps have every hereditary property.
-/

namespace SpanCoverage.Host

variable {σ : Type}

/-- A property of runs that all parts of runs have, and that sequences and `try` keep.  A call comes
to the activation of a unit only below the greatest depth. -/
structure Hereditary (maxDepth : Nat) (r : Recorder σ) (P : ∀ {α : Type}, Run σ α → Prop) :
    Prop where
  conclude {α : Type} (o : Except Abort α) : P (Run.conclude o)
  exhausted {α : Type} : P (Run.exhausted (σ := σ) (α := α))
  read {α : Type} (f : World σ → α) : P (Run.read f)
  onHeap {α : Type} (f : Heap → α × Heap) : P (Run.onHeap f)
  print (line : String) : P (Run.print line)
  reached (unit : MethodToken) (site : Nat) (kind : SpanKind) :
    P (Run.onRecord (r.note (.reached unit site kind)))
  failed (error : HostError) : P (Run.onRecord (r.note (.failed error)))
  acquire (unit : MethodToken) (length : Nat) : P (Run.onRecord (r.acquire unit length))
  mark (unit : MethodToken) (span : Nat) : P (Run.onRecord (r.mark unit span))
  bind {α β : Type} {x : Run σ α} {f : α → Run σ β} (hx : P x) (hf : ∀ a, P (f a)) : P (x >>= f)
  outcome {α : Type} {x : Run σ α} (hx : P x) : P x.outcome
  activation {s : Resume σ} {u : LoadedUnit} {refuse : Nat → Run σ Value}
    {answer : Flow → Run σ Value} (hrefuse : ∀ depth, P (refuse depth))
    (hanswer : ∀ flow, P (answer flow)) (body : ∀ frame, P (exec r s frame 0 u.unit.root))
    (outer : Option Scope) (args : List Value) :
    P (Run.read World.depth >>= fun depth =>
      if maxDepth ≤ depth then refuse depth else activate r s u outer args >>= answer)

namespace Hereditary

variable {maxDepth : Nat} {r : Recorder σ} {P : ∀ {α : Type}, Run σ α → Prop} {s : Resume σ}
  {frame : Frame} (h : Hereditary maxDepth r P)

/-- Steps that have a property. -/
structure Steps (P : ∀ {α : Type}, Run σ α → Prop) (s : Resume σ) : Prop where
  call : ∀ callee args, P (s.call callee args)
  loop : ∀ frame rounds, P (s.loop frame rounds)
  jump : ∀ frame whole site label, P (s.jump frame whole site label)

include h

theorem pure {α : Type} (a : α) : P (Pure.pure a : Run σ α) := h.conclude (.ok a)

theorem ofFault {α : Type} (x : Except Fault α) : P (Run.ofFault x : Run σ α) := by
  cases x with
  | ok a => exact h.pure a
  | error fault => exact h.conclude _

theorem fail {α : Type} (error : HostError) : P (Run.fail r error : Run σ α) :=
  h.bind (h.failed error) fun _ => h.conclude _

omit h in
theorem ite {α : Type} {c : Prop} [Decidable c] {x y : Run σ α} (_ : Hereditary maxDepth r P)
    (hx : P x) (hy : P y) : P (if c then x else y) := by
  split
  · exact hx
  · exact hy

theorem reach (frame : Frame) (site : Nat) (kind : SpanKind) :
    P (Host.reach r frame site kind) :=
  h.reached _ _ _

/-! ## Expressions and statements -/

/-- **Expressions have a hereditary property if calls have it.** -/
theorem eval (hs : Steps P s) (e : Expr) : P (Host.eval r s frame e) := by
  induction e using Expr.induct with
  | const | function => exact h.pure _
  | var name =>
    refine h.bind (h.read _) fun value => ?_
    cases value with
    | none => exact h.fail _
    | some value => exact h.pure _
  | unary op e ih => exact h.bind ih fun value => h.ofFault _
  | binary op l r ihl ihr =>
    simp only [Host.eval]
    refine h.bind ihl fun left => h.ite (h.pure _) (h.ite (h.pure _) ?_)
    exact h.bind ihr fun right => h.ite (h.pure _) (h.ofFault _)
  | closure t => exact h.bind (h.onHeap _) fun _ => h.pure _
  | call f args ihf ihargs =>
    simp only [Host.eval]
    refine h.bind ihf fun callee => h.bind ?_ fun values => hs.call callee values
    induction args with
    | nil => exact h.pure _
    | cons e es ih =>
      simp only [List.mem_cons, forall_eq_or_imp] at ihargs
      exact h.bind ihargs.1 fun _ => h.bind (ih ihargs.2) fun _ => h.pure _
  | probed span e ih => exact h.bind (h.mark _ _) fun _ => ih

theorem execStmt (hs : Steps P s) (a : Stmt) : P (Host.execStmt r s frame a) := by
  cases a with
  | assign name e =>
    refine h.bind (h.eval hs e) fun value => h.bind ?_ fun _ => h.pure _
    exact h.onHeap fun heap => ((), heap.assign frame.scope name value)
  | eval e => exact h.bind (h.eval hs e) fun _ => h.pure _
  | print e => exact h.bind (h.eval hs e) fun _ => h.bind (h.print _) fun _ => h.pure _
  | ret e =>
    refine h.bind ?_ fun _ => h.pure _
    cases e with
    | none => exact h.pure _
    | some e => exact h.eval hs e
  | raise e => exact h.bind (h.eval hs e) fun _ => h.conclude _
  | skip | goto | leave | next => exact h.pure _

theorem bindCaught (frame : Frame) (value : Value) (binding : Option String) :
    P (Host.bindCaught frame value binding : Run σ Unit) := by
  cases binding with
  | none => exact h.pure _
  | some name => exact h.onHeap fun heap => ((), heap.define frame.scope name value)

/-! ## Nodes -/

theorem exec? {e : Option Node} (he : ∀ n ∈ e, ∀ site, P (Host.exec r s frame site n))
    (site : Nat) : P (Host.exec? r s frame site e) := by
  cases e with
  | none => exact h.pure _
  | some n => exact he n rfl site

theorem execAll (hs : Steps P s) (whole : List Node) (wholeSite : Nat) {ns : List Node}
    (hns : ∀ n ∈ ns, ∀ site, P (Host.exec r s frame site n)) (site : Nat) :
    P (Host.execAll r s frame whole wholeSite site ns) := by
  induction ns generalizing site with
  | nil => exact h.pure _
  | cons n ns ih =>
    simp only [List.mem_cons, forall_eq_or_imp] at hns
    simp only [Host.execAll]
    refine h.bind (hns.1 site) fun flow => ?_
    cases flow with
    | normal => exact ih hns.2 _
    | jumping label => exact h.ite (hs.jump _ _ _ _) (h.pure _)
    | breaking | continuing | returning => exact h.pure _

theorem execArm {arms : List Arm} (harms : ∀ a ∈ arms, ∀ site, P (Host.exec r s frame site a.body))
    (place site : Nat) : P (Host.execArm r s frame place site arms) := by
  induction arms generalizing place site with
  | nil => exact h.pure _
  | cons a arms ih =>
    obtain ⟨case, body, range⟩ := a
    simp only [List.mem_cons, forall_eq_or_imp] at harms
    cases place with
    | zero => exact h.bind (h.reach _ _ _) fun _ => harms.1 _
    | succ place => exact ih harms.2 _ _

theorem execHandler {handlers : List Handler}
    (hh : ∀ a ∈ handlers, ∀ site, P (Host.exec r s frame site a.body))
    (outcome : Except Abort Flow) (site : Nat) :
    P (Host.execHandler r s frame outcome site handlers) := by
  cases handlers with
  | nil => exact h.pure _
  | cons a handlers =>
    obtain ⟨binding, body, range⟩ := a
    simp only [List.mem_cons, forall_eq_or_imp] at hh
    rcases outcome with (value | error) | flow
    · refine h.outcome (h.bind (h.bindCaught _ _ _) fun _ => ?_)
      exact h.bind (h.reach _ _ _) fun _ => hh.1 _
    · exact h.pure _
    · exact h.pure _

/-- **Nodes have a hereditary property if calls, loops and jumps have it.** -/
theorem exec (hs : Steps P s) (n : Node) : ∀ site, P (Host.exec r s frame site n) := by
  induction n using Node.induct with
  | stmt a range => exact fun site => h.bind (h.reach _ _ _) fun _ => h.execStmt hs a
  | seq ns ih => exact fun site => h.execAll hs _ _ ih _
  | branch c t e range iht ihe =>
    intro site
    refine h.bind (h.reach _ _ _) fun _ => h.bind (h.eval hs c) fun value => ?_
    exact h.ite (iht _) (h.exec? ihe _)
  | loop test i c u b range ihi ihu ihb =>
    intro site
    refine h.bind (h.exec? ihi _) fun flow => ?_
    cases flow with
    | normal => exact hs.loop _ _
    | breaking | continuing | returning | jumping => exact h.pure _
  | switch value arms range ih =>
    intro site
    simp only [Host.exec]
    refine h.bind (h.reach _ _ _) fun _ => h.bind (h.eval hs value) fun v => ?_
    cases chosenArm? v arms with
    | none => exact h.pure _
    | some place =>
      refine h.bind (h.execArm ih _ _) fun flow => ?_
      cases flow <;> exact h.pure _
  | attempt b handlers f range ihb ihh ihf =>
    intro site
    refine h.bind (h.outcome (ihb _)) fun outcome => h.bind (h.execHandler ihh _ _) fun found => ?_
    refine h.bind ?_ fun flow => ?_
    · cases f with
      | none => exact h.pure _
      | some n => exact h.bind (h.reach _ _ _) fun _ => ihf n rfl _
    · cases flow with
      | normal => exact h.conclude _
      | breaking | continuing | returning | jumping => exact h.pure _
  | guarded kind resource b range ihb =>
    intro site
    refine h.bind (h.reach _ _ _) fun _ => h.bind (h.eval hs resource) fun value => ?_
    exact h.ite (h.ofFault _) (ihb _)
  | label name range => exact fun site => h.bind (h.reach _ _ _) fun _ => h.pure _
  | nested header root => exact fun _ => h.pure _
  | probe span => exact fun _ => h.bind (h.mark _ _) fun _ => h.pure _
  | acquire => exact fun _ => h.bind (h.acquire _ _) fun _ => h.pure _

/-! ## Calls, loops and jumps -/

theorem goesOn (hs : Steps P s) (time : TestTime) (rounds : Rounds) :
    P (Host.goesOn r s frame time rounds) := by
  refine h.ite (h.bind (h.reach _ _ _) fun _ => ?_) (h.pure _)
  exact h.bind (h.eval hs _) fun _ => h.pure _

theorem execUpdate (hs : Steps P s) (rounds : Rounds) : P (Host.execUpdate r s frame rounds) := by
  refine h.bind (h.exec? (fun n _ => h.exec hs n) _) fun flow => ?_
  cases flow with
  | normal | continuing =>
    exact h.bind (h.goesOn hs _ _) fun _ => h.ite (hs.loop _ _) (h.pure _)
  | breaking | returning | jumping => exact h.pure _

theorem execRound (hs : Steps P s) (rounds : Rounds) : P (Host.execRound r s frame rounds) := by
  refine h.bind (h.goesOn hs _ _) fun enters => h.ite ?_ (h.pure _)
  refine h.bind (h.exec hs _ _) fun flow => ?_
  cases flow with
  | normal | continuing => exact h.execUpdate hs rounds
  | breaking | returning | jumping => exact h.pure _

theorem execJump (hs : Steps P s) (whole : List Node) (site : Nat) (label : String) :
    P (Host.execJump r s frame whole site label) := by
  simp only [Host.execJump]
  cases fromLabel? label site whole with
  | none => exact h.pure _
  | some place => exact h.execAll hs _ _ (fun n _ => h.exec hs n) _

theorem ofFlow (name : String) (flow : Flow) : P (Host.ofFlow r name flow) := by
  cases flow with
  | normal | returning => exact h.pure _
  | breaking | continuing | jumping => exact h.fail _

omit h in
theorem applyValue {code : Code} (h : Hereditary code.maxDepth r P) (hs : Steps P s)
    (callee : Value) (args : List Value) : P (Host.applyValue code r s callee args) := by
  simp only [Host.applyValue]
  rcases callee? callee with _ | ⟨token, outer⟩
  · exact h.fail _
  · cases hu : code.units.get? token with
    | none =>
      simp only [hu]
      exact h.fail _
    | some u =>
      simp only [hu]
      refine h.ite (h.fail _) ?_
      exact h.activation (fun _ => h.fail _) (h.ofFlow _) (fun _ => h.exec hs _ _) outer args

omit h in
/-- **Calls, loops and jumps have every hereditary property.** -/
theorem steps {code : Code} (h : Hereditary code.maxDepth r P) (fuel : Nat) :
    Steps P (Host.steps code r fuel) := by
  induction fuel with
  | zero => exact ⟨fun _ _ => h.exhausted, fun _ _ => h.exhausted, fun _ _ _ _ => h.exhausted⟩
  | succ fuel ih =>
    exact ⟨h.applyValue ih, fun _ => h.execRound ih, fun _ => h.execJump ih⟩

end Hereditary

end SpanCoverage.Host
