import SpanCoverage.Proofs.Blocks
import SpanCoverage.Proofs.Likeness
import SpanCoverage.Proofs.WellFormed

/-!
# Spliced code runs like the code it comes from

Splicing puts probes between the parts of a unit's tree, wraps blocks and conditions, and takes out
the boundaries of nested units.  None of this changes what a program sees: the spliced tree runs
like the tree it comes from, in fuel and all.  And the marks of its probes follow the points that
the plain run reaches, one by one.

The statement is for any two recorders and any relation between their records that the pairs of a
note and a mark keep (`Tracks`).  With the relation that always holds it says that probes are
invisible; with a relation between a log and a payload memory it says what the payloads hold.

The main results are:

* `exec_splice_like` — a node and its spliced form run alike.
* `steps_mirror` — so do calls, loops and jumps of a program and of the program spliced.
-/

namespace SpanCoverage.Host

open Injection

variable {σ τ : Type}

/-! ## Records that follow each other -/

/-- A recorder of plain runs and one of spliced runs that keep a relation between their records,
where `place` is the placement of each unit's probes: what the host notes of the spliced run does
not matter, and a point that the plain run reaches in an active unit comes with the mark that the
point's probe makes.  The entry of a unit is no such point, since its probe follows the creation of
the payload. -/
structure Tracks (R : σ → τ → Prop) (active : MethodToken → Prop) (r : Recorder σ)
    (r' : Recorder τ) (place : MethodToken → Placement) : Prop where
  silent : ∀ event s t, R s t → R s (r'.note event t)
  failed : ∀ error s t, R s t → R (r.note (.failed error) s) t
  left : ∀ unit depth s t, R s t → R (r.note (.left unit depth) s) t
  point : ∀ unit site kind s t, active unit → kind ≠ .entry → R s t →
    R (r.note (.reached unit site kind) s) (r'.markAt unit (place unit site kind) t)

/-- The frame of the same activation with a payload of a length. -/
def Frame.sized (frame : Frame) (length : Nat) : Frame := { frame with payloadLength := length }

/-- The rounds of a spliced loop. -/
def Rounds.splice (rounds : Rounds) (place : Placement) : Rounds :=
  { rounds with
    cond := probed (place rounds.site .loopHeader) rounds.cond
    body := asBlock place rounds.bodySite rounds.body
      (Injection.splice place rounds.bodySite rounds.body)
    update := splice? place (rounds.bodySite + rounds.body.siteCount) rounds.update }

/-- The rounds of a loop without injected forms. -/
structure Rounds.Plain (rounds : Rounds) : Prop where
  cond : rounds.cond.hasProbe = false
  body : SpanCoverage.Plain rounds.body
  update : ∀ n ∈ rounds.update, SpanCoverage.Plain n

/-- The children of a sequence without injected forms. -/
def PlainAll (ns : List Node) : Prop := ∀ n ∈ ns, Analysis.labelName? n = none → Plain n

/-- Steps of plain code that are like the steps of the code spliced, where loops and jumps are those
of active units. -/
structure Resume.Mirror (R : σ → τ → Prop) (active : MethodToken → Prop)
    (place : MethodToken → Placement) (s : Resume σ) (s' : Resume τ) : Prop where
  call : ∀ callee args, Run.Like False R (s.call callee args) (s'.call callee args)
  loop : ∀ (frame : Frame) length (rounds : Rounds) site bodySite, active frame.unit →
    rounds.Plain → Run.Like False R (s.loop frame rounds)
      (s'.loop (frame.sized length)
        { rounds.splice (place frame.unit) with site := site, bodySite := bodySite })
  jump : ∀ (frame : Frame) length whole site site' (spans : List Nat) label,
    active frame.unit → PlainAll whole → Run.Like False R (s.jump frame whole site label)
      (s'.jump (frame.sized length)
        (spans.map Node.probe ++ spliceAll (place frame.unit) site whole) site' label)

/-! ## Spliced code -/

section Splicing

variable {R : σ → τ → Prop} {active : MethodToken → Prop} {r : Recorder σ} {r' : Recorder τ}
  {place : MethodToken → Placement} {s : Resume σ} {s' : Resume τ}

/-- A point of the plain run and the probe of the point. -/
theorem Tracks.point_like (ht : Tracks R active r r' place) {frame : Frame}
    (ha : active frame.unit) (length site site' : Nat) {kind : SpanKind} (hk : kind ≠ .entry)
    {α : Type} {x : Run σ α} {y : Run τ α} (h : Run.Like False R x y) :
    Run.Like False R (reach r frame site kind >>= fun _ => x)
      (reach r' (frame.sized length) site' kind >>= fun _ =>
        Run.onRecord (r'.markAt frame.unit (place frame.unit site kind)) >>= fun _ => y) := by
  refine Run.Like.right (ht.silent _) ?_
  exact (Run.Like.onRecord fun _ _ => ht.point _ _ _ _ _ ha hk).bind fun _ => h

theorem Tracks.fail_like (ht : Tracks R active r r' place) {α : Type} (error : HostError) :
    Run.Like False R (Run.fail r error : Run σ α) (Run.fail r' error) :=
  Run.Like.fail error fun _ _ h => ht.silent _ _ _ (ht.failed _ _ _ h)

/-! ### Expressions -/

theorem eval_mirror (ht : Tracks R active r r' place) (hs : s.Mirror R active place s')
    (frame : Frame) (length : Nat) (e : Expr) (he : e.hasProbe = false) :
    Run.Like False R (eval r s frame e) (eval r' s' (frame.sized length) e) := by
  induction e using Expr.induct with
  | const c => exact Run.Like.pure _
  | var name =>
    refine (Run.Like.read fun w v h => by rw [h.heap]; rfl).bind fun value => ?_
    cases value with
    | none => exact ht.fail_like _
    | some value => exact Run.Like.pure _
  | unary op e ih => exact (ih he).bind fun value => Run.Like.ofFault _
  | binary op l r ihl ihr =>
    simp only [Expr.hasProbe, Bool.or_eq_false_iff] at he
    simp only [eval]
    refine (ihl he.1).bind fun left => ?_
    refine Run.Like.ite (fun _ => Run.Like.pure _) fun _ => ?_
    refine Run.Like.ite (fun _ => Run.Like.pure _) fun _ => ?_
    exact (ihr he.2).bind fun right =>
      Run.Like.ite (fun _ => Run.Like.pure _) fun _ => Run.Like.ofFault _
  | function t => exact Run.Like.pure _
  | closure t => exact (Run.Like.onHeap _).bind fun _ => Run.Like.pure _
  | call f args ihf ihargs =>
    simp only [Expr.hasProbe, Bool.or_eq_false_iff] at he
    simp only [eval]
    refine (ihf he.1).bind fun callee => Run.Like.bind ?_ fun values => hs.call callee values
    have hargs := he.2
    clear he
    induction args with
    | nil => exact Run.Like.pure _
    | cons e es ih =>
      simp only [Expr.anyProbe, Bool.or_eq_false_iff] at hargs
      simp only [List.mem_cons, forall_eq_or_imp] at ihargs
      exact (ihargs.1 hargs.1).bind fun _ => (ih ihargs.2 hargs.2).bind fun _ => Run.Like.pure _
  | probed i e ih => cases he

/-- The evaluation of a condition or a resource, with its point on the left and its probe on the
right. -/
theorem evalPoint_mirror (ht : Tracks R active r r' place) (hs : s.Mirror R active place s')
    {frame : Frame} (ha : active frame.unit) (length site site' : Nat) {kind : SpanKind}
    (hk : kind ≠ .entry) {e : Expr} (he : e.hasProbe = false) {α : Type} {k : Value → Run σ α}
    {k' : Value → Run τ α} (h : ∀ value, Run.Like False R (k value) (k' value)) :
    Run.Like False R (reach r frame site kind >>= fun _ => eval r s frame e >>= k)
      (reach r' (frame.sized length) site' kind >>= fun _ =>
        eval r' s' (frame.sized length) (probed (place frame.unit site kind) e) >>= k') := by
  have hbody : Run.Like False R (eval r s frame e >>= k)
      (eval r' s' (frame.sized length) e >>= k') :=
    (eval_mirror ht hs frame length e he).bind h
  have hpoint := ht.point_like ha length site site' hk hbody
  cases hspan : place frame.unit site kind with
  | none => rw [hspan] at hpoint; exact hpoint
  | some span => rw [hspan] at hpoint; exact hpoint

theorem execStmt_mirror (ht : Tracks R active r r' place) (hs : s.Mirror R active place s')
    (frame : Frame) (length : Nat) (a : Stmt) (ha : a.hasProbe = false) :
    Run.Like False R (execStmt r s frame a) (execStmt r' s' (frame.sized length) a) := by
  have value := eval_mirror ht hs frame length
  cases a with
  | assign name e =>
    refine (value e ha).bind fun a => Run.Like.bind (Run.Like.change ?_) fun _ => Run.Like.pure _
    exact fun w v h => ⟨congrArg (·.assign frame.scope name a) h.heap, h.output, h.depth, h.record⟩
  | eval e => exact (value e ha).bind fun _ => Run.Like.pure _
  | print e => exact (value e ha).bind fun _ => (Run.Like.print _).bind fun _ => Run.Like.pure _
  | ret e =>
    refine Run.Like.bind ?_ fun _ => Run.Like.pure _
    cases e with
    | none => exact Run.Like.pure _
    | some e => exact value e ha
  | raise e => exact (value e ha).bind fun _ => Run.Like.throw _
  | skip | goto | leave | next => exact Run.Like.pure _

/-! ### Nodes -/

/-- A node and its spliced form run alike, where the probe in front of the node comes first. -/
def SpliceLike (R : σ → τ → Prop) (r : Recorder σ) (r' : Recorder τ) (s : Resume σ) (s' : Resume τ)
    (frame : Frame) (length : Nat) (place : Placement) (n : Node) : Prop :=
  ∀ site site' spans,
    Run.Like False R (exec r s frame site n)
      (Run.onRecord (r'.markAt frame.unit (lead place site n)) >>= fun _ =>
        execBehind r' s' (frame.sized length) spans site' (splice place site n))

/-- A block runs like the block spliced. -/
theorem SpliceLike.block {frame : Frame} {length : Nat} {p : Placement} {n : Node} (hn : Plain n)
    (h : SpliceLike R r r' s s' frame length p n) (site site' : Nat) :
    Run.Like False R (exec r s frame site n)
      (exec r' s' (frame.sized length) site' (asBlock p site n (splice p site n))) := by
  rw [asBlock_eq_behind]
  obtain ⟨site'', he⟩ := exec_behind r' s' (frame.sized length) (lead p site n).toList site' _
    fun label => (isLabel_splice p site label n).trans (hn.isLabel_eq_false label)
  rw [he]
  exact h site site'' _

/-- A block with a point at its entry runs like the block spliced behind the point's probe. -/
theorem SpliceLike.entered (ht : Tracks R active r r' place) {frame : Frame}
    (ha : active frame.unit) {length : Nat} {n : Node}
    (hn : Plain n) (h : SpliceLike R r r' s s' frame length (place frame.unit) n)
    {kind : SpanKind} (hk : kind ≠ .entry) (site site' site'' : Nat) :
    Run.Like False R (reach r frame site kind >>= fun _ => exec r s frame site n)
      (reach r' (frame.sized length) site' kind >>= fun _ =>
        exec r' s' (frame.sized length) site''
          (behindProbe (place frame.unit site kind)
            (asBlock (place frame.unit) site n (splice (place frame.unit) site n)))) := by
  rw [asBlock_eq_behind, behindProbe_behind]
  obtain ⟨found, he⟩ := exec_behind r' s' (frame.sized length)
    ((place frame.unit site kind).toList ++ (lead (place frame.unit) site n).toList) site'' _
    fun label => (isLabel_splice _ site label n).trans (hn.isLabel_eq_false label)
  rw [he, Recorder.onRecord_markAll_append]
  simp only [bind_assoc]
  exact ht.point_like ha length site site' hk (h site found _)

/-- A child that may be missing runs like the child spliced. -/
theorem exec?_mirror {frame : Frame} {length : Nat} {p : Placement} {e : Option Node}
    (he : ∀ n ∈ e, Plain n) (h : ∀ n ∈ e, SpliceLike R r r' s s' frame length p n)
    (site site' : Nat) :
    Run.Like False R (exec? r s frame site e)
      (exec? r' s' (frame.sized length) site' (splice? p site e)) := by
  cases e with
  | none => exact Run.Like.pure _
  | some n => exact (h n rfl).block (he n rfl) site site'

/-- The rest of a sequence runs like the rest spliced, also with probes at the start of the
sequence. -/
theorem execAll_mirror (ht : Tracks R active r r' place) (hs : s.Mirror R active place s')
    {frame : Frame} (ha : active frame.unit) {length : Nat} {whole ns : List Node}
    (hw : PlainAll whole) (hns : PlainAll ns)
    (h : ∀ n ∈ ns, Plain n → SpliceLike R r r' s s' frame length (place frame.unit) n)
    (wholeSite wholeSite' site site' : Nat) (spans : List Nat) :
    Run.Like False R (execAll r s frame whole wholeSite site ns)
      (execAll r' s' (frame.sized length)
        (spans.map Node.probe ++ spliceAll (place frame.unit) wholeSite whole) wholeSite' site'
        (spliceAll (place frame.unit) site ns)) := by
  induction ns generalizing site site' with
  | nil => exact Run.Like.pure _
  | cons n ns ih =>
    have hns' : PlainAll ns := fun n hn => hns n (List.mem_cons_of_mem _ hn)
    have rest := ih hns' fun n hn => h n (List.mem_cons_of_mem _ hn)
    have probes (span : Option Nat) (site' : Nat) (tail : List Node) :=
      execAll_probes r' s' (frame.sized length)
        (spans.map Node.probe ++ spliceAll (place frame.unit) wholeSite whole) wholeSite' site'
        span.toList tail
    -- A node that is no boundary and no label runs behind its probe, if it has one.
    have child (hn : Plain n) (hc : asChild (place frame.unit) site n
        (splice (place frame.unit) site n) =
          probeNodes (lead (place frame.unit) site n) ++ [splice (place frame.unit) site n]) :
        Run.Like False R (execAll r s frame whole wholeSite site (n :: ns))
          (execAll r' s' (frame.sized length)
            (spans.map Node.probe ++ spliceAll (place frame.unit) wholeSite whole) wholeSite' site'
            (spliceAll (place frame.unit) site (n :: ns))) := by
      rw [spliceAll, hc, probeNodes_eq, List.append_assoc, probes]
      have hnode := h n (List.mem_cons_self) hn site
        (site' + (lead (place frame.unit) site n).toList.length) []
      rw [execBehind_nil] at hnode
      simp only [List.singleton_append, execAll]
      rw [← bind_assoc]
      refine hnode.bind fun flow => ?_
      cases flow with
      | normal => exact rest _ _
      | jumping label =>
        simp only [any_isLabel_probes, any_isLabel_spliceAll]
        exact Run.Like.ite (fun _ => hs.jump _ _ _ _ _ _ _ ha hw) fun _ => Run.Like.pure _
      | breaking | continuing | returning => exact Run.Like.pure _
    cases n with
    | nested header root => exact rest _ _
    | label name range =>
      rw [spliceAll]
      show Run.Like False R (reach r frame site .label >>= fun _ =>
          execAll r s frame whole wholeSite (site + 1) ns)
        (reach r' (frame.sized length) site' .label >>= fun _ =>
          execAll r' s' (frame.sized length) _ wholeSite' (site' + 1)
            (probeNodes (place frame.unit site .label) ++ spliceAll (place frame.unit) _ ns))
      rw [probeNodes_eq, probes]
      exact ht.point_like ha length site site' (by simp) (rest _ _)
    | stmt | seq | branch | loop | switch | attempt | guarded | probe | acquire =>
      exact child (hns _ (List.mem_cons_self) rfl) rfl

/-- The arm at a place runs like the arm spliced. -/
theorem execArm_mirror (ht : Tracks R active r r' place) {frame : Frame} (ha : active frame.unit)
    {length : Nat} {arms : List Arm}
    (harms : ∀ a ∈ arms, Plain a.body)
    (h : ∀ a ∈ arms, SpliceLike R r r' s s' frame length (place frame.unit) a.body)
    (which site site' : Nat) :
    Run.Like False R (execArm r s frame which site arms)
      (execArm r' s' (frame.sized length) which site'
        (spliceArms (place frame.unit) site arms)) := by
  induction arms generalizing which site site' with
  | nil => exact Run.Like.pure _
  | cons a arms ih =>
    obtain ⟨case, body, range⟩ := a
    simp only [List.mem_cons, forall_eq_or_imp] at harms h
    cases which with
    | zero => exact h.1.entered ht ha harms.1 (by simp) site site' site'
    | succ which => exact ih harms.2 h.2 _ _ _

/-- Which arm a switch takes depends on the cases alone. -/
theorem chosenArm?_spliceArms (p : Placement) (site : Nat) (value : Value) (arms : List Arm) :
    chosenArm? value (spliceArms p site arms) = chosenArm? value arms := by
  have find (f : Option Constant → Bool) :
      (spliceArms p site arms).findIdx? (fun arm => f arm.case) =
        arms.findIdx? fun arm => f arm.case := by
    induction arms generalizing site with
    | nil => rfl
    | cons a arms ih =>
      obtain ⟨case, body, range⟩ := a
      simp only [spliceArms, List.findIdx?_cons, ih]
  unfold chosenArm?
  rw [find fun case => case.any fun c => (Value.ofConstant c).same value,
    find fun case => case.isNone]

/-- A handler runs like the handler spliced. -/
theorem execHandler_mirror (ht : Tracks R active r r' place) {frame : Frame}
    (ha : active frame.unit) {length : Nat}
    {handlers : List Handler} (hh : ∀ h ∈ handlers, Plain h.body)
    (h : ∀ h ∈ handlers, SpliceLike R r r' s s' frame length (place frame.unit) h.body)
    (outcome : Except Abort Flow) (site site' : Nat) :
    Run.Like False R (execHandler r s frame outcome site handlers)
      (execHandler r' s' (frame.sized length) outcome site'
        (spliceHandlers (place frame.unit) site handlers)) := by
  cases handlers with
  | nil => exact Run.Like.pure _
  | cons handler handlers =>
    obtain ⟨binding, body, range⟩ := handler
    simp only [List.mem_cons, forall_eq_or_imp] at hh h
    rcases outcome with (value | error) | flow
    · refine Run.Like.outcome ((bindCaught_like frame value binding).bind fun _ => ?_)
      exact h.1.entered ht ha hh.1 (by simp) site site' site'
    · exact Run.Like.pure _
    · exact Run.Like.pure _

/-- A `finally` block runs like the block spliced. -/
theorem execFinally_mirror (ht : Tracks R active r r' place) {frame : Frame}
    (ha : active frame.unit) {length : Nat}
    {e : Option Node} (he : ∀ n ∈ e, Plain n)
    (h : ∀ n ∈ e, SpliceLike R r r' s s' frame length (place frame.unit) n) (site site' : Nat) :
    Run.Like False R (execFinally r s frame site e)
      (execFinally r' s' (frame.sized length) site'
        (spliceFinally (place frame.unit) site e)) := by
  cases e with
  | none => exact Run.Like.pure _
  | some n => exact (h n rfl).entered ht ha (he n rfl) (by simp) site site' site'

/-- **A node and its spliced form run alike.** -/
theorem exec_splice_like (ht : Tracks R active r r' place) (hs : s.Mirror R active place s')
    {frame : Frame} (ha : active frame.unit) (length : Nat) (n : Node) (hn : Plain n) :
    SpliceLike R r r' s s' frame length (place frame.unit) n := by
  induction n using Node.induct with
  | stmt a range =>
    intro site site' spans
    cases hn with
    | stmt hstmt =>
      refine Run.Like.bind (x := reach r frame site .statement) ?_ fun _ =>
        Run.Like.right (ht.silent _) (execStmt_mirror ht hs frame length a hstmt)
      exact Run.Like.onRecord fun _ _ => ht.point _ _ _ _ _ ha (by simp)
  | seq ns ih =>
    intro site site' spans
    cases hn with
    | seq hns => exact execAll_mirror ht hs ha hns hns ih _ _ _ _ spans
  | branch c t e range iht ihe =>
    intro site site' spans
    cases hn with
    | branch hc hplain he =>
      refine evalPoint_mirror ht hs ha length site site' (by simp) hc fun value => ?_
      refine Run.Like.ite (fun _ => (iht hplain).block hplain _ _) fun _ => ?_
      exact exec?_mirror he (fun n hn => ihe n hn (he n hn)) _ _
  | loop test i c u b range ihi ihu ihb =>
    intro site site' spans
    cases hn with
    | loop hc hi hu hb =>
      refine (exec?_mirror hi (fun n hn => ihi n hn (hi n hn)) _ _).bind fun flow => ?_
      cases flow with
      | normal => exact hs.loop frame length ⟨test, c, b, u, site, _⟩ _ _ ha ⟨hc, hb, hu⟩
      | breaking | continuing | returning | jumping => exact Run.Like.pure _
  | switch value arms range ih =>
    intro site site' spans
    cases hn with
    | switch hv harms =>
      refine evalPoint_mirror ht hs ha length site site' (by simp) hv fun value => ?_
      rw [chosenArm?_spliceArms]
      cases chosenArm? value arms with
      | none => exact Run.Like.pure _
      | some which =>
        have inArm := execArm_mirror ht ha harms fun a h => ih a h (harms a h)
        refine (inArm _ _ _).bind fun flow => ?_
        cases flow <;> exact Run.Like.pure _
  | attempt b handlers f range ihb ihh ihf =>
    intro site site' spans
    cases hn with
    | attempt hb hh hf =>
      refine ((ihb hb).block hb _ _).outcome.bind fun outcome => ?_
      refine (execHandler_mirror ht ha hh (fun h hm => ihh h hm (hh h hm)) _ _ _).bind
        fun outcome => ?_
      refine (execFinally_mirror ht ha hf (fun n hn => ihf n hn (hf n hn)) _ _).bind fun flow => ?_
      cases flow with
      | normal => exact Run.Like.conclude _
      | breaking | continuing | returning | jumping => exact Run.Like.pure _
  | guarded kind resource b range ihb =>
    intro site site' spans
    cases hn with
    | guarded he hb =>
      refine evalPoint_mirror ht hs ha length site site' (by simp) he fun value => ?_
      exact Run.Like.ite (fun _ => Run.Like.ofFault _) fun _ => (ihb hb).block hb _ _
  | label name range => cases hn
  | nested header root => exact fun _ _ _ => Run.Like.pure _
  | probe span => cases hn
  | acquire => cases hn

/-! ### Rounds and jumps -/

theorem goesOn_mirror (ht : Tracks R active r r' place) (hs : s.Mirror R active place s')
    {frame : Frame} (ha : active frame.unit) (length : Nat) (time : TestTime) (rounds : Rounds)
    (site bodySite : Nat) (h : rounds.cond.hasProbe = false) :
    Run.Like False R (goesOn r s frame time rounds)
      (goesOn r' s' (frame.sized length) time
        { rounds.splice (place frame.unit) with site := site, bodySite := bodySite }) :=
  Run.Like.ite
    (fun _ => evalPoint_mirror ht hs ha length rounds.site site (by simp) h fun _ =>
      Run.Like.pure _)
    fun _ => Run.Like.pure _

theorem execRound_mirror (ht : Tracks R active r r' place) (hs : s.Mirror R active place s')
    {frame : Frame} (ha : active frame.unit) (length : Nat) (rounds : Rounds) (site bodySite : Nat)
    (h : rounds.Plain) :
    Run.Like False R (execRound r s frame rounds)
      (execRound r' s' (frame.sized length)
        { rounds.splice (place frame.unit) with site := site, bodySite := bodySite }) := by
  have node (n : Node) (hn : Plain n) := exec_splice_like ht hs ha length n hn
  -- What follows the body is the same whether the body ended or a `continue` left it.
  have update : Run.Like False R (execUpdate r s frame rounds)
      (execUpdate r' s' (frame.sized length)
        { rounds.splice (place frame.unit) with site := site, bodySite := bodySite }) := by
    refine (exec?_mirror h.update (fun n hn => node n (h.update n hn)) _ _).bind fun flow => ?_
    cases flow with
    | normal | continuing =>
      refine (goesOn_mirror ht hs ha length .after rounds site bodySite h.cond).bind fun _ => ?_
      exact Run.Like.ite (fun _ => hs.loop _ _ _ _ _ ha h) fun _ => Run.Like.pure _
    | breaking | returning | jumping => exact Run.Like.pure _
  refine (goesOn_mirror ht hs ha length .before rounds site bodySite h.cond).bind fun _ => ?_
  refine Run.Like.ite (fun _ => ?_) fun _ => Run.Like.pure _
  refine ((node _ h.body).block h.body _ _).bind fun flow => ?_
  cases flow with
  | normal | continuing => exact update
  | breaking | returning | jumping => exact Run.Like.pure _

theorem execJump_mirror (ht : Tracks R active r r' place) (hs : s.Mirror R active place s')
    {frame : Frame} (ha : active frame.unit) (length : Nat) (whole : List Node) (site site' : Nat)
    (spans : List Nat) (label : String) (h : PlainAll whole) :
    Run.Like False R (execJump r s frame whole site label)
      (execJump r' s' (frame.sized length)
        (spans.map Node.probe ++ spliceAll (place frame.unit) site whole) site' label) := by
  unfold execJump
  rw [fromLabel?_probes]
  obtain ⟨found, hfound⟩ := fromLabel?_spliceAll (place frame.unit) label site
    (site' + spans.length) whole
  rw [hfound]
  cases hrest : fromLabel? label site whole with
  | none => exact Run.Like.pure _
  | some p =>
    have hplain : PlainAll p.2 := fun n hn => h n (mem_of_fromLabel? hrest n hn)
    exact execAll_mirror ht hs ha h hplain (fun n _ hn => exec_splice_like ht hs ha length n hn)
      _ _ _ _ spans

end Splicing

/-! ## Spliced units -/

/-- The active units while one more is active. -/
def Also (active : MethodToken → Prop) (token : MethodToken) : MethodToken → Prop :=
  fun unit => unit = token ∨ active unit

/-- Recorders that keep a relation for all active units at once: with more units active it says no
less. -/
structure TracksAll (R : (MethodToken → Prop) → σ → τ → Prop) (r : Recorder σ) (r' : Recorder τ)
    (place : MethodToken → Placement) : Prop where
  tracks : ∀ active, Tracks (R active) active r r' place
  back : ∀ active token s t, R (Also active token) s t → R active s t

/-- A plain unit beside the unit that injection made of it.  The entry of the plain unit comes with
the creation of the payload and the mark of the entry's probe, or with nothing where injection was
switched off.  Behind its entry the unit is active. -/
inductive UnitMirror (R : (MethodToken → Prop) → σ → τ → Prop) (r : Recorder σ) (r' : Recorder τ)
    (place : MethodToken → Placement) : LoadedUnit → LoadedUnit → Prop
  | spliced {u : CodeUnit} {length length' : Nat} (plain : Plain u.root)
    (entry : ∀ active depth s t, R active s t →
      R (Also active u.token)
        (r.note (.reached u.token 0 .entry) (r.note (.entered u.token depth) s))
        (r'.markAt u.token (place u.token 0 .entry) (r'.acquire u.token length' t))) :
    UnitMirror R r r' place ⟨u, length⟩
      ⟨{ u with root := spliceRoot (place u.token) u.root }, length'⟩
  | stripped {u : CodeUnit} {length length' : Nat} (plain : Plain u.root)
    (unplaced : place u.token = .none)
    (entry : ∀ active depth s t, R active s t →
      R (Also active u.token)
        (r.note (.reached u.token 0 .entry) (r.note (.entered u.token depth) s)) t) :
    UnitMirror R r r' place ⟨u, length⟩ ⟨{ u with root := stripBoundaries u.root }, length'⟩

/-- Plain code beside the code that injection made of it. -/
structure CodeMirror (R : (MethodToken → Prop) → σ → τ → Prop) (r : Recorder σ) (r' : Recorder τ)
    (place : MethodToken → Placement) (code code' : Code) : Prop where
  maxDepth : code.maxDepth = code'.maxDepth
  units : ∀ token, Option.Rel (UnitMirror R r r' place) (code.units.get? token)
    (code'.units.get? token)

section Units

variable {R : (MethodToken → Prop) → σ → τ → Prop} {active : MethodToken → Prop} {r : Recorder σ}
  {r' : Recorder τ} {place : MethodToken → Placement} {s : Resume σ} {s' : Resume τ}

/-- The entry of a plain unit, and that of the spliced unit with all that it does to its record.
Behind it, the unit is active until its activation ends. -/
theorem noteEntry_mirror (ht : TracksAll R r r' place) {α : Type} {x : Run σ α} {y : Run τ α}
    {f : τ → τ} (frame : Frame) (length : Nat)
    (hf : ∀ depth s t, R active s t →
      R (Also active frame.unit)
        (r.note (.reached frame.unit 0 .entry) (r.note (.entered frame.unit depth) s)) (f t))
    (h : Run.Like False (R (Also active frame.unit)) x y) :
    Run.Like False (R active) (noteEntry r frame >>= fun _ => x)
      (noteEntry r' (frame.sized length) >>= fun _ => Run.onRecord f >>= fun _ => y) := by
  intro w v hw
  have silent := (ht.tracks active).silent
  have hrun := h
    { w with
      record := r.note (.reached frame.unit 0 .entry) (r.note (.entered frame.unit w.depth)
        w.record) }
    { v with
      record := f (r'.note (.reached frame.unit 0 .entry) (r'.note (.entered frame.unit v.depth)
        v.record)) }
    ⟨hw.heap, hw.output, hw.depth, hf _ _ _ (silent _ _ _ (silent _ _ _ hw.record))⟩
  rcases hrun with ⟨hlax, -⟩ | ⟨hends, hlike⟩
  · exact hlax.elim
  · exact .inr ⟨hends, hlike.heap, hlike.output, hlike.depth, ht.back _ _ _ _ hlike.record⟩

/-- A plain unit and the unit that injection made of it run alike. -/
theorem activate_mirror (ht : TracksAll R r r' place)
    (hs : ∀ active, s.Mirror (R active) active place s') {u u' : LoadedUnit}
    (h : UnitMirror R r r' place u u') (outer : Option Scope) (args : List Value) :
    Run.Like False (R active) (activate r s u outer args) (activate r' s' u' outer args) := by
  have leaves (token : MethodToken) (outcome : Except Abort Flow) :
      Run.Like False (R (Also active token)) (leave r token >>= fun _ => Run.conclude outcome)
        (leave r' token >>= fun _ => Run.conclude outcome : Run τ Flow) := by
    have htoken := ht.tracks (Also active token)
    exact (leave_like token fun depth _ _ h => htoken.silent _ _ _ (htoken.left _ _ _ _ h)).bind
      fun _ => Run.Like.conclude _
  cases h with
  | @spliced u length length' plain entry =>
    refine (enter_like u outer args).bind fun scope => ?_
    let frame : Frame := ⟨u.token, scope, length⟩
    obtain ⟨site', hroot⟩ := exec_spliceRoot r' s' (frame.sized length') (place u.token)
      u.root 0 plain.isLabel_eq_false
    have hnode := exec_splice_like (ht.tracks (Also active u.token)) (hs _)
      (.inl rfl : Also active u.token frame.unit) length' u.root plain 0 site' []
    rw [execBehind_nil] at hnode
    show Run.Like False (R active)
      (noteEntry r frame >>= fun _ => Run.outcome (exec r s frame 0 u.root) >>= fun outcome =>
        leave r u.token >>= fun _ => Run.conclude outcome)
      (noteEntry r' (frame.sized length') >>= fun _ =>
        Run.outcome (exec r' s' (frame.sized length') 0 (spliceRoot (place u.token) u.root)) >>=
          fun outcome => leave r' u.token >>= fun _ => Run.conclude outcome)
    rw [hroot]
    exact noteEntry_mirror ht frame length' (entry active) (hnode.outcome.bind (leaves u.token))
  | @stripped u length length' plain unplaced entry =>
    refine (enter_like u outer args).bind fun scope => ?_
    let frame : Frame := ⟨u.token, scope, length⟩
    have hnode := (exec_splice_like (ht.tracks (Also active u.token)) (hs _)
      (.inl rfl : Also active u.token frame.unit) length' u.root plain).block plain 0 0
    rw [show place frame.unit = .none from unplaced] at hnode
    exact noteEntry_mirror (f := id) ht frame length' (entry active)
      (hnode.outcome.bind (leaves u.token))

theorem applyValue_mirror (ht : TracksAll R r r' place)
    (hs : ∀ active, s.Mirror (R active) active place s') {code code' : Code}
    (hc : CodeMirror R r r' place code code') (callee : Value) (args : List Value) :
    Run.Like False (R active) (applyValue code r s callee args)
      (applyValue code' r' s' callee args) := by
  have htracks := ht.tracks active
  simp only [applyValue]
  rcases callee? callee with _ | ⟨token, outer⟩
  · exact htracks.fail_like _
  · have hunits := hc.units token
    dsimp only
    generalize code.units.get? token = u at hunits ⊢
    generalize code'.units.get? token = u' at hunits ⊢
    cases hunits with
    | none => exact htracks.fail_like _
    | @some u u' hu =>
      have hparams : u'.unit.params = u.unit.params := by cases hu <;> rfl
      have hname : u'.unit.name = u.unit.name := by cases hu <;> rfl
      simp only [hparams, hname, ← hc.maxDepth]
      refine Run.Like.ite (fun _ => htracks.fail_like _) fun _ => ?_
      refine (Run.Like.read fun _ _ h => h.depth).bind fun depth => ?_
      refine Run.Like.ite (fun _ => htracks.fail_like _) fun _ => ?_
      exact (activate_mirror ht hs hu outer args).bind fun flow =>
        ofFlow_like _ _ fun _ _ _ h => htracks.silent _ _ _ (htracks.failed _ _ _ h)

/-- **Plain code and the code that injection made of it take the same steps**, with the same fuel:
probes spend none. -/
theorem steps_mirror (ht : TracksAll R r r' place) {code code' : Code}
    (hc : CodeMirror R r r' place code code') (fuel : Nat) :
    ∀ active, (steps code r fuel).Mirror (R active) active place (steps code' r' fuel) := by
  induction fuel with
  | zero =>
    exact fun active => ⟨fun _ _ => Run.Like.exhausted, fun _ _ _ _ _ _ _ => Run.Like.exhausted,
      fun _ _ _ _ _ _ _ _ _ => Run.Like.exhausted⟩
  | succ fuel ih =>
    intro active
    have htracks := ht.tracks active
    exact ⟨applyValue_mirror ht ih hc,
      fun _ length rounds site bodySite ha h =>
        execRound_mirror htracks (ih active) ha length rounds site bodySite h,
      fun _ length whole site site' spans label ha h =>
        execJump_mirror htracks (ih active) ha length whole site site' spans label h⟩

end Units

end SpanCoverage.Host
