import SpanCoverage.Proofs.Gates
import SpanCoverage.Proofs.Keeping
import SpanCoverage.Proofs.Loading

/-!
# Runs pass the gates

Whatever a run reaches of a unit since the last flush, it came there through the points that open
the place.  Jumps do not get around them: a jump goes to a label of a sequence that control is in.
What a run comes back to, in a loop or behind a call, it came to in the same activation, so it
passed the same gates before.

`Gated` is the invariant.  It also carries the points that are known to be passed where a run
starts, since what opens a block is passed outside of the block.

The main results are:

* `exec_gated` — code passes the gates of its tree.
* `steps_gated` — so do calls, rounds and jumps.
-/

namespace SpanCoverage

open Analysis Host

/-- The event that a point of the unit is reached. -/
def CodeUnit.event (u : CodeUnit) (key : Nat × SpanKind) : Event := .reached u.token key.1 key.2

/-- All that opens the tree's sites from outside of the tree is among these events. -/
abbrev CodeUnit.GuardedBy (u : CodeUnit) (seen : List Event) (v : Visit) : Prop :=
  u.Guarded (fun key => u.event key ∈ seen) v

namespace Host

open Visit

variable {units : List CodeUnit} {u : CodeUnit} {seen seen' : List Event} {v w : Visit}
  {s : Resume Log} {frame : Frame} {α : Type}

/-! ## The invariant -/

/-- A log that shows these events since the last flush, and with each point also those that open
it. -/
structure Gated (units : List CodeUnit) (seen : List Event) (log : Log) : Prop where
  seen : seen ⊆ log.window
  opened : ∀ u ∈ units, ∀ site kind, .reached u.token site kind ∈ log.window →
    ∀ key, u.Opens key site → u.event key ∈ log.window

theorem Gated.mono {log : Log} (h : Gated units seen log) (hsub : seen' ⊆ seen) :
    Gated units seen' log :=
  ⟨List.Subset.trans hsub h.seen, h.opened⟩

/-- Behind a flush there is nothing that had to be opened. -/
theorem Gated.flushed {log : Log} (h : log.window = []) : Gated units [] log := by
  refine ⟨nofun, fun u _ site kind hmem => ?_⟩
  rw [h] at hmem
  cases hmem

/-- What the host notes besides points has no gates. -/
theorem Gated.note {log : Log} (h : Gated units seen log) {event : Event}
    (hevent : ∀ token site kind, event ≠ .reached token site kind) :
    Gated units seen (log.note event) := by
  refine ⟨List.subset_append_of_subset_left _ h.seen, fun u hu site kind hmem key hkey => ?_⟩
  rcases List.mem_append.1 hmem with hmem | hmem
  · exact List.mem_append_left _ (h.opened u hu site kind hmem key hkey)
  · exact absurd (List.mem_singleton.1 hmem).symm (hevent u.token site kind)

/-- A point may be reached behind all that opens it. -/
theorem Gated.reach (hunits : (units.map (·.token)).Nodup) (hu : u ∈ units) {log : Log}
    (h : Gated units seen log) {key : Nat × SpanKind}
    (hopen : ∀ key', u.Opens key' key.1 → u.event key' ∈ seen ++ [u.event key]) :
    Gated units (seen ++ [u.event key]) (log.note (u.event key)) := by
  have hseen : seen ++ [u.event key] ⊆ (log.note (u.event key)).window :=
    List.append_subset.2 ⟨List.subset_append_of_subset_left _ h.seen, List.subset_append_right _ _⟩
  refine ⟨hseen, fun v hv site kind hmem key' hkey' => ?_⟩
  rcases List.mem_append.1 hmem with hmem | hmem
  · exact List.mem_append_left _ (h.opened v hv site kind hmem key' hkey')
  · obtain ⟨htoken, rfl, rfl⟩ := Event.reached.inj (List.mem_singleton.1 hmem)
    obtain rfl : v = u := List.inj_on_of_nodup_map hunits hv hu htoken
    exact hseen (hopen key' hkey')

/-! ## Runs -/

theorem ignores_gated {event : Event}
    (hevent : ∀ token site kind, event ≠ .reached token site kind) :
    (Watch.invariant (Gated units seen)).Ignores (Log.note event) :=
  Watch.ignores_invariant.2 fun _ h => h.note hevent

/-- The log takes no notice of injected instructions. -/
theorem perform_gated (frame : Frame) (i : Instruction) :
    (Watch.invariant (Gated units seen)).Ignores (Recorder.log.perform frame i) := by
  cases i <;> exact Watch.ignores_invariant.2 fun _ => id

/-- What a run does behind a point may rely on the point. -/
theorem reach_gated (hunits : (units.map (·.token)).Nodup) (hu : u ∈ units)
    (hf : frame.unit = u.token) {site : Nat} {kind : SpanKind}
    (hopen : ∀ key, u.Opens key site → u.event key ∈ seen ++ [u.event (site, kind)])
    {x : Run Log α} (hx : x.Keeps (Gated units (seen ++ [u.event (site, kind)]))) :
    (reach .log frame site kind >>= fun _ => x).Keeps (Gated units seen) := by
  rw [Run.keeps_iff] at hx ⊢
  intro w hw
  refine (hx { w with record := w.record.note (.reached frame.unit site kind) } ?_).mono
    (List.subset_append_left _ _)
  rw [hf]
  exact hw.reach hunits hu hopen

/-- The rounds of a loop that stands where the visit does. -/
structure Rounds.At (rounds : Rounds) (v : Visit) : Prop where
  site : v.site = rounds.site
  node : ∃ init range,
    v.node = .loop rounds.test init rounds.cond rounds.update rounds.body range ∧
      rounds.bodySite = v.site + 1 + Node.siteCount? init

/-- Steps that pass the gates of what they go on with. -/
structure Resume.Gated (units : List CodeUnit) (s : Resume Log) : Prop where
  call : ∀ seen callee args, (s.call callee args).Keeps (Host.Gated units seen)
  loop : ∀ u ∈ units, ∀ frame : Frame, frame.unit = u.token → ∀ seen rounds v,
    Rounds.At rounds v → u.GuardedBy seen v →
      (s.loop frame rounds).Keeps (Host.Gated units seen)
  jump : ∀ u ∈ units, ∀ frame : Frame, frame.unit = u.token → ∀ seen live whole site label,
    (∀ w ∈ ofAll u.entered live site whole, u.GuardedBy seen w) →
      (s.jump frame whole site label).Keeps (Host.Gated units seen)

theorem Resume.Gated.quiet (hs : s.Gated units) (seen : List Event) :
    Quiet (.invariant (Host.Gated units seen)) .log s fun _ => True where
  thrown _ := trivial
  failed _ _ := trivial
  noted _ _ := ignores_gated (by simp)
  call := hs.call seen

theorem eval_gated (hs : s.Gated units) (frame : Frame) (e : Expr) :
    (eval .log s frame e).Keeps (Gated units seen) :=
  (eval_meets (hs.quiet seen) True frame e fun i _ => perform_gated frame i).mono fun _ _ => trivial

/-! ## Nodes -/

/-- A node that, wherever it is guarded, passes its gates. -/
def PassesGates (units : List CodeUnit) (s : Resume Log) (u : CodeUnit) (frame : Frame)
    (n : Node) : Prop :=
  ∀ {seen live site}, u.GuardedBy seen ⟨live, site, n⟩ →
    (exec .log s frame site n).Keeps (Gated units seen)

section Nodes

variable (hunits : (units.map (·.token)).Nodup) (hu : u ∈ units) (hf : frame.unit = u.token)

theorem exec?_gated {e : Option Node} (h : ∀ n ∈ e, PassesGates units s u frame n) {live : Bool}
    {site : Nat} (hg : ∀ w ∈ of? live site e, u.GuardedBy seen w) :
    (exec? .log s frame site e).Keeps (Gated units seen) := by
  cases e with
  | none => exact Run.Keeps.pure _
  | some n => exact h n rfl (hg _ (List.mem_singleton.2 rfl))

include hu hf in
theorem execAll_gated (hs : s.Gated units) {whole : List Node} {start : Bool} {wholeSite : Nat}
    (hw : ∀ w ∈ ofAll u.entered start wholeSite whole, u.GuardedBy seen w) {ns : List Node}
    (h : ∀ n ∈ ns, PassesGates units s u frame n) {live : Bool} {site : Nat}
    (hg : ∀ w ∈ ofAll u.entered live site ns, u.GuardedBy seen w) :
    (execAll .log s frame whole wholeSite site ns).Keeps (Gated units seen) := by
  induction ns generalizing live site with
  | nil => exact Run.Keeps.pure _
  | cons n ns ih =>
    simp only [List.mem_cons, forall_eq_or_imp] at h
    rw [ofAll, List.forall_mem_cons] at hg
    simp only [execAll]
    refine (h.1 hg.1).bind fun flow => ?_
    cases flow with
    | normal => exact ih h.2 hg.2
    | jumping label =>
      exact Run.Meets.ite (fun _ => hs.jump u hu frame hf seen start whole wholeSite label hw)
        fun _ => Run.Keeps.pure _
    | breaking | continuing | returning => exact Run.Keeps.pure _

include hunits hu hf

theorem execArm_gated {arms : List Arm} (h : ∀ a ∈ arms, PassesGates units s u frame a.body)
    {live : Bool} {site : Nat}
    (hg : ∀ w ∈ ofArms live site arms,
      u.GuardedBy (seen ++ [u.event (w.site, .switchArm)]) w) (place : Nat) :
    (execArm .log s frame place site arms).Keeps (Gated units seen) := by
  induction arms generalizing place site with
  | nil => exact Run.Keeps.pure _
  | cons a arms ih =>
    obtain ⟨case, body, range⟩ := a
    simp only [List.mem_cons, forall_eq_or_imp] at h
    rw [ofArms, List.forall_mem_cons] at hg
    cases place with
    | zero => exact reach_gated hunits hu hf hg.1.own (h.1 hg.1)
    | succ place => exact ih h.2 hg.2 place

theorem execHandler_gated {handlers : List Handler}
    (h : ∀ a ∈ handlers, PassesGates units s u frame a.body) {live : Bool} {site : Nat}
    (hg : ∀ w ∈ ofHandlers live site handlers,
      u.GuardedBy (seen ++ [u.event (w.site, .catchEntry)]) w) (outcome : Except Abort Flow) :
    (execHandler .log s frame outcome site handlers).Keeps (Gated units seen) := by
  cases handlers with
  | nil => exact Run.Keeps.pure _
  | cons a handlers =>
    obtain ⟨binding, body, range⟩ := a
    simp only [List.mem_cons, forall_eq_or_imp] at h
    rw [ofHandlers, List.forall_mem_cons] at hg
    rcases outcome with (value | error) | flow
    · refine Run.Keeps.outcome ((bindCaught_meets True frame value binding).bind fun _ => ?_)
      exact reach_gated hunits hu hf hg.1.own (h.1 hg.1)
    · exact Run.Keeps.pure _
    · exact Run.Keeps.pure _

theorem execFinally_gated {f : Option Node} (h : ∀ n ∈ f, PassesGates units s u frame n)
    {live : Bool} {site : Nat}
    (hg : ∀ w ∈ of? live site f, u.GuardedBy (seen ++ [u.event (w.site, .finallyEntry)]) w) :
    (execFinally .log s frame site f).Keeps (Gated units seen) := by
  cases f with
  | none => exact Run.Keeps.pure _
  | some n =>
    have hn := hg _ (List.mem_singleton.2 rfl)
    exact reach_gated hunits hu hf hn.own (h n rfl hn)

/-- **Code passes the gates of its tree.** -/
theorem exec_gated (hs : s.Gated units) (n : Node) : PassesGates units s u frame n := by
  -- A part is guarded by the points of its gate, which are reached on the way.
  have part {seen seen' : List Event} {v w : Visit} (hv : u.GuardedBy seen v)
      (hw : w ∈ v.parts u.entered)
      (hseen : seen ++ (v.node.gate v.site w.site).map u.event ⊆ seen') : u.GuardedBy seen' w := by
    refine hv.part hw fun key hkey => hseen ?_
    exact List.mem_append.2 (hkey.imp id List.mem_map_of_mem)
  have own {seen : List Event} {v : Visit} (hv : u.GuardedBy seen v) (kind : SpanKind) :
      ∀ key, u.Opens key v.site → u.event key ∈ seen ++ [u.event (v.site, kind)] :=
    fun key hkey => List.mem_append_left _ (hv.own key hkey)
  induction n using Node.induct with
  | stmt a range =>
    intro seen live site hg
    refine reach_gated hunits hu hf (own hg .statement) ?_
    exact (execStmt_meets (hs.quiet _) True frame a fun i _ => perform_gated frame i).mono
      fun _ _ => trivial
  | seq ns ih =>
    intro seen live site hg
    have children : ∀ w ∈ ofAll u.entered live (site + 1) ns, u.GuardedBy seen w :=
      fun w hw => part hg hw (by simp [Node.gate])
    exact execAll_gated hu hf hs children ih children
  | branch c t e range iht ihe =>
    intro seen live site hg
    refine reach_gated hunits hu hf (own hg .condition) ?_
    refine (eval_gated hs frame c).bind fun value => Run.Meets.ite (fun _ => ?_) fun _ => ?_
    · exact iht (part hg List.mem_cons_self (by simp [Node.gate]))
    · exact exec?_gated ihe fun w hw =>
        part hg (List.mem_cons_of_mem _ hw) (by simp [Node.gate])
  | loop test i c u' b range ihi ihu ihb =>
    intro seen live site hg
    have init : ∀ w ∈ of? live (site + 1) i, u.GuardedBy seen w :=
      fun w hw => part hg (List.mem_append_left _ hw) (by simp [gate_init hw])
    refine (exec?_gated ihi init).bind fun flow => ?_
    cases flow with
    | normal => exact hs.loop u hu frame hf seen _ _ ⟨rfl, i, range, rfl, rfl⟩ hg
    | breaking | continuing | returning | jumping => exact Run.Keeps.pure _
  | switch value arms range ih =>
    intro seen live site hg
    simp only [exec]
    refine reach_gated hunits hu hf (own hg .condition) ?_
    refine (eval_gated hs frame value).bind fun v => ?_
    cases chosenArm? v arms with
    | none => exact Run.Keeps.pure _
    | some place =>
      refine (execArm_gated hunits hu hf ih (fun w hw => part hg hw ?_) place).bind fun flow => ?_
      · simp [Node.gate]
      · cases flow <;> exact Run.Keeps.pure _
  | attempt b handlers f range ihb ihh ihf =>
    intro seen live site hg
    have body : u.GuardedBy seen ⟨live, site + 1, b⟩ :=
      part hg (List.mem_append_left _ List.mem_cons_self) (by simp [gate_tried])
    have handled : ∀ w ∈ ofHandlers live (site + 1 + b.siteCount) handlers,
        u.GuardedBy (seen ++ [u.event (w.site, .catchEntry)]) w := fun w hw =>
      part hg (List.mem_append_left _ (List.mem_cons_of_mem _ hw)) (by simp [gate_handler hw])
    have cleanup : ∀ w ∈ of? live (site + 1 + b.siteCount + Node.siteCountHandlers handlers) f,
        u.GuardedBy (seen ++ [u.event (w.site, .finallyEntry)]) w := fun w hw =>
      part hg (List.mem_append_right _ hw) (by simp [gate_finally hw])
    refine (Run.Keeps.outcome (ihb body)).bind fun outcome => ?_
    refine (execHandler_gated hunits hu hf ihh handled outcome).bind fun outcome => ?_
    refine (execFinally_gated hunits hu hf ihf cleanup).bind fun flow => ?_
    cases flow with
    | normal => exact Run.Keeps.conclude _
    | breaking | continuing | returning | jumping => exact Run.Keeps.pure _
  | guarded kind resource b range ihb =>
    intro seen live site hg
    refine reach_gated hunits hu hf (own hg .scopeAcquire) ?_
    refine (eval_gated hs frame resource).bind fun value => ?_
    refine Run.Meets.ite (fun _ => Run.Keeps.conclude _) fun _ => ?_
    exact ihb (part hg List.mem_cons_self (by simp [Node.gate]))
  | label name range =>
    exact fun hg => reach_gated hunits hu hf (own hg .label) (Run.Keeps.pure _)
  | nested header root => exact fun _ => Run.Keeps.pure _
  | probe span =>
    exact fun _ => (Run.Meets.ignored (perform_gated frame (.mark span))).bind fun _ =>
      Run.Keeps.pure _
  | acquire =>
    exact fun _ => (Run.Meets.ignored (perform_gated frame .acquire)).bind fun _ =>
      Run.Keeps.pure _

/-! ## Rounds and jumps -/

omit hunits hu hf in
/-- The rounds of a loop are guarded behind its header, if the loop tests first. -/
theorem Rounds.At.guarded {rounds : Rounds} (hat : rounds.At v) (hg : u.GuardedBy seen v)
    (hheader : rounds.test = .before → u.event (rounds.site, .loopHeader) ∈ seen) :
    ∃ inBody inUpdate, u.GuardedBy seen ⟨inBody, rounds.bodySite, rounds.body⟩ ∧
      ∀ w ∈ of? inUpdate (rounds.bodySite + rounds.body.siteCount) rounds.update,
        u.GuardedBy seen w := by
  obtain ⟨test, c, b, u', site, bodySite⟩ := rounds
  obtain ⟨live, vsite, n⟩ := v
  obtain ⟨hsite, i, range, hnode, hbodySite⟩ := hat
  dsimp only at hsite hnode hbodySite hheader ⊢
  subst hsite hnode hbodySite
  have part {w : Visit} (hw : w ∈ Visit.parts u.entered ⟨live, vsite, .loop test i c u' b range⟩) :
      u.GuardedBy seen w := by
    refine hg.part hw fun key hkey => hkey.elim id fun hkey => ?_
    cases test with
    | after => cases hkey
    | before =>
      simp only [Node.gate] at hkey
      split at hkey
      · cases hkey
      · obtain rfl := List.mem_singleton.1 hkey
        exact hheader rfl
  exact ⟨_, _, part (List.mem_append_right _ List.mem_cons_self),
    fun w hw => part (List.mem_append_right _ (List.mem_cons_of_mem _ hw))⟩

/-- The test of a loop's condition reaches the header, if it is time to test. -/
theorem goesOn_gated (hs : s.Gated units) {rounds : Rounds} (hat : rounds.At v)
    (hg : u.GuardedBy seen v) {time : TestTime} {f : Bool → Run Log α}
    (htest : rounds.test = time →
      ∀ again, (f again).Keeps (Gated units (seen ++ [u.event (rounds.site, .loopHeader)])))
    (hskip : rounds.test ≠ time → (f true).Keeps (Gated units seen)) :
    (goesOn .log s frame time rounds >>= f).Keeps (Gated units seen) := by
  unfold goesOn holds
  by_cases htime : rounds.test = time
  · rw [if_pos htime, bind_assoc]
    refine reach_gated hunits hu hf (fun key hkey => ?_) ?_
    · exact List.mem_append_left _ (hg.own key (hat.site ▸ hkey))
    · rw [bind_assoc]
      exact (eval_gated hs frame rounds.cond).bind fun value => htest htime value.truth
  · rw [if_neg htime]
    exact hskip htime

theorem execUpdate_gated (hs : s.Gated units) {rounds : Rounds} (hat : rounds.At v)
    (hg : u.GuardedBy seen v)
    (hheader : rounds.test = .before → u.event (rounds.site, .loopHeader) ∈ seen) :
    (execUpdate .log s frame rounds).Keeps (Gated units seen) := by
  obtain ⟨-, inUpdate, -, hupdate⟩ := hat.guarded hg hheader
  have again (seen' : List Event) (hsub : seen ⊆ seen') :
      (s.loop frame rounds).Keeps (Gated units seen') :=
    hs.loop u hu frame hf seen' rounds v hat (hg.mono fun _ hkey => hsub hkey)
  refine (exec?_gated (fun n _ => exec_gated hunits hu hf hs n) hupdate).bind fun flow => ?_
  cases flow with
  | normal | continuing =>
    refine goesOn_gated hunits hu hf hs hat hg (fun _ _ => ?_) fun _ => ?_
    · exact Run.Meets.ite (fun _ => again _ (List.subset_append_left _ _)) fun _ => Run.Keeps.pure _
    · exact Run.Meets.ite (fun _ => again _ (List.Subset.refl _)) fun _ => Run.Keeps.pure _
  | breaking | returning | jumping => exact Run.Keeps.pure _

/-- The body of a round, with the update behind it or the end of the loop. -/
theorem execBody_gated (hs : s.Gated units) {rounds : Rounds} (hat : rounds.At v)
    (hg : u.GuardedBy seen v)
    (hheader : rounds.test = .before → u.event (rounds.site, .loopHeader) ∈ seen)
    {next : Flow → Run Log Flow}
    (hnext : ∀ flow, next flow = execUpdate .log s frame rounds ∨ ∃ way, next flow = pure way) :
    (exec .log s frame rounds.bodySite rounds.body >>= next).Keeps (Gated units seen) := by
  obtain ⟨inBody, -, hbody, -⟩ := hat.guarded hg hheader
  refine (exec_gated hunits hu hf hs rounds.body hbody).bind fun flow => ?_
  rcases hnext flow with hupdate | ⟨way, hway⟩
  · rw [hupdate]
    exact execUpdate_gated hunits hu hf hs hat hg hheader
  · rw [hway]
    exact Run.Keeps.pure _

theorem execRound_gated (hs : s.Gated units) {rounds : Rounds} (hat : rounds.At v)
    (hg : u.GuardedBy seen v) : (execRound .log s frame rounds).Keeps (Gated units seen) := by
  refine goesOn_gated hunits hu hf hs hat hg (fun _ again => ?_) fun hafter => ?_
  · refine Run.Meets.ite (fun _ => ?_) fun _ => Run.Keeps.pure _
    refine execBody_gated hunits hu hf hs hat
      (hg.mono fun _ hkey => List.mem_append_left _ hkey)
      (fun _ => List.mem_append_right _ (List.mem_singleton_self _)) fun flow => ?_
    cases flow <;> simp
  · refine Run.Meets.ite (fun _ => ?_) fun _ => Run.Keeps.pure _
    refine execBody_gated hunits hu hf hs hat hg (fun hbefore => absurd hbefore hafter)
      fun flow => ?_
    cases flow <;> simp

omit hunits hu hf in
/-- A sequence from a label on is part of the sequence. -/
theorem ofAll_fromLabel? {entered : List String} {label : String} {ns : List Node} {live : Bool}
    {site : Nat} {p : Nat × List Node} (h : fromLabel? label site ns = some p) :
    ∃ start, ofAll entered start p.1 p.2 ⊆ ofAll entered live site ns := by
  induction ns generalizing live site with
  | nil => cases h
  | cons n ns ih =>
    rw [fromLabel?] at h
    split at h
    · cases h
      exact ⟨live, List.Subset.refl _⟩
    · obtain ⟨start, hsub⟩ := ih h
      exact ⟨start, List.subset_cons_of_subset _ hsub⟩

theorem execJump_gated (hs : s.Gated units) {live : Bool} {whole : List Node} {site : Nat}
    (hg : ∀ w ∈ ofAll u.entered live site whole, u.GuardedBy seen w) (label : String) :
    (execJump .log s frame whole site label).Keeps (Gated units seen) := by
  unfold execJump
  cases hfrom : fromLabel? label site whole with
  | none => exact Run.Keeps.pure _
  | some p =>
    obtain ⟨start, hsub⟩ := ofAll_fromLabel? hfrom
    exact execAll_gated hu hf hs hg (fun n _ => exec_gated hunits hu hf hs n)
      fun w hw => hg w (hsub hw)

end Nodes

/-! ## Units -/

section Units

variable (hunits : (units.map (·.token)).Nodup)

include hunits

theorem activate_gated (hs : s.Gated units) (u : LoadedUnit) (hu : u.unit ∈ units)
    (outer : Option Scope) (args : List Value) :
    (activate .log s u outer args).Keeps (Gated units seen) := by
  refine (enter_meets True u.unit outer args).bind fun scope => ?_
  let frame : Frame := ⟨u.unit.token, scope, u.payloadLength⟩
  have leaves (outcome : Except Abort Flow) :
      (leave .log u.unit.token >>= fun _ => Run.conclude outcome).Keeps
        (Gated units (seen ++ [u.unit.event (0, .entry)])) :=
    (leave_meets True fun depth => ignores_gated (by simp)).bind fun _ => Run.Keeps.conclude _
  have inside : (Run.outcome (exec .log s frame 0 u.unit.root) >>= fun outcome =>
      leave .log u.unit.token >>= fun _ => Run.conclude outcome).Keeps
        (Gated units (seen ++ [u.unit.event (0, .entry)])) := by
    have root : u.unit.GuardedBy (seen ++ [u.unit.event (0, .entry)]) u.unit.start :=
      .start (List.mem_append_right _ (List.mem_singleton_self _))
    exact (Run.Keeps.outcome (exec_gated hunits hu rfl hs u.unit.root root)).bind leaves
  show (noteEntry .log frame >>= fun _ => _).Keeps (Gated units seen)
  unfold noteEntry
  rw [bind_assoc]
  refine (Run.Meets.read _).bind fun depth => ?_
  rw [bind_assoc]
  refine (Run.Meets.ignored (ignores_gated (by simp))).bind fun _ => ?_
  have opened : ∀ key, u.unit.Opens key 0 →
      u.unit.event key ∈ seen ++ [u.unit.event (0, .entry)] := by
    rintro key (rfl | hkey)
    · exact List.mem_append_right _ (List.mem_singleton_self _)
    · exact absurd hkey not_opens_own
  exact reach_gated hunits hu rfl opened inside

theorem applyValue_gated (hs : s.Gated units) {code : Code} (hcode : code.All (· ∈ units))
    (callee : Value) (args : List Value) :
    (applyValue code .log s callee args).Keeps (Gated units seen) := by
  have hq := hs.quiet seen
  simp only [applyValue]
  rcases callee? callee with _ | ⟨token, outer⟩
  · exact hq.fail fun _ _ => by simp
  · dsimp only
    cases hget : code.units.get? token with
    | none => exact hq.fail fun _ _ => by simp
    | some u =>
      refine Run.Meets.ite (fun _ => hq.fail fun _ _ => by simp) fun _ => ?_
      refine (Run.Meets.read _).bind fun depth => ?_
      refine Run.Meets.ite (fun _ => hq.fail fun _ _ => by simp) fun _ => ?_
      refine (activate_gated hunits hs u (hcode token u hget) outer args).bind fun flow => ?_
      cases flow with
      | normal | returning => exact Run.Keeps.pure _
      | breaking | continuing | jumping =>
        exact Run.Meets.fail (ignores_gated (by simp)) trivial

/-- **Every run passes the gates of the units that it enters.** -/
theorem steps_gated {code : Code} (hcode : code.All (· ∈ units)) (fuel : Nat) :
    (steps code .log fuel).Gated units := by
  induction fuel with
  | zero =>
    exact ⟨fun _ _ _ => Run.Meets.exhausted, fun _ _ _ _ _ _ _ _ _ => Run.Meets.exhausted,
      fun _ _ _ _ _ _ _ _ _ _ => Run.Meets.exhausted⟩
  | succ fuel ih =>
    exact ⟨fun _ => applyValue_gated hunits ih hcode,
      fun u hu frame hf seen rounds v hat hg => execRound_gated hunits hu hf ih hat hg,
      fun u hu frame hf seen live whole site label hg =>
        execJump_gated hunits hu hf ih hg label⟩

end Units

end Host

end SpanCoverage
