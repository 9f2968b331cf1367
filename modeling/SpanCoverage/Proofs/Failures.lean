import SpanCoverage.Host.Replay
import SpanCoverage.Proofs.Chronicles

/-!
# Failures of the host

A failure of the host cannot be caught: a handler takes exceptions alone.  But a `finally` block
runs behind a failure too, and where it returns, jumps, throws or fails itself, its own end takes
the place of the failure.  Nothing else does, so a call ends with its first failure exactly if no
`finally` block did that.

The main results are:

* `Chronicle.Accounts.append`, `Chronicle.Accounts.clean` — how a run and what follows it account
  for their failures together, and how a `try` block does with its `finally` block.
* `Chronicled.exec_accounts`, `Chronicled.steps_account` — all code does.
* `failure_surfaces_iff` — what becomes of the failures of a call.
-/

namespace SpanCoverage.Host

variable {σ ρ α β : Type}

/-! ## Accounts -/

namespace Chronicle

variable {c d : Chronicle} {o : Except Abort α} {o' : Except Abort β}

theorem append_assoc (c d e : Chronicle) : c ++ d ++ e = c ++ (d ++ e) := by
  show Chronicle.mk _ _ = Chronicle.mk _ _
  congr 1 <;> exact List.append_assoc ..

theorem append_empty (c : Chronicle) : c ++ {} = c := by
  show Chronicle.mk _ _ = c
  congr 1 <;> exact List.append_nil _

theorem clean_eq (c : Chronicle) (cleanup : Cleanup) : c.clean cleanup = c ++ ⟨[], [cleanup]⟩ := by
  show Chronicle.mk _ _ = Chronicle.mk _ _
  rw [List.append_nil]

theorem failures_append : (c ++ d).failures = c.failures ++ d.failures := rfl

theorem undisplaced_append : (c ++ d).Undisplaced ↔ c.Undisplaced ∧ d.Undisplaced :=
  List.forall_mem_append

theorem undisplaced_clean {cleanup : Cleanup} :
    (c.clean cleanup).Undisplaced ↔ c.Undisplaced ∧ cleanup.displaces = false := by
  simp only [Undisplaced, clean, List.forall_mem_append, List.forall_mem_singleton]

/-- The chronicle of a run that ended so: the failure with which it ended is the one that arose,
unless one was displaced. -/
structure Accounts (c : Chronicle) (o : Except Abort α) : Prop where
  undisplaced_iff : c.Undisplaced ↔ c.failures = (failure? o).toList
  arose : ∀ error ∈ failure? o, error ∈ c.failures
  /-- An exception that nothing caught is no failure before the call has ended. -/
  raised : ∀ error ∈ c.failures, ∀ value, error ≠ .uncaught value

theorem Accounts.unfailed (h : c.Accounts o) (hc : c.failures = []) : failure? o = none :=
  Option.eq_none_iff_forall_not_mem.2 fun error herror =>
    absurd (h.arose error herror) (by simp [hc])

/-- A run without failures. -/
theorem Accounts.empty (h : failure? o = none) : Accounts {} o where
  undisplaced_iff := by
    rw [h]
    exact ⟨fun _ => rfl, fun _ => by simp [Undisplaced]⟩
  arose := by simp [h]
  raised := by simp

/-- Only the failure at the end matters. -/
theorem Accounts.congr (h : c.Accounts o) (heq : failure? o = failure? o') : c.Accounts o' :=
  ⟨heq ▸ h.undisplaced_iff, heq ▸ h.arose, h.raised⟩

/-- Behind a failure, no run makes the failures look like its own only one. -/
theorem Accounts.append_ne (h' : d.Accounts o') (hc : c.failures ≠ []) :
    c.failures ++ d.failures ≠ (failure? o').toList := by
  obtain ⟨error, rest, hfailures⟩ := List.exists_cons_of_ne_nil hc
  rw [hfailures]
  intro hboth
  cases hend : failure? o' with
  | none =>
    rw [hend] at hboth
    cases hboth
  | some error' =>
    rw [hend] at hboth
    have hrest : rest ++ d.failures = [] := (List.cons.inj hboth).2
    rw [h'.unfailed (List.append_eq_nil_iff.1 hrest).2] at hend
    cases hend

/-- **A run that does not fail, and another one behind it.** -/
theorem Accounts.append (h : c.Accounts o) (ho : failure? o = none) (h' : d.Accounts o') :
    (c ++ d).Accounts o' where
  undisplaced_iff := by
    have hfirst := h.undisplaced_iff
    rw [ho] at hfirst
    rw [undisplaced_append, hfirst, h'.undisplaced_iff, failures_append]
    by_cases hc : c.failures = []
    · simp [hc]
    · exact ⟨fun hboth => absurd hboth.1 hc, fun hboth => absurd hboth (h'.append_ne hc)⟩
  arose error herror := List.mem_append_right _ (h'.arose error herror)
  raised := List.forall_mem_append.2 ⟨h.raised, h'.raised⟩

/-- A run that fails or does not, and another one behind it that does not. -/
theorem Accounts.behind (h : c.Accounts o) (h' : d.Accounts o') (ho' : failure? o' = none) :
    (c ++ d).Accounts o where
  undisplaced_iff := by
    have hsecond := h'.undisplaced_iff
    rw [ho'] at hsecond
    rw [undisplaced_append, h.undisplaced_iff, hsecond, failures_append]
    cases ho : failure? o with
    | none => exact List.append_eq_nil_iff.symm
    | some error =>
      have hc : c.failures ≠ [] := by
        intro hnil
        rw [h.unfailed hnil] at ho
        cases ho
      obtain ⟨first, rest, hfailures⟩ := List.exists_cons_of_ne_nil hc
      simp [hfailures, and_assoc]
  arose error herror := List.mem_append_left _ (h.arose error herror)
  raised := List.forall_mem_append.2 ⟨h.raised, h'.raised⟩

/-- A `finally` block that displaces nothing makes no difference to an account. -/
theorem Accounts.kept {cleanup : Cleanup} (h : c.Accounts o) (hkept : cleanup.displaces = false) :
    (c.clean cleanup).Accounts o where
  undisplaced_iff := by
    rw [undisplaced_clean, h.undisplaced_iff]
    simp [clean, hkept]
  arose := h.arose
  raised := h.raised

/-- **A `finally` block behind a run.** -/
theorem Accounts.clean {found ended : Except Abort Flow} (h : c.Accounts found)
    (h' : d.Accounts ended) :
    ((c ++ d).clean ⟨found, ended⟩).Accounts (Cleanup.outcome ⟨found, ended⟩) := by
  by_cases hnormal : ended = .ok .normal
  · subst hnormal
    refine (h.behind h' rfl).kept ?_
    simp only [Cleanup.displaces]
    cases failure? found <;> rfl
  have houtcome : Cleanup.outcome ⟨found, ended⟩ = ended := by
    rcases ended with _ | _ | _ <;> first | rfl | exact absurd rfl hnormal
  rw [houtcome]
  cases hfound : failure? found with
  | none =>
    refine (h.append hfound h').kept ?_
    simp only [Cleanup.displaces, hfound]
  | some error =>
    have hdisplaces : Cleanup.displaces ⟨found, ended⟩ = true := by
      simp only [Cleanup.displaces, hfound]
    have hc : c.failures ≠ [] := by
      intro hnil
      rw [h.unfailed hnil] at hfound
      cases hfound
    refine ⟨?_, fun error herror => List.mem_append_right _ (h'.arose error herror),
      List.forall_mem_append.2 ⟨h.raised, h'.raised⟩⟩
    rw [undisplaced_clean, hdisplaces]
    simpa [Chronicle.clean, failures_append] using h'.append_ne hc

end Chronicle

/-! ## Runs that account for their failures -/

/-- Whatever the chronicle so far, the run adds to it, and if it ends then with a property. -/
def Run.Adds (x : Run (σ × Chronicle) α) (P : Chronicle → Except Abort α → Prop) : Prop :=
  ∀ w, ∃ c, (x w).2.record.2 = w.record.2 ++ c ∧ ∀ o, (x w).1 = some o → P c o

namespace Run

variable {P : Chronicle → Except Abort α → Prop} {Q : Chronicle → Except Abort β → Prop}

theorem Adds.bind {x : Run (σ × Chronicle) α} {f : α → Run (σ × Chronicle) β} (hx : x.Adds P)
    (hf : ∀ c a, P c (.ok a) → (f a).Adds fun d o => Q (c ++ d) o)
    (herror : ∀ c e, P c (.error e) → Q c (.error e)) : (x >>= f).Adds Q := by
  intro w
  rw [bind_apply]
  obtain ⟨c, hc, hends⟩ := hx w
  generalize x w = p at hc hends
  obtain ⟨o, w'⟩ := p
  rcases o with _ | e | a
  · exact ⟨c, hc, nofun⟩
  · exact ⟨c, hc, fun o ho => Option.some.inj ho ▸ herror c e (hends _ rfl)⟩
  · obtain ⟨d, hd, hboth⟩ := hf c a (hends _ rfl) w'
    refine ⟨c ++ d, ?_, hboth⟩
    rw [hd, ← Chronicle.append_assoc]
    exact congrArg (· ++ d) hc

theorem Adds.mono {P' : Chronicle → Except Abort α → Prop} {x : Run (σ × Chronicle) α}
    (hx : x.Adds P) (h : ∀ c o, P c o → P' c o) : x.Adds P' := by
  intro w
  obtain ⟨c, hc, hends⟩ := hx w
  exact ⟨c, hc, fun o ho => h c o (hends o ho)⟩

theorem Adds.conclude {o : Except Abort α} (h : P {} o) :
    (conclude o : Run (σ × Chronicle) α).Adds P :=
  fun w => ⟨{}, w.record.2.append_empty.symm, fun _ ho => Option.some.inj ho ▸ h⟩

/-- The run does not throw or fail itself, and what it adds goes with its result. -/
abbrev Yields (x : Run (σ × Chronicle) α) (P : Chronicle → α → Prop) : Prop :=
  x.Adds fun c o => ∃ a, o = .ok a ∧ P c a

theorem Yields.bind {P : Chronicle → α → Prop} {x : Run (σ × Chronicle) α}
    {f : α → Run (σ × Chronicle) β} (hx : x.Yields P)
    (hf : ∀ c a, P c a → (f a).Adds fun d o => Q (c ++ d) o) : (x >>= f).Adds Q := by
  refine Adds.bind hx (fun c a hends => ?_) fun c e hends => ?_
  · obtain ⟨_, ⟨⟩, hc⟩ := hends
    exact hf c a hc
  · obtain ⟨_, ⟨⟩, _⟩ := hends

theorem Adds.outcome {x : Run (σ × Chronicle) α} (hx : x.Adds P) : x.outcome.Yields P := by
  intro w
  obtain ⟨c, hc, hends⟩ := hx w
  unfold Run.outcome
  generalize x w = p at hc hends
  obtain ⟨o, w'⟩ := p
  cases o with
  | none => exact ⟨c, hc, nofun⟩
  | some found => exact ⟨c, hc, fun o ho => ⟨found, (Option.some.inj ho).symm, hends _ rfl⟩⟩

/-- The run accounts for its failures. -/
abbrev Accounts (x : Run (σ × Chronicle) α) : Prop := x.Adds Chronicle.Accounts

theorem Accounts.bind {x : Run (σ × Chronicle) α} {f : α → Run (σ × Chronicle) β}
    (hx : x.Accounts) (hf : ∀ a, (f a).Accounts) : (x >>= f).Accounts := by
  refine Adds.bind hx (fun c a hc w => ?_) fun c e hc => hc.congr (by cases e <;> rfl)
  obtain ⟨d, hd, hends⟩ := hf a w
  exact ⟨d, hd, fun o ho => hc.append rfl (hends o ho)⟩

/-- A run that does not touch the chronicle and does not fail. -/
theorem Accounts.quiet {x : Run (σ × Chronicle) α}
    (h : ∀ w, (x w).2.record.2 = w.record.2 ∧ ∀ o, (x w).1 = some o → failure? o = none) :
    x.Accounts := by
  intro w
  refine ⟨{}, ?_, fun o ho => .empty ((h w).2 o ho)⟩
  rw [Chronicle.append_empty]
  exact (h w).1

theorem Accounts.conclude {o : Except Abort α} (h : failure? o = none) :
    (conclude o : Run (σ × Chronicle) α).Accounts :=
  .quiet fun _ => ⟨rfl, fun _ ho => Option.some.inj ho ▸ h⟩

theorem Accounts.pure (a : α) : (pure a : Run (σ × Chronicle) α).Accounts := .conclude rfl

theorem Accounts.throw (value : Value) : (throw value : Run (σ × Chronicle) α).Accounts :=
  .conclude rfl

theorem Accounts.ofFault (f : Except Fault α) : (ofFault f : Run (σ × Chronicle) α).Accounts := by
  cases f with
  | ok a => exact .pure a
  | error fault => exact .throw _

theorem Accounts.exhausted : (exhausted : Run (σ × Chronicle) α).Accounts :=
  .quiet fun _ => ⟨rfl, nofun⟩

theorem Accounts.read (f : World (σ × Chronicle) → α) : (read f).Accounts :=
  .quiet fun _ => ⟨rfl, fun _ ho => Option.some.inj ho ▸ rfl⟩

theorem Accounts.change {f : World (σ × Chronicle) → World (σ × Chronicle)}
    (h : ∀ w, (f w).record.2 = w.record.2) : (change f).Accounts :=
  .quiet fun w => ⟨h w, fun _ ho => Option.some.inj ho ▸ rfl⟩

theorem Accounts.onRecord {f : σ × Chronicle → σ × Chronicle} (h : ∀ s, (f s).2 = s.2) :
    (onRecord f).Accounts :=
  .change fun w => h w.record

theorem Accounts.onHeap (f : Heap → α × Heap) :
    (onHeap f : Run (σ × Chronicle) α).Accounts :=
  .quiet fun _ => ⟨rfl, fun _ ho => Option.some.inj ho ▸ rfl⟩

theorem Accounts.ite {p : Prop} [Decidable p] {x y : Run (σ × Chronicle) α}
    (h : p → x.Accounts) (h' : ¬ p → y.Accounts) : (if p then x else y).Accounts := by
  by_cases hp : p
  · rw [if_pos hp]
    exact h hp
  · rw [if_neg hp]
    exact h' hp

/-- A failure arises. -/
theorem Accounts.fail (r : Recorder σ) {error : HostError}
    (h : ∀ value, error ≠ .uncaught value) :
    (fail r.chronicled error : Run (σ × Chronicle) α).Accounts := by
  intro w
  refine ⟨⟨[error], []⟩, ?_, ?_⟩
  · show Chronicle.mk _ _ = Chronicle.mk _ _
    rw [List.append_nil]
  · intro o ho
    rw [← Option.some.inj ho]
    refine ⟨?_, by simp [failure?], by simpa using h⟩
    exact ⟨fun _ => rfl, fun _ => by simp [Chronicle.Undisplaced]⟩

end Run

/-! ## Code that accounts for its failures -/

namespace Chronicled

/-- Steps that account for their failures. -/
structure Accounting (s : Resume (σ × Chronicle)) : Prop where
  call : ∀ callee args, (s.call callee args).Accounts
  loop : ∀ frame rounds, (s.loop frame rounds).Accounts
  jump : ∀ frame whole site label, (s.jump frame whole site label).Accounts

variable {r : Recorder σ} {s : Resume (σ × Chronicle)} {frame : Frame}

theorem reach_accounts (r : Recorder σ) (frame : Frame) (site : Nat) (kind : SpanKind) :
    (reach r.chronicled frame site kind).Accounts :=
  .onRecord fun _ => rfl

theorem eval_accounts (r : Recorder σ) (frame : Frame) (hs : Accounting s) (e : Expr) :
    (eval r.chronicled s frame e).Accounts := by
  induction e using Expr.induct with
  | const | function => exact .pure _
  | var name =>
    refine (Run.Accounts.read _).bind fun value => ?_
    cases value with
    | none => exact .fail r (by simp)
    | some value => exact .pure _
  | unary op e ih => exact ih.bind fun value => .ofFault _
  | binary op l r ihl ihr =>
    simp only [eval]
    refine ihl.bind fun left => ?_
    refine .ite (fun _ => .pure _) fun _ => .ite (fun _ => .pure _) fun _ => ?_
    exact ihr.bind fun right => .ite (fun _ => .pure _) fun _ => .ofFault _
  | closure t => exact (Run.Accounts.onHeap _).bind fun _ => .pure _
  | call f args ihf ihargs =>
    simp only [eval]
    refine ihf.bind fun callee => Run.Accounts.bind ?_ fun values => hs.call callee values
    induction args with
    | nil => exact .pure _
    | cons e es ih =>
      simp only [List.mem_cons, forall_eq_or_imp] at ihargs
      exact ihargs.1.bind fun _ => (ih ihargs.2).bind fun _ => .pure _
  | probed i e ih =>
    simp only [eval]
    exact Run.Accounts.bind (.onRecord fun _ => rfl) fun _ => ih

theorem execStmt_accounts (hs : Accounting s) (a : Stmt) :
    (execStmt r.chronicled s frame a).Accounts := by
  have value := eval_accounts r frame hs
  cases a with
  | assign name e =>
    exact (value e).bind fun _ => (Run.Accounts.change fun _ => rfl).bind fun _ => .pure _
  | eval e => exact (value e).bind fun _ => .pure _
  | print e =>
    exact (value e).bind fun _ => (Run.Accounts.change fun _ => rfl).bind fun _ => .pure _
  | ret e =>
    refine Run.Accounts.bind ?_ fun _ => .pure _
    cases e with
    | none => exact .pure _
    | some e => exact value e
  | raise e => exact (value e).bind fun _ => .throw _
  | skip | goto | leave | next => exact .pure _

/-- A node accounts for its failures, wherever it stands. -/
abbrev NodeAccounts (r : Recorder σ) (s : Resume (σ × Chronicle)) (frame : Frame) (n : Node) :
    Prop :=
  ∀ site, (exec r.chronicled s frame site n).Accounts

theorem exec?_accounts {e : Option Node} (h : ∀ n ∈ e, NodeAccounts r s frame n) (site : Nat) :
    (exec? r.chronicled s frame site e).Accounts := by
  cases e with
  | none => exact .pure _
  | some n => exact h n rfl site

theorem execAll_accounts (hs : Accounting s) (whole : List Node) (wholeSite : Nat) {ns : List Node}
    (hns : ∀ n ∈ ns, NodeAccounts r s frame n) (site : Nat) :
    (execAll r.chronicled s frame whole wholeSite site ns).Accounts := by
  induction ns generalizing site with
  | nil => exact .pure _
  | cons n ns ih =>
    simp only [List.mem_cons, forall_eq_or_imp] at hns
    simp only [execAll]
    refine (hns.1 site).bind fun flow => ?_
    cases flow with
    | normal => exact ih hns.2 _
    | jumping label => exact .ite (fun _ => hs.jump _ _ _ _) fun _ => .pure _
    | breaking | continuing | returning => exact .pure _

theorem execArm_accounts {arms : List Arm} (harms : ∀ a ∈ arms, NodeAccounts r s frame a.body)
    (place site : Nat) : (execArm r.chronicled s frame place site arms).Accounts := by
  induction arms generalizing place site with
  | nil => exact .pure _
  | cons a arms ih =>
    obtain ⟨case, body, range⟩ := a
    simp only [List.mem_cons, forall_eq_or_imp] at harms
    cases place with
    | zero => exact (reach_accounts _ _ _ _).bind fun _ => harms.1 _
    | succ place => exact ih harms.2 _ _

/-- What a handler adds to the account of a `try` block. -/
theorem execHandler_adds {handlers : List Handler}
    (hh : ∀ h ∈ handlers, NodeAccounts r s frame h.body) (outcome : Except Abort Flow)
    (site : Nat) :
    (execHandler r.chronicled s frame outcome site handlers).Yields fun d found =>
      ∀ c : Chronicle, c.Accounts outcome → (c ++ d).Accounts found := by
  have stays : (pure outcome : Run (σ × Chronicle) (Except Abort Flow)).Yields fun d found =>
      ∀ c : Chronicle, c.Accounts outcome → (c ++ d).Accounts found := by
    refine Run.Adds.conclude ⟨outcome, rfl, fun c hc => ?_⟩
    rwa [Chronicle.append_empty]
  cases handlers with
  | nil => exact stays
  | cons h handlers =>
    obtain ⟨binding, body, range⟩ := h
    simp only [List.mem_cons, forall_eq_or_imp] at hh
    rcases outcome with (value | error) | flow
    · have bound : (bindCaught frame value binding : Run (σ × Chronicle) Unit).Accounts := by
        cases binding with
        | none => exact .pure _
        | some name => exact .change fun _ => rfl
      have handled := bound.bind fun _ =>
        (reach_accounts r frame site .catchEntry).bind fun _ => hh.1 site
      refine handled.outcome.mono fun d o hends => ?_
      obtain ⟨found, rfl, hd⟩ := hends
      exact ⟨found, rfl, fun c hc => hc.append rfl hd⟩
    · exact stays
    · exact stays

/-- What a `finally` block adds to the account of what is in front of it. -/
theorem execFinally_adds {f : Option Node} (hf : ∀ n ∈ f, NodeAccounts r s frame n)
    (found : Except Abort Flow) (site : Nat) :
    (execFinally r.chronicled s frame found site f).Adds fun d o =>
      ∀ c : Chronicle, c.Accounts found → (c ++ d).Accounts o := by
  cases f with
  | none =>
    refine Run.Adds.conclude fun c hc => ?_
    rwa [Chronicle.append_empty]
  | some n =>
    have block := (reach_accounts r frame site .finallyEntry).bind
      fun _ => hf n rfl site
    refine Run.Yields.bind block.outcome fun d ended hd w => ?_
    refine ⟨⟨[], [⟨found, ended⟩]⟩, Chronicle.clean_eq _ _, fun o ho c hc => ?_⟩
    rw [← Option.some.inj ho, ← Chronicle.append_assoc, ← Chronicle.clean_eq]
    exact hc.clean hd

/-- **A node accounts for its failures.** -/
theorem exec_accounts (hs : Accounting s) (n : Node) : NodeAccounts r s frame n := by
  induction n using Node.induct with
  | stmt a range => exact fun site => (reach_accounts _ _ _ _).bind fun _ => execStmt_accounts hs _
  | seq ns ih => exact fun site => execAll_accounts hs _ _ ih _
  | branch c t e range iht ihe =>
    intro site
    refine (reach_accounts _ _ _ _).bind fun _ => (eval_accounts _ _ hs _).bind fun value => ?_
    exact .ite (fun _ => iht _) fun _ => exec?_accounts ihe _
  | loop test i c u b range ihi ihu ihb =>
    intro site
    refine (exec?_accounts ihi _).bind fun flow => ?_
    cases flow with
    | normal => exact hs.loop _ _
    | breaking | continuing | returning | jumping => exact .pure _
  | switch value arms range ih =>
    intro site
    simp only [exec]
    refine (reach_accounts _ _ _ _).bind fun _ => (eval_accounts _ _ hs _).bind fun value => ?_
    cases chosenArm? value arms with
    | none => exact .pure _
    | some place =>
      refine (execArm_accounts ih _ _).bind fun flow => ?_
      cases flow <;> exact .pure _
  | attempt b handlers f range ihb ihh ihf =>
    intro site
    simp only [exec]
    refine Run.Yields.bind (ihb _).outcome fun c outcome hc => ?_
    refine Run.Yields.bind (execHandler_adds ihh _ _) fun d found hd => ?_
    refine (execFinally_adds ihf _ _).mono fun d' o hends => ?_
    rw [← Chronicle.append_assoc]
    exact hends _ (hd c hc)
  | guarded kind resource b range ihb =>
    intro site
    refine (reach_accounts _ _ _ _).bind fun _ => (eval_accounts _ _ hs _).bind fun value => ?_
    exact .ite (fun _ => .ofFault _) fun _ => ihb _
  | label name range => exact fun site => (reach_accounts _ _ _ _).bind fun _ => .pure _
  | nested header root => exact fun _ => .pure _
  | probe span | acquire =>
    exact fun _ => (Run.Accounts.onRecord fun _ => rfl).bind fun _ => .pure _

theorem goesOn_accounts (hs : Accounting s) (time : TestTime) (rounds : Rounds) :
    (goesOn r.chronicled s frame time rounds).Accounts := by
  refine .ite (fun _ => ?_) fun _ => .pure _
  exact (reach_accounts _ _ _ _).bind fun _ => (eval_accounts _ _ hs _).bind fun _ => .pure _

theorem execUpdate_accounts (hs : Accounting s) (rounds : Rounds) :
    (execUpdate r.chronicled s frame rounds).Accounts := by
  refine (exec?_accounts (fun n _ => exec_accounts hs n) _).bind fun flow => ?_
  cases flow with
  | normal | continuing =>
    exact (goesOn_accounts hs _ _).bind fun _ => .ite (fun _ => hs.loop _ _) fun _ => .pure _
  | breaking | returning | jumping => exact .pure _

theorem execRound_accounts (hs : Accounting s) (rounds : Rounds) :
    (execRound r.chronicled s frame rounds).Accounts := by
  refine (goesOn_accounts hs _ _).bind fun enters => .ite (fun _ => ?_) fun _ => .pure _
  refine (exec_accounts hs _ _).bind fun flow => ?_
  cases flow with
  | normal | continuing => exact execUpdate_accounts hs _
  | breaking | returning | jumping => exact .pure _

theorem execJump_accounts (hs : Accounting s) (whole : List Node) (site : Nat) (label : String) :
    (execJump r.chronicled s frame whole site label).Accounts := by
  simp only [execJump]
  cases fromLabel? label site whole with
  | none => exact .pure _
  | some place => exact execAll_accounts hs _ _ (fun n _ => exec_accounts hs n) _

theorem activate_accounts (hs : Accounting s) (u : LoadedUnit) (outer : Option Scope)
    (args : List Value) : (activate r.chronicled s u outer args).Accounts := by
  have entry (unit : MethodToken) (scope : Scope) :
      (noteEntry r.chronicled ⟨unit, scope, u.payloadLength⟩).Accounts :=
    (Run.Accounts.read _).bind fun _ => Run.Accounts.bind (.onRecord fun _ => rfl) fun _ =>
      reach_accounts _ _ _ _
  have entered : (enter u.unit outer args : Run (σ × Chronicle) Scope).Accounts :=
    (Run.Accounts.onHeap _).bind fun _ => Run.Accounts.bind (.change fun _ => rfl) fun _ => .pure _
  refine entered.bind fun scope => (entry _ _).bind fun _ => ?_
  refine Run.Yields.bind (exec_accounts hs _ _).outcome fun c outcome hc w => ?_
  -- Nothing fails while the unit is left.
  refine ⟨{}, (Chronicle.append_empty _).symm, fun o ho => ?_⟩
  rw [← Option.some.inj ho]
  simpa only [Chronicle.append_empty] using hc

theorem applyValue_accounts (hs : Accounting s) (code : Code) (callee : Value)
    (args : List Value) : (applyValue code r.chronicled s callee args).Accounts := by
  simp only [applyValue]
  rcases callee? callee with _ | ⟨token, outer⟩
  · exact .fail r (by simp)
  · cases hu : code.units.get? token with
    | none =>
      simp only [hu]
      exact .fail r (by simp)
    | some u =>
      simp only [hu]
      refine .ite (fun _ => .fail r (by simp)) fun _ => (Run.Accounts.read _).bind fun depth => ?_
      refine .ite (fun _ => .fail r (by simp)) fun _ => ?_
      refine (activate_accounts hs _ _ _).bind fun flow => ?_
      cases flow with
      | normal | returning => exact .pure _
      | breaking | continuing | jumping => exact .fail r (by simp)

/-- **All steps account for their failures.** -/
theorem steps_account (r : Recorder σ) (code : Code) (fuel : Nat) :
    Accounting (steps code r.chronicled fuel) := by
  induction fuel with
  | zero => exact ⟨fun _ _ => .exhausted, fun _ _ => .exhausted, fun _ _ _ _ => .exhausted⟩
  | succ fuel ih =>
    exact ⟨applyValue_accounts ih code, fun _ => execRound_accounts ih,
      fun _ => execJump_accounts ih⟩

end Chronicled

/-! ## Calls -/

/-- **What becomes of the failures of a call.**  A call returns, ends with an exception that nothing
caught, or ends with a failure that arose in it.  It ends with its first failure, and has no other,
exactly if no `finally` block put its own end in the place of a failure.  The failures are those
that the host notes (`Rig.observed_failures`), and a call by name is one of the function that the
name stands for (`Rig.call_some`). -/
theorem failure_surfaces_iff {rig : Rig σ ρ} {s s' : Session σ} {callee : Value}
    {args : List Value} {fuel : Nat} {result : Except HostError Value}
    (h : rig.apply s callee args fuel = some (result, s')) :
    ((∃ value, result = .ok value) ∨ (∃ value, result = .error (.uncaught value)) ∨
      ∃ error ∈ (rig.chronicle s callee args fuel).failures, result = .error error) ∧
    ∀ first rest, (rig.chronicle s callee args fuel).failures = first :: rest →
      ((result = .error first ∧ rest = []) ↔ (rig.chronicle s callee args fuel).Undisplaced) := by
  obtain ⟨outcome, w, hrun, rfl, -⟩ := Rig.chronicled_apply h
  obtain ⟨c, hc, hends⟩ := (Chronicled.steps_account (rig.recorder s.machine) s.machine.code
    (fuel + 1)).call callee args ⟨s.heap, s.machine.output, s.machine.depth, (s.record, {})⟩
  have hchronicle : rig.chronicle s callee args fuel = c := hc
  have haccount : c.Accounts outcome := hends _ (congrArg Prod.fst hrun)
  rw [hchronicle]
  refine ⟨?_, fun first rest hfailures => ?_⟩
  · rcases outcome with (value | error) | value
    · exact .inr (.inl ⟨value, rfl⟩)
    · exact .inr (.inr ⟨error, haccount.arose error rfl, rfl⟩)
    · exact .inl ⟨value, rfl⟩
  · rw [haccount.undisplaced_iff, hfailures]
    rcases outcome with (value | error) | value
    · have hraised := haccount.raised first (by simp [hfailures]) value
      simp [failure?, Machine.answerOf, hraised.symm]
    · simp [failure?, Machine.answerOf, eq_comm]
    · simp [failure?, Machine.answerOf]

/-- A program that prints a variable it does not have, with a handler and a `finally` block of one
statement behind that. -/
def guarding (last : Stmt) : Program where
  name := "guarding"
  units := [⟨{ token := ⟨0x06000001⟩, name := "main", range := .none },
    .attempt (.stmt (.print (.var "x")) .none)
      [⟨some "e", .stmt (.print (.const (.str "caught"))) .none, .none⟩]
      (some (.stmt last .none)) .none⟩]

/-- A machine that has loaded the program. -/
def guardingSession (last : Stmt) : Session Log :=
  ⟨(Session.fresh 8 {} ({} : Log)).machine.loadPlain (guarding last), {}, {}⟩

/-- A `finally` block that ends normally leaves the failure alone, as the handler does. -/
theorem guarding_surfaces :
    ∃ s', Rig.observed.apply (guardingSession .skip) (.function ⟨0x06000001⟩) [] 4 =
      some (.error (.undefinedVariable "x"), s') := by
  have hends : (Rig.observed.apply (guardingSession .skip) (.function ⟨0x06000001⟩) []
      4).isSome := by
    decide +kernel
  obtain ⟨⟨result, s'⟩, h⟩ := Option.isSome_iff_exists.1 hends
  have hfailures : (Rig.observed.chronicle (guardingSession .skip) (.function ⟨0x06000001⟩) []
      4).failures = [.undefinedVariable "x"] := by
    decide +kernel
  have hundisplaced : (Rig.observed.chronicle (guardingSession .skip) (.function ⟨0x06000001⟩) []
      4).Undisplaced := by
    decide +kernel
  obtain ⟨rfl, -⟩ := ((failure_surfaces_iff h).2 _ _ hfailures).2 hundisplaced
  exact ⟨s', h⟩

/-- A `finally` block that returns conceals the failure: the host notes it, and the call answers the
value. -/
theorem guarding_conceals :
    ∃ s', Rig.observed.call (guardingSession (.ret (some (.const (.int 1))))) "main" [] 4 =
        some (.ok (.int 1), s') ∧
      s'.record.failures = [.undefinedVariable "x"] := by
  have hcall : (Rig.observed.call (guardingSession (.ret (some (.const (.int 1))))) "main" []
      4).map (fun (result, s') => (result, s'.record.failures)) =
        some (.ok (.int 1), [.undefinedVariable "x"]) := by
    decide +kernel
  obtain ⟨⟨result, s'⟩, hrun, hends⟩ := Option.map_eq_some_iff.1 hcall
  obtain ⟨rfl, hfailures⟩ := Prod.mk.inj hends
  exact ⟨s', hrun, hfailures⟩

end SpanCoverage.Host
