import SpanCoverage.Host.Session
import SpanCoverage.Proofs.Likeness

/-!
# Answers do not depend on the fuel

Fuel says how long a host is willing to wait, and nothing else: with more of it a call that ended
ends in the same way.  So a session has at most one list of replies, which is what allows to speak
of *the* answer of a call.

The main results are:

* `Rig.apply_like` — calls whose runs are alike answer alike.
* `Rig.apply_mono` — a call answers the same under every larger amount of fuel.
* `Rig.Runs.unique` — the steps of a session determine its replies and where it ends.
* `Rig.Runs.keeps` — what every step keeps, a session keeps.
* `Rig.answers_call`, `Rig.answers_apply` — the answers of a session, call by call.
-/

namespace SpanCoverage.Host

variable {σ τ ρ ω : Type}

/-! ## Calls that are alike -/

/-- Two sessions whose machines print and count alike, with equal heaps and related records. -/
structure Session.Like (R : σ → τ → Prop) (s : Session σ) (t : Session τ) : Prop where
  output : s.machine.output = t.machine.output
  depth : s.machine.depth = t.machine.depth
  heap : s.heap = t.heap
  record : R s.record t.record

/-- The session behind a call: only what it printed and counted, the heap and the record change. -/
def Session.after (s : Session σ) (w : World σ) : Session σ :=
  ⟨{ s.machine with output := w.output, depth := w.depth }, w.heap, w.record⟩

/-- A call opened at its run. -/
theorem Rig.apply_eq (rig : Rig σ ρ) (s : Session σ) (callee : Value) (args : List Value)
    (fuel : Nat) :
    rig.apply s callee args fuel =
      match rig.callRun s callee args fuel s.world with
      | (none, _) => none
      | (some outcome, w) => some (Machine.answerOf outcome, s.after w) := by
  simp only [Rig.apply, Machine.perform, Session.world]
  rcases rig.callRun s callee args fuel _ with ⟨_ | outcome, w⟩ <;> rfl

/-- What a call that ended did: its run ended, with the answer that this makes. -/
theorem Rig.apply_some {rig : Rig σ ρ} {s s' : Session σ} {callee : Value} {args : List Value}
    {fuel : Nat} {result : Except HostError Value}
    (h : rig.apply s callee args fuel = some (result, s')) :
    ∃ outcome w, rig.callRun s callee args fuel s.world = (some outcome, w) ∧
      result = Machine.answerOf outcome ∧ s' = s.after w := by
  rw [Rig.apply_eq] at h
  generalize rig.callRun s callee args fuel s.world = q at h
  obtain ⟨o, w⟩ := q
  cases o with
  | none => cases h
  | some outcome =>
    cases h
    exact ⟨outcome, w, rfl, rfl, rfl⟩

/-- A call by name calls a function, or answers that the name is not known. -/
theorem Rig.call_some {rig : Rig σ ρ} {s s' : Session σ} {name : String} {args : List Value}
    {fuel : Nat} {result : Except HostError Value}
    (h : rig.call s name args fuel = some (result, s')) :
    (∃ token, rig.apply s (.function token) args fuel = some (result, s')) ∨
      (result = .error (.unknownFunction name) ∧ s' = s) := by
  unfold Rig.call at h
  cases hname : s.machine.names.get? name with
  | some token =>
    rw [hname] at h
    exact .inl ⟨token, h⟩
  | none =>
    rw [hname] at h
    cases h
    exact .inr ⟨rfl, rfl⟩

/-- Two calls that end with one answer, in sessions that are related, or that both do not end. -/
inductive EndAlike (P : Session σ → Session τ → Prop) :
    Option (Except HostError Value × Session σ) → Option (Except HostError Value × Session τ) → Prop
  | endless : EndAlike P none none
  | ended (result : Except HostError Value) {s : Session σ} {t : Session τ} (h : P s t) :
    EndAlike P (some (result, s)) (some (result, t))

section EndAlike

variable {P : Session σ → Session τ → Prop} {x : Option (Except HostError Value × Session σ)}
  {y : Option (Except HostError Value × Session τ)} {result : Except HostError Value}

theorem EndAlike.of_left (h : EndAlike P x y) {s : Session σ} (hx : x = some (result, s)) :
    ∃ t, y = some (result, t) ∧ P s t := by
  cases h with
  | endless => cases hx
  | ended _ h => cases hx; exact ⟨_, rfl, h⟩

theorem EndAlike.of_right (h : EndAlike P x y) {t : Session τ} (hy : y = some (result, t)) :
    ∃ s, x = some (result, s) ∧ P s t := by
  cases h with
  | endless => cases hy
  | ended _ h => cases hy; exact ⟨_, rfl, h⟩

/-- Calls whose runs are alike end alike, in whatever relation holds of sessions that are alike
again. -/
theorem Rig.apply_like {R : σ → τ → Prop} {rig : Rig σ ρ} {rig' : Rig τ ω} {s : Session σ}
    {t : Session τ} (h : s.Like R t) {callee : Value} {args : List Value} {fuel : Nat}
    (hrun : Run.Like False R (rig.callRun s callee args fuel) (rig'.callRun t callee args fuel))
    (hafter : ∀ w v, w.Like R v → P (s.after w) (t.after v)) :
    EndAlike P (rig.apply s callee args fuel) (rig'.apply t callee args fuel) := by
  rw [Rig.apply_eq, Rig.apply_eq]
  have hlike := hrun s.world t.world ⟨h.heap, h.output, h.depth, h.record⟩
  generalize rig.callRun s callee args fuel _ = p at hlike ⊢
  generalize rig'.callRun t callee args fuel _ = q at hlike ⊢
  obtain ⟨o, w⟩ := p
  obtain ⟨o', v⟩ := q
  rcases hlike with ⟨hlax, -⟩ | ⟨rfl, hlike⟩
  · exact hlax.elim
  · cases o with
    | none => exact .endless
    | some outcome => exact .ended _ (hafter w v hlike)

/-- Calls by name end alike if the calls of functions do. -/
theorem Rig.call_like {rig : Rig σ ρ} {rig' : Rig τ ω} {s : Session σ} {t : Session τ}
    (h : P s t) (hnames : s.machine.names = t.machine.names) {args : List Value} {fuel : Nat}
    (happly : ∀ callee, EndAlike P (rig.apply s callee args fuel) (rig'.apply t callee args fuel))
    (name : String) : EndAlike P (rig.call s name args fuel) (rig'.call t name args fuel) := by
  unfold Rig.call
  rw [← hnames]
  cases s.machine.names.get? name with
  | none => exact .ended _ h
  | some token => exact happly _

end EndAlike

/-! ## More fuel -/

/-- A recorder keeps equal records equal. -/
theorem Recorder.like_self (r : Recorder σ) : r.Like Eq r where
  note event _ _ := congrArg (r.note event)
  acquire unit length _ _ := congrArg (r.acquire unit length)
  mark unit span _ _ := congrArg (r.mark unit span)

theorem World.like_eq {w v : World σ} (h : w.Like Eq v) : w = v := by
  obtain ⟨heap, output, depth, record⟩ := w
  obtain ⟨hh, ho, hd, hr⟩ := h
  simp only at hh ho hd hr
  rw [hh, ho, hd, hr]

/-- **A call that ended ends in the same way with more fuel.** -/
theorem Rig.apply_mono (rig : Rig σ ρ) {s : Session σ} {callee : Value} {args : List Value}
    {m n : Nat} (hmn : m ≤ n) {x : Except HostError Value × Session σ}
    (h : rig.apply s callee args m = some x) : rig.apply s callee args n = some x := by
  have hrun : Run.Like True Eq (rig.callRun s callee args m) (rig.callRun s callee args n) :=
    (steps_like (rig.recorder s.machine).like_self s.machine.code
      (.inr ⟨trivial, Nat.succ_le_succ hmn⟩)).call callee args
  rw [Rig.apply_eq] at h ⊢
  have hlike := hrun s.world s.world ⟨rfl, rfl, rfl, rfl⟩
  generalize rig.callRun s callee args m _ = p at hlike h
  generalize rig.callRun s callee args n _ = q at hlike ⊢
  obtain ⟨o, w⟩ := p
  obtain ⟨o', v⟩ := q
  rcases hlike with ⟨-, rfl⟩ | ⟨rfl, hlike⟩
  · cases h
  · have hw : w = v := World.like_eq hlike
    subst hw
    exact h

/-! ## Sessions have one outcome -/

theorem Rig.apply_unique (rig : Rig σ ρ) {s : Session σ} {callee : Value} {args : List Value}
    {m n : Nat} {x y : Except HostError Value × Session σ}
    (hx : rig.apply s callee args m = some x) (hy : rig.apply s callee args n = some y) :
    x = y := by
  have hxm := rig.apply_mono (Nat.le_max_left m n) hx
  have hyn := rig.apply_mono (Nat.le_max_right m n) hy
  exact Option.some.inj (hxm.symm.trans hyn)

theorem Rig.call_unique (rig : Rig σ ρ) {s : Session σ} {name : String} {args : List Value}
    {m n : Nat} {x y : Except HostError Value × Session σ}
    (hx : rig.call s name args m = some x) (hy : rig.call s name args n = some y) : x = y := by
  unfold Rig.call at hx hy
  cases hname : s.machine.names.get? name with
  | none =>
    rw [hname] at hx hy
    exact Option.some.inj (hx.symm.trans hy)
  | some token =>
    rw [hname] at hx hy
    exact rig.apply_unique hx hy

theorem Rig.Does.unique {rig : Rig σ ρ} {s s₁ s₂ : Session σ} {step : Step}
    {reply₁ reply₂ : Reply ρ} (h₁ : rig.Does s step reply₁ s₁) (h₂ : rig.Does s step reply₂ s₂) :
    reply₁ = reply₂ ∧ s₁ = s₂ := by
  cases h₁ with
  | loadPlain | load | flush => cases h₂; exact ⟨rfl, rfl⟩
  | call m hx =>
    cases h₂ with
    | call n hy => cases rig.call_unique hx hy; exact ⟨rfl, rfl⟩
  | apply m hx =>
    cases h₂ with
    | apply n hy => cases rig.apply_unique hx hy; exact ⟨rfl, rfl⟩

/-- **The steps of a session determine its replies and where it ends.** -/
theorem Rig.Runs.unique {rig : Rig σ ρ} {s s₁ s₂ : Session σ} {steps : List Step}
    {replies₁ replies₂ : List (Reply ρ)} (h₁ : rig.Runs s steps replies₁ s₁)
    (h₂ : rig.Runs s steps replies₂ s₂) : replies₁ = replies₂ ∧ s₁ = s₂ := by
  induction h₁ generalizing replies₂ s₂ with
  | done => cases h₂; exact ⟨rfl, rfl⟩
  | step first rest ih =>
    cases h₂ with
    | step first' rest' =>
      obtain ⟨rfl, rfl⟩ := first.unique first'
      obtain ⟨rfl, rfl⟩ := ih rest'
      exact ⟨rfl, rfl⟩

/-- What every step keeps, a session keeps. -/
theorem Rig.Runs.keeps {rig : Rig σ ρ} {allowed : Step → Prop} {kept : Session σ → Prop}
    {good : Reply ρ → Prop}
    (hdoes : ∀ {s step reply s'}, allowed step → kept s → rig.Does s step reply s' →
      kept s' ∧ good reply)
    {s s' : Session σ} {steps : List Step} {replies : List (Reply ρ)}
    (hsteps : ∀ step ∈ steps, allowed step) (h : rig.Runs s steps replies s') (hs : kept s) :
    kept s' ∧ ∀ reply ∈ replies, good reply := by
  induction h with
  | done => exact ⟨hs, by simp⟩
  | step first rest ih =>
    simp only [List.mem_cons, forall_eq_or_imp] at hsteps ⊢
    obtain ⟨hnext, hreply⟩ := hdoes hsteps.1 hs first
    obtain ⟨hend, hreplies⟩ := ih hsteps.2 hnext
    exact ⟨hend, hreply, hreplies⟩

/-! ## Answers, step by step -/

section Answers

variable {rig : Rig σ ρ} {s : Session σ} {steps : List Step}
  {answers : List (Except HostError Value × Array String)}

theorem Rig.answers_nil : rig.Answers s [] answers ↔ answers = [] := by
  constructor
  · rintro ⟨replies, s', hruns, rfl⟩
    cases hruns
    rfl
  · rintro rfl
    exact ⟨[], s, .done s, rfl⟩

theorem Rig.answers_loadPlain {p : Program} :
    rig.Answers s (.loadPlain p :: steps) answers ↔
      rig.Answers { s with machine := s.machine.loadPlain p } steps answers := by
  constructor
  · rintro ⟨replies, s', hruns, rfl⟩
    cases hruns with
    | step first rest =>
      cases first
      exact ⟨_, _, rest, rfl⟩
  · rintro ⟨replies, s', hruns, rfl⟩
    exact ⟨_, _, .step (.loadPlain s p) hruns, rfl⟩

theorem Rig.answers_load {p : InstrumentedProgram} :
    rig.Answers s (.load p :: steps) answers ↔
      rig.Answers ⟨(rig.load p s.machine s.record).1, s.heap, (rig.load p s.machine s.record).2⟩
        steps answers := by
  constructor
  · rintro ⟨replies, s', hruns, rfl⟩
    cases hruns with
    | step first rest =>
      cases first
      exact ⟨_, _, rest, rfl⟩
  · rintro ⟨replies, s', hruns, rfl⟩
    exact ⟨_, _, .step (.load s p) hruns, rfl⟩

theorem Rig.answers_flush :
    rig.Answers s (.flush :: steps) answers ↔
      rig.Answers { s with record := (rig.flush s.record).2 } steps answers := by
  constructor
  · rintro ⟨replies, s', hruns, rfl⟩
    cases hruns with
    | step first rest =>
      cases first
      exact ⟨_, _, rest, rfl⟩
  · rintro ⟨replies, s', hruns, rfl⟩
    exact ⟨_, _, .step (.flush s) hruns, rfl⟩

theorem Rig.answers_call {name : String} {args : List Value} :
    rig.Answers s (.call name args :: steps) answers ↔
      ∃ fuel result s' rest, rig.call s name args fuel = some (result, s') ∧
        rig.Answers s' steps rest ∧ answers = (result, s'.machine.output) :: rest := by
  constructor
  · rintro ⟨replies, s', hruns, rfl⟩
    cases hruns with
    | step first rest =>
      cases first with
      | call fuel h => exact ⟨fuel, _, _, _, h, ⟨_, _, rest, rfl⟩, rfl⟩
  · rintro ⟨fuel, result, s', rest, h, ⟨replies, s'', hruns, rfl⟩, rfl⟩
    exact ⟨_, _, .step (.call fuel h) hruns, rfl⟩

theorem Rig.answers_apply {callee : Value} {args : List Value} :
    rig.Answers s (.apply callee args :: steps) answers ↔
      ∃ fuel result s' rest, rig.apply s callee args fuel = some (result, s') ∧
        rig.Answers s' steps rest ∧ answers = (result, s'.machine.output) :: rest := by
  constructor
  · rintro ⟨replies, s', hruns, rfl⟩
    cases hruns with
    | step first rest =>
      cases first with
      | apply fuel h => exact ⟨fuel, _, _, _, h, ⟨_, _, rest, rfl⟩, rfl⟩
  · rintro ⟨fuel, result, s', rest, h, ⟨replies, s'', hruns, rfl⟩, rfl⟩
    exact ⟨_, _, .step (.apply fuel h) hruns, rfl⟩

/-- The calls of a session have one list of answers at most. -/
theorem Rig.Answers.unique {answers' : List (Except HostError Value × Array String)}
    (h : rig.Answers s steps answers) (h' : rig.Answers s steps answers') : answers = answers' := by
  obtain ⟨replies, s₁, hruns, rfl⟩ := h
  obtain ⟨replies', s₂, hruns', rfl⟩ := h'
  rw [(hruns.unique hruns').1]

end Answers

end SpanCoverage.Host
