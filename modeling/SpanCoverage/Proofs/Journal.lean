import SpanCoverage.Host.Fleet
import SpanCoverage.Proofs.Determinism

/-!
# Journals

A journal says what the machines of a process did: which units each of them entered, in the order of
the first entries, and which spans it marked since the last flush.  It is kept beside the payload
memory, and nothing that runs reads it.  So every session with payload memory is one with a journal,
and the journal says what happened in it.

The main results are:

* `Rig.journaled_does`, `Rig.journaled_runs` — every session of a machine with payload memory is one
  with a journal, with the same replies.
* `Fleet.journaled_runs` — so is every session with several machines.
-/

namespace SpanCoverage.Host

/-! ## Journals -/

/-- What the machines of a process did. -/
structure Journal (κ : Type) where
  /-- The units that each machine entered, in the order of the first entries. -/
  entries : List (κ × MethodToken) := []
  /-- The spans that each machine marked since the last flush. -/
  marks : List (κ × MethodToken × Nat) := []
deriving DecidableEq

namespace Journal

variable {κ : Type}

/-- A machine enters a unit. -/
def enter [DecidableEq κ] (k : κ) (unit : MethodToken) (j : Journal κ) : Journal κ :=
  if (k, unit) ∈ j.entries then j else { j with entries := j.entries ++ [(k, unit)] }

theorem mem_enter [DecidableEq κ] {j : Journal κ} {k : κ} {unit : MethodToken}
    {e : κ × MethodToken} : e ∈ (j.enter k unit).entries ↔ e = (k, unit) ∨ e ∈ j.entries := by
  unfold enter
  by_cases h : (k, unit) ∈ j.entries
  · rw [if_pos h, iff_or_self]
    rintro rfl
    exact h
  · rw [if_neg h, List.mem_append, List.mem_singleton, or_comm]

/-- A machine marks a span of a unit. -/
def mark (k : κ) (unit : MethodToken) (span : Nat) (j : Journal κ) : Journal κ :=
  { j with marks := j.marks ++ [(k, unit, span)] }

/-- The journal after an event on a machine; only entries are written down. -/
def note [DecidableEq κ] (k : κ) : Event → Journal κ → Journal κ
  | .entered unit _ => enter k unit
  | .left .. | .reached .. | .failed _ => id

end Journal

/-! ## Machines with a journal -/

/-- The recorder of a machine's runs that keeps a journal besides. -/
def Machine.journaled {κ : Type} [DecidableEq κ] (m : Machine) (k : κ) :
    Recorder (Journal κ × Memory) where
  note event s := (s.1.note k event, s.2)
  acquire unit length s := (s.1, m.recorder.acquire unit length s.2)
  mark unit span s := (s.1.mark k unit span, m.recorder.mark unit span s.2)

/-- A machine with payload memory and a journal.  A flush answers the report together with the
journal, where the marks are those that the report is about. -/
def Rig.journaled {κ : Type} [DecidableEq κ] (k : κ) :
    Rig (Journal κ × Memory) (Journal κ × Report) where
  load p m s := ((m.load s.2 p).1, s.1, (m.load s.2 p).2)
  recorder m := m.journaled k
  flush s := ((s.1, s.2.flush.1), { s.1 with marks := [] }, s.2.flush.2)

/-- The reply with something else for its report. -/
def Reply.map {ρ ω : Type} (f : ρ → ω) : Reply ρ → Reply ω
  | .loaded => .loaded
  | .answered result output => .answered result output
  | .flushed report => .flushed (f report)

/-- The session without its journal. -/
def Session.payloads {κ : Type} (s : Session (Journal κ × Memory)) : Session Memory :=
  ⟨s.machine, s.heap, s.record.2⟩

/-- The fleet without its journal. -/
def Fleet.payloads {κ : Type} (f : Fleet κ (Journal κ × Memory)) : Fleet κ Memory :=
  ⟨f.machines, f.heap, f.record.2⟩

section Journaled

variable {κ : Type} [DecidableEq κ] {k : κ}

/-- The journal does not show in the memory. -/
theorem Machine.journaled_like (m : Machine) (k : κ) :
    (m.journaled k).Like (fun s memory => s.2 = memory) m.recorder where
  note _ _ _ h := h
  acquire unit length _ _ h := congrArg (m.recorder.acquire unit length) h
  mark unit span _ _ h := congrArg (m.recorder.mark unit span) h

/-- The runs of calls are alike with and without a journal. -/
theorem Rig.journaled_callRun_like (s : Session (Journal κ × Memory)) (callee : Value)
    (args : List Value) (fuel : Nat) :
    Run.Like False (fun s memory => s.2 = memory) ((Rig.journaled k).callRun s callee args fuel)
      (Rig.payloads.callRun s.payloads callee args fuel) :=
  (steps_like (s.machine.journaled_like k) s.machine.code (.inl rfl)).call callee args

/-- The memory in the course of a call is the same with and without a journal. -/
theorem Rig.journaled_callRun (s : Session (Journal κ × Memory)) (callee : Value)
    (args : List Value) (fuel : Nat) :
    ((Rig.journaled k).callRun s callee args fuel s.world).2.record.2 =
      (Rig.payloads.callRun s.payloads callee args fuel s.payloads.world).2.record := by
  have hworld : s.world.Like (fun s memory => s.2 = memory) s.payloads.world :=
    ⟨rfl, rfl, rfl, rfl⟩
  rcases Rig.journaled_callRun_like (k := k) s callee args fuel _ _ hworld with
    ⟨hlax, -⟩ | ⟨-, hlike⟩
  · exact hlax.elim
  · exact hlike.record

/-- Calls end alike with and without a journal. -/
theorem Rig.journaled_apply (s : Session (Journal κ × Memory)) (callee : Value) (args : List Value)
    (fuel : Nat) :
    EndAlike (fun s t => s.payloads = t) ((Rig.journaled k).apply s callee args fuel)
      (Rig.payloads.apply s.payloads callee args fuel) := by
  have hrun := Rig.journaled_callRun_like (k := k) s callee args fuel
  have hlike : s.Like (fun s memory => s.2 = memory) s.payloads := ⟨rfl, rfl, rfl, rfl⟩
  refine Rig.apply_like hlike hrun fun w v hw => ?_
  simp only [Session.payloads, Session.after, hw.output, hw.depth, hw.heap, hw.record]

theorem Rig.journaled_call (s : Session (Journal κ × Memory)) (name : String) (args : List Value)
    (fuel : Nat) :
    EndAlike (fun s t => s.payloads = t) ((Rig.journaled k).call s name args fuel)
      (Rig.payloads.call s.payloads name args fuel) :=
  Rig.call_like (P := fun s t => s.payloads = t) rfl rfl
    (fun callee => Rig.journaled_apply s callee args fuel) name

/-- **A step with payload memory is a step with a journal.** -/
theorem Rig.journaled_does {s : Session (Journal κ × Memory)} {step : Step} {reply' : Reply Report}
    {t' : Session Memory} (h : Rig.payloads.Does s.payloads step reply' t') :
    ∃ reply s', (Rig.journaled k).Does s step reply s' ∧ reply.map Prod.snd = reply' ∧
      s'.payloads = t' := by
  cases h with
  | loadPlain p => exact ⟨_, _, .loadPlain s p, rfl, rfl⟩
  | load p => exact ⟨_, _, .load s p, rfl, rfl⟩
  | flush => exact ⟨_, _, .flush s, rfl, rfl⟩
  | apply fuel happly =>
    obtain ⟨s', hs', rfl⟩ := (Rig.journaled_apply s _ _ fuel).of_right happly
    exact ⟨_, s', .apply fuel hs', rfl, rfl⟩
  | call fuel hcall =>
    obtain ⟨s', hs', rfl⟩ := (Rig.journaled_call s _ _ fuel).of_right hcall
    exact ⟨_, s', .call fuel hs', rfl, rfl⟩

/-- **A session with payload memory is a session with a journal.** -/
theorem Rig.journaled_runs {s : Session (Journal κ × Memory)} {script : List Step}
    {replies' : List (Reply Report)} {t' : Session Memory}
    (h : Rig.payloads.Runs s.payloads script replies' t') :
    ∃ replies s', (Rig.journaled k).Runs s script replies s' ∧
      replies.map (Reply.map Prod.snd) = replies' ∧ s'.payloads = t' := by
  generalize ht : s.payloads = t at h
  induction h generalizing s with
  | done t =>
    subst ht
    exact ⟨[], s, .done s, rfl, rfl⟩
  | step first rest ih =>
    subst ht
    obtain ⟨reply, s₁, hdoes, rfl, hnext⟩ := Rig.journaled_does (k := k) first
    obtain ⟨replies, s', hruns, rfl, hend⟩ := ih hnext
    exact ⟨reply :: replies, s', .step hdoes hruns, rfl, hend⟩

/-- **A session of several machines with payload memory is a session with a journal.** -/
theorem Fleet.journaled_runs {f : Fleet κ (Journal κ × Memory)} {script : List (κ × Step)}
    {replies' : List (Reply Report)} {g' : Fleet κ Memory}
    (h : Fleet.Runs (fun _ => Rig.payloads) f.payloads script replies' g') :
    ∃ replies f', Fleet.Runs Rig.journaled f script replies f' ∧
      replies.map (Reply.map Prod.snd) = replies' ∧ f'.payloads = g' := by
  generalize hg : f.payloads = g at h
  induction h generalizing f with
  | done g =>
    subst hg
    exact ⟨[], f, .done f, rfl, rfl⟩
  | @step g g' k step steps reply' replies' t first rest ih =>
    subst hg
    obtain ⟨reply, s, hdoes, rfl, rfl⟩ := Rig.journaled_does (k := k) (s := f.session k) first
    obtain ⟨replies, f', hruns, rfl, hend⟩ := ih (f := f.put k s) rfl
    exact ⟨reply :: replies, f', .step hdoes hruns, rfl, hend⟩

end Journaled

end SpanCoverage.Host
