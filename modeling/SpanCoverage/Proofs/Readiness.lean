import SpanCoverage.Proofs.Determinism
import SpanCoverage.Proofs.Hereditary
import SpanCoverage.Proofs.Loading
import SpanCoverage.Proofs.Registration

/-!
# Machines behind their calls

A call can stop in the middle of anything: arguments are half evaluated, loops and `try` blocks are
open, units are active in units.  However it stops, the machine is ready for the next call.  All
that the call changed is what it is there to change: lines were printed, and empty slots filled.

The depth of a machine is the part of this that has to be worked for, since it goes up and down with
every activation.  The log of a run says which units are active at a moment: `activeAfter` follows
the entries and exits like a stack, and there is no answer if a unit is left that was not the one
entered last.

The main results are:

* `Hereditary.within` — a relation of worlds that every single change respects is respected by all
  runs; so output and slots only grow.
* `balanced_hereditary` — every run that ends leaves as many units active as it found, and at no
  moment are there more than the limit allows.
* `calls_leave_ready` — a call leaves the machine ready for the next one.
-/

namespace SpanCoverage.Host

variable {σ α β : Type}

/-! ## Relations that runs respect -/

/-- A relation of worlds that holds between the worlds before and behind every single change. -/
structure Respects (r : Recorder σ) (T : World σ → World σ → Prop) : Prop where
  refl : ∀ w, T w w
  trans : ∀ {w w' w''}, T w w' → T w' w'' → T w w''
  heap : ∀ w heap, T w { w with heap := heap }
  print : ∀ w line, T w { w with output := w.output.push line }
  depth : ∀ w depth, T w { w with depth := depth }
  note : ∀ w event, T w { w with record := r.note event w.record }
  acquire : ∀ w unit length, T w { w with record := r.acquire unit length w.record }
  mark : ∀ w unit span, T w { w with record := r.mark unit span w.record }

/-- A run that takes every world to a related one. -/
def Run.Within (T : World σ → World σ → Prop) (x : Run σ α) : Prop := ∀ w, T w (x w).2

section Within

variable {r : Recorder σ} {T : World σ → World σ → Prop}

theorem Run.Within.bind (hT : Respects r T) {x : Run σ α} {f : α → Run σ β} (hx : x.Within T)
    (hf : ∀ a, (f a).Within T) : (x >>= f).Within T := by
  intro w
  rw [Run.bind_apply]
  have hfirst := hx w
  generalize x w = p at hfirst ⊢
  rcases p with ⟨_ | _ | a, w'⟩
  · exact hfirst
  · exact hfirst
  · exact hT.trans hfirst (hf a w')

theorem Run.Within.outcome {x : Run σ α} (hx : x.Within T) : x.outcome.Within T := by
  intro w
  have hfirst := hx w
  unfold Run.outcome
  generalize x w = p at hfirst ⊢
  rcases p with ⟨_ | _, w'⟩ <;> exact hfirst

/-- An activation makes a scope, counts up, and counts down again. -/
theorem activate_within (hT : Respects r T) {s : Resume σ} {u : LoadedUnit}
    (body : ∀ frame, (exec r s frame 0 u.unit.root).Within T) (outer : Option Scope)
    (args : List Value) : (activate r s u outer args).Within T := by
  have noted (event : Event) : (Run.onRecord (r.note event)).Within T := fun w => hT.note w event
  have read : (Run.read World.depth : Run σ Nat).Within T := fun w => hT.refl w
  refine Run.Within.bind hT ?_ fun scope => ?_
  · refine Run.Within.bind hT (fun w => hT.heap w _) fun scope => ?_
    exact Run.Within.bind hT (fun w => hT.depth w _) fun _ w => hT.refl w
  refine Run.Within.bind hT ?_ fun _ => Run.Within.bind hT (body _).outcome fun outcome => ?_
  · exact read.bind hT fun depth => (noted _).bind hT fun _ => noted _
  refine Run.Within.bind hT ?_ fun _ w => hT.refl w
  exact Run.Within.bind hT (fun w => hT.depth w _) fun _ => read.bind hT fun depth => noted _

/-- **What every single change respects, runs respect.** -/
theorem Hereditary.within (hT : Respects r T) (maxDepth : Nat) :
    Hereditary maxDepth r (Run.Within T) where
  conclude _ w := hT.refl w
  exhausted w := hT.refl w
  read _ w := hT.refl w
  onHeap _ w := hT.heap w _
  print line w := hT.print w line
  reached _ _ _ w := hT.note w _
  failed _ w := hT.note w _
  acquire unit length w := hT.acquire w unit length
  mark unit span w := hT.mark w unit span
  bind := Run.Within.bind hT
  outcome := Run.Within.outcome
  activation hrefuse hanswer body outer args := by
    refine Run.Within.bind hT (fun w => hT.refl w) fun depth => ?_
    split
    · exact hrefuse depth
    · exact (activate_within hT body outer args).bind hT hanswer

end Within

/-! ## Output and slots -/

/-- A slot that is filled keeps its array when a unit creates its payload. -/
theorem slotArray?_acquire {m : Machine} {memory : Memory} {slot : SlotId} {array : ArrayId}
    (h : memory.slotArray? slot = some array) (token : MethodToken) (length : Nat) :
    (m.recorder.acquire token length memory).slotArray? slot = some array := by
  have hcases := m.acquires token length memory
  generalize m.recorder.acquire token length memory = memory' at hcases ⊢
  cases hcases with
  | undeclared | filled | unfit => exact h
  | @fresh empty hslot hempty =>
    have hne : empty ≠ slot := by
      rintro rfl
      cases hempty.symm.trans h
    show (memory.slots.setIfInBounds empty _).getD slot none = some array
    rw [Array.getD_eq_getD_getElem?, Array.getElem?_setIfInBounds, if_neg hne,
      ← Array.getD_eq_getD_getElem?]
    exact h

theorem slotArray?_mark {m : Machine} {memory : Memory} {slot : SlotId} {array : ArrayId}
    (h : memory.slotArray? slot = some array) (token : MethodToken) (span : Nat) :
    (m.recorder.mark token span memory).slotArray? slot = some array := by
  cases harray : arrayOf? m.slots memory token with
  | none =>
    rw [mark_of_none harray]
    exact h
  | some _ =>
    rw [mark_of_array harray]
    exact h

/-- From a world to a later one: lines are only added, and filled slots keep their arrays. -/
structure Grows (w w' : World Memory) : Prop where
  printed : w.output.toList <+: w'.output.toList
  kept : ∀ slot array, w.record.slotArray? slot = some array →
    w'.record.slotArray? slot = some array

/-- Output and slots only grow, whatever a machine does. -/
theorem grows_respects (m : Machine) : Respects m.recorder Grows where
  refl _ := ⟨List.prefix_rfl, fun _ _ => id⟩
  trans h h' :=
    ⟨h.printed.trans h'.printed, fun slot array ha => h'.kept _ _ (h.kept slot array ha)⟩
  heap _ _ := ⟨List.prefix_rfl, fun _ _ => id⟩
  print w line := ⟨by simp, fun _ _ => id⟩
  depth _ _ := ⟨List.prefix_rfl, fun _ _ => id⟩
  note _ _ := ⟨List.prefix_rfl, fun _ _ => id⟩
  acquire _ unit length := ⟨List.prefix_rfl, fun _ _ h => slotArray?_acquire h unit length⟩
  mark _ unit span := ⟨List.prefix_rfl, fun _ _ h => slotArray?_mark h unit span⟩

/-! ## Active units -/

/-- The units that are active behind an event, the one entered last in front. Only that one can be
left. -/
def Event.activates : Event → List MethodToken → Option (List MethodToken)
  | .entered unit _, active => some (unit :: active)
  | .left unit _, top :: active => if top = unit then some active else none
  | .left _ _, [] => none
  | .reached .., active | .failed _, active => some active

/-- The units that are active behind the events of a log, the one entered last in front. -/
def activeAfter (events : List Event) : Option (List MethodToken) :=
  events.foldlM (fun active event => event.activates active) []

/-- The depth of the machine behind an event, from the depth before it. -/
def Event.depth : Nat → Event → Nat
  | _, .entered _ depth | _, .left _ depth => depth
  | depth, .reached .. | depth, .failed _ => depth

/-- The depth of the machine behind the events of a log that began at some depth. -/
def depthAfter (start : Nat) (events : List Event) : Nat := events.foldl Event.depth start

/-- At every moment of a log that began at some depth, the depth has grown by the number of units
that are active, and it is within the limit, unless it was above the limit before. -/
def Tallies (start limit : Nat) (events : List Event) : Prop :=
  ∀ past, past <+: events → ∃ active, activeAfter past = some active ∧
    depthAfter start past = start + active.length ∧ depthAfter start past ≤ max start limit

theorem activeAfter_concat (events : List Event) (event : Event) :
    activeAfter (events ++ [event]) = (activeAfter events).bind event.activates := by
  simp [activeAfter, List.foldlM_append]

theorem depthAfter_concat (start : Nat) (events : List Event) (event : Event) :
    depthAfter start (events ++ [event]) = event.depth (depthAfter start events) := by
  simp [depthAfter]

section Counts

variable {start limit : Nat} {active : List MethodToken} {w : World Log}

/-- The log of a world tallies, these are the units that are active, and the depth of the machine is
the depth behind the log. -/
structure World.Counts (start limit : Nat) (active : List MethodToken) (w : World Log) : Prop where
  tallies : Tallies start limit w.record.events
  active_eq : activeAfter w.record.events = some active
  depth_eq : depthAfter start w.record.events = w.depth

/-- The depth counts the active units. -/
theorem World.Counts.depth (h : w.Counts start limit active) : w.depth = start + active.length := by
  obtain ⟨units, hunits, hdepth, -⟩ := h.tallies _ List.prefix_rfl
  rw [h.active_eq] at hunits
  cases hunits
  exact h.depth_eq.symm.trans hdepth

/-- The depth is within the limit, unless it was above the limit before. -/
theorem World.Counts.le_limit (h : w.Counts start limit active) : w.depth ≤ max start limit := by
  obtain ⟨-, -, -, hlimit⟩ := h.tallies _ List.prefix_rfl
  exact h.depth_eq ▸ hlimit

/-- One more event keeps the count if it fits the units that are active. -/
theorem World.Counts.note (h : w.Counts start limit active) (event : Event)
    {next : List MethodToken} (hnext : event.activates active = some next)
    (hdepth : event.depth w.depth = start + next.length)
    (hlimit : event.depth w.depth ≤ max start limit) (heap : Heap) :
    World.Counts start limit next
      { w with heap := heap, depth := event.depth w.depth, record := w.record.note event } := by
  have hactive : activeAfter (w.record.events ++ [event]) = some next := by
    rw [activeAfter_concat, h.active_eq]
    exact hnext
  have hafter : depthAfter start (w.record.events ++ [event]) = event.depth w.depth := by
    rw [depthAfter_concat, h.depth_eq]
  refine ⟨fun past hpast => ?_, hactive, hafter⟩
  rcases List.prefix_concat_iff.1 hpast with rfl | hpast
  · exact ⟨next, hactive, hafter.trans hdepth, hafter.symm ▸ hlimit⟩
  · exact h.tallies past hpast

/-- What is noted between entries and exits keeps the count. -/
theorem World.Counts.noteWithin (h : w.Counts start limit active) (event : Event)
    (hactive : event.activates active = some active) (hdepth : event.depth w.depth = w.depth) :
    World.Counts start limit active { w with record := w.record.note event } := by
  have hnote := h.note event hactive (hdepth.trans h.depth) (hdepth.symm ▸ h.le_limit) w.heap
  rw [hdepth] at hnote
  exact hnote

/-- A unit is entered below the limit. -/
theorem World.Counts.enter (h : w.Counts start limit active) (hlimit : w.depth < limit)
    (unit : MethodToken) (heap : Heap) :
    World.Counts start limit (unit :: active)
      { w with heap := heap, depth := w.depth + 1,
               record := w.record.note (.entered unit (w.depth + 1)) } := by
  have hdepth : w.depth + 1 = start + (unit :: active).length := by
    rw [h.depth, List.length_cons]
    omega
  have hbelow : w.depth + 1 ≤ max start limit := by omega
  exact h.note (.entered unit (w.depth + 1)) rfl hdepth hbelow heap

/-- The unit entered last is left. -/
theorem World.Counts.leave {unit : MethodToken} (h : w.Counts start limit (unit :: active)) :
    World.Counts start limit active
      { w with depth := w.depth - 1, record := w.record.note (.left unit (w.depth - 1)) } := by
  have hdepth := h.depth
  rw [List.length_cons] at hdepth
  have hafter : w.depth - 1 = start + active.length := by omega
  have hbelow : w.depth - 1 ≤ max start limit := Nat.le_trans (Nat.sub_le ..) h.le_limit
  exact h.note (.left unit (w.depth - 1)) (if_pos rfl) hafter hbelow w.heap

/-- What changes neither depth nor log keeps the count. -/
theorem World.Counts.congr (h : w.Counts start limit active) {w' : World Log}
    (hdepth : w'.depth = w.depth) (hrecord : w'.record = w.record) :
    w'.Counts start limit active := by
  obtain ⟨htallies, hactive, hafter⟩ := h
  rw [← hrecord] at htallies hactive hafter
  exact ⟨htallies, hactive, hafter.trans hdepth.symm⟩

/-! ## Runs that keep count -/

/-- How a run leaves a world in which some units were active: it counts, and the same units are
active if the run ended. -/
def Settles (start limit : Nat) (active : List MethodToken)
    (p : Option (Except Abort α) × World Log) : Prop :=
  ∃ units, p.2.Counts start limit units ∧ (p.1.isSome → units = active)

/-- A run that keeps count. -/
def Run.Balanced (start limit : Nat) (x : Run Log α) : Prop :=
  ∀ active w, w.Counts start limit active → Settles start limit active (x w)

theorem Settles.bind {x : Run Log α} {f : α → Run Log β} (hx : Settles start limit active (x w))
    (hf : ∀ a w', w'.Counts start limit active → Settles start limit active (f a w')) :
    Settles start limit active ((x >>= f) w) := by
  rw [Run.bind_apply]
  obtain ⟨units, hunits, hends⟩ := hx
  generalize x w = p at hunits hends ⊢
  rcases p with ⟨_ | _ | a, w'⟩
  · exact ⟨units, hunits, nofun⟩
  · exact ⟨units, hunits, fun _ => hends rfl⟩
  · obtain rfl := hends rfl
    exact hf a w' hunits

/-- Behind the outcome of a run, the same units are active as where it ended. -/
theorem Settles.behind {x : Run Log α} {mid : List MethodToken} {f : Except Abort α → Run Log β}
    (hx : Settles start limit mid (x w))
    (hf : ∀ o w', w'.Counts start limit mid → Settles start limit active (f o w')) :
    Settles start limit active ((x.outcome >>= f) w) := by
  rw [Run.bind_apply]
  unfold Run.outcome
  obtain ⟨units, hunits, hends⟩ := hx
  generalize x w = p at hunits hends ⊢
  rcases p with ⟨_ | outcome, w'⟩
  · exact ⟨units, hunits, nofun⟩
  · obtain rfl := hends rfl
    exact hf outcome w' hunits

theorem World.Counts.settles (h : w.Counts start limit active) (o : Option (Except Abort α)) :
    Settles start limit active (o, w) :=
  ⟨active, h, fun _ => rfl⟩

/-- **An activation leaves as many units active as it found.** Its body runs with one more unit. -/
theorem activate_settles {s : Resume Log} {u : LoadedUnit}
    (body : ∀ frame, (exec .log s frame 0 u.unit.root).Balanced start limit) (outer : Option Scope)
    (args : List Value) (h : w.Counts start limit active) (hlimit : w.depth < limit) :
    Settles start limit active (activate .log s u outer args w) := by
  let token := u.unit.token
  let scope := (w.heap.newScope outer).1
  let heap := (w.heap.newScope outer).2.defineAll scope u.unit.params args
  let frame : Frame := ⟨token, scope, u.payloadLength⟩
  have hentered := (h.enter hlimit token heap).noteWithin (.reached token 0 .entry) rfl rfl
  have hleft (outcome : Except Abort Flow) (w' : World Log)
      (hw' : w'.Counts start limit (token :: active)) :
      Settles start limit active
        ((leave .log token >>= fun _ => Run.conclude outcome : Run Log Flow) w') :=
    hw'.leave.settles (some outcome)
  exact (body frame _ _ hentered).behind hleft

/-- **Every run of every code keeps count.** -/
theorem balanced_hereditary (start limit : Nat) :
    Hereditary limit .log (Run.Balanced start limit) where
  conclude o _ _ h := h.settles (some o)
  exhausted _ _ h := h.settles none
  read _ _ _ h := h.settles _
  onHeap f active w h := by
    have hheap : World.Counts start limit active { w with heap := (f w.heap).2 } := h.congr rfl rfl
    exact hheap.settles _
  print line active w h := by
    have hprinted : World.Counts start limit active { w with output := w.output.push line } :=
      h.congr rfl rfl
    exact hprinted.settles _
  reached unit site kind _ _ h := (h.noteWithin (.reached unit site kind) rfl rfl).settles _
  failed error _ _ h := (h.noteWithin (.failed error) rfl rfl).settles _
  acquire _ _ _ _ h := (h.congr rfl rfl).settles _
  mark _ _ _ _ h := (h.congr rfl rfl).settles _
  bind hx hf active w h := (hx active w h).bind fun a => hf a active
  outcome {_ x} hx active w h := by
    rw [← bind_pure x.outcome]
    exact (hx active w h).behind fun o w' hw' => hw'.settles (some (.ok o))
  activation hrefuse hanswer body outer args active w h := by
    by_cases hlimit : limit ≤ w.depth
    · simpa [Run.bind_apply, Run.read, hlimit] using hrefuse w.depth active w h
    · have hentered := activate_settles body outer args h (Nat.lt_of_not_le hlimit)
      simpa [Run.bind_apply, Run.read, hlimit] using hentered.bind fun flow => hanswer flow active

end Counts

/-! ## Calls -/

/-- The machine behind a call is the machine before it, and so are its slots, but for lines that
were printed and slots that were filled. -/
structure Machine.Restored (m : Machine) (memory : Memory) (m' : Machine) (memory' : Memory) :
    Prop where
  depth_eq : m'.depth = m.depth
  code_eq : m'.code = m.code
  names_eq : m'.names = m.names
  moduleId_eq : m'.moduleId = m.moduleId
  slots_eq : m'.slots = m.slots
  kept : ∀ slot array, memory.slotArray? slot = some array → memory'.slotArray? slot = some array
  printed : ∃ lines, m'.output.toList = m.output.toList ++ lines

/-- The run of a call, as far as it gets with some fuel. -/
def Machine.callRun (m : Machine) (shared : Shared) (callee : Value) (args : List Value)
    (fuel : Nat) : Option (Except Abort Value) × World Memory :=
  (steps m.code m.recorder (fuel + 1)).call callee args
    ⟨shared.heap, m.output, m.depth, shared.memory⟩

/-- The same run, with a log. -/
def Machine.callLog (m : Machine) (shared : Shared) (callee : Value) (args : List Value)
    (fuel : Nat) : Option (Except Abort Value) × World Log :=
  (steps m.code .log (fuel + 1)).call callee args ⟨shared.heap, m.output, m.depth, {}⟩

/-- At every moment of a call the depth counts the units that are active. Where the call has got
with some fuel, its depth is the depth behind its log, and the log tallies. Between the events of
the log it is the parts of the code that keep count, each of them from end to end. -/
structure Machine.KeepsCount (m : Machine) (shared : Shared) (callee : Value) (args : List Value)
    (fuel : Nat) : Prop where
  outcome_eq : (m.callRun shared callee args fuel).1 = (m.callLog shared callee args fuel).1
  depth_eq : (m.callRun shared callee args fuel).2.depth =
    depthAfter m.depth (m.callLog shared callee args fuel).2.record.events
  tallies : Tallies m.depth m.code.maxDepth (m.callLog shared callee args fuel).2.record.events
  expr : ∀ frame e, (eval .log (steps m.code .log fuel) frame e).Balanced m.depth m.code.maxDepth
  node : ∀ frame site n,
    (exec .log (steps m.code .log fuel) frame site n).Balanced m.depth m.code.maxDepth
  step : Hereditary.Steps (Run.Balanced m.depth m.code.maxDepth) (steps m.code .log fuel)

/-- The log of a call shows the call as it is. -/
theorem Machine.callLog_like (m : Machine) (shared : Shared) (callee : Value) (args : List Value)
    (fuel : Nat) :
    (m.callRun shared callee args fuel).1 = (m.callLog shared callee args fuel).1 ∧
      (m.callRun shared callee args fuel).2.depth =
        (m.callLog shared callee args fuel).2.depth := by
  have hrecorders : m.recorder.Like (fun _ _ => True) .log :=
    ⟨fun _ _ _ => id, fun _ _ _ _ => id, fun _ _ _ _ => id⟩
  have hsteps : (steps m.code m.recorder (fuel + 1)).Like False (fun _ _ => True)
      (steps m.code .log (fuel + 1)) := steps_like hrecorders m.code (.inl rfl)
  have hlike := hsteps.call callee args ⟨shared.heap, m.output, m.depth, shared.memory⟩
    ⟨shared.heap, m.output, m.depth, {}⟩ ⟨rfl, rfl, rfl, trivial⟩
  obtain ⟨houtcome, hworld⟩ := hlike.resolve_left And.left
  exact ⟨houtcome, hworld.depth⟩

/-- No unit is active in a log that has not begun. -/
theorem counts_start (limit : Nat) (heap : Heap) (output : Array String) (depth : Nat) :
    World.Counts depth limit [] ⟨heap, output, depth, {}⟩ := by
  refine ⟨fun past hpast => ⟨[], ?_⟩, rfl, rfl⟩
  obtain rfl := List.prefix_nil.1 hpast
  exact ⟨rfl, rfl, Nat.le_max_left ..⟩

theorem Machine.callLog_settles (m : Machine) (shared : Shared) (callee : Value)
    (args : List Value) (fuel : Nat) :
    Settles m.depth m.code.maxDepth [] (m.callLog shared callee args fuel) :=
  (Hereditary.steps (balanced_hereditary m.depth m.code.maxDepth) _).call callee args [] _
    (counts_start ..)

theorem Machine.keepsCount (m : Machine) (shared : Shared) (callee : Value) (args : List Value)
    (fuel : Nat) : m.KeepsCount shared callee args fuel := by
  have hbalanced := balanced_hereditary m.depth m.code.maxDepth
  have hsteps : Hereditary.Steps _ (steps m.code .log fuel) := hbalanced.steps fuel
  obtain ⟨houtcome, hdepth⟩ := m.callLog_like shared callee args fuel
  obtain ⟨units, hcounts, -⟩ := m.callLog_settles shared callee args fuel
  exact ⟨houtcome, hdepth.trans hcounts.depth_eq.symm, hcounts.tallies,
    fun _ => hbalanced.eval hsteps, fun _ site n => hbalanced.exec hsteps n site, hsteps⟩

/-- A call that ends leaves the depth as it was. -/
theorem Machine.depth_callRun {m : Machine} {shared : Shared} {callee : Value} {args : List Value}
    {fuel : Nat} {outcome : Except Abort Value} {w : World Memory}
    (h : m.callRun shared callee args fuel = (some outcome, w)) : w.depth = m.depth := by
  obtain ⟨houtcome, hdepth⟩ := m.callLog_like shared callee args fuel
  obtain ⟨units, hcounts, hends⟩ := m.callLog_settles shared callee args fuel
  rw [h] at houtcome hdepth
  rw [← houtcome] at hends
  obtain rfl := hends rfl
  exact hdepth.trans hcounts.depth

theorem Machine.restored_apply {m m' : Machine} {shared shared' : Shared} {callee : Value}
    {args : List Value} {fuel : Nat} {answer : Except HostError Value}
    (h : m.apply shared callee args fuel = some (answer, m', shared')) :
    m.Restored shared.memory m' shared'.memory := by
  rw [Machine.apply_eq] at h
  obtain ⟨⟨result, s'⟩, happly, hends⟩ := Option.map_eq_some_iff.1 h
  obtain ⟨outcome, w, hrun, -, rfl⟩ := Rig.apply_some happly
  cases hends
  have hgrows : Grows _ (m.callRun shared callee args fuel).2 :=
    (Hereditary.steps (.within (grows_respects m) m.code.maxDepth) _).call callee args _
  have hcallRun : m.callRun shared callee args fuel = (some outcome, w) := hrun
  rw [hcallRun] at hgrows
  obtain ⟨lines, hlines⟩ := hgrows.printed
  exact ⟨depth_callRun hcallRun, rfl, rfl, rfl, rfl, hgrows.kept, lines, hlines.symm⟩

theorem Machine.restored_call {m m' : Machine} {shared shared' : Shared} {name : String}
    {args : List Value} {fuel : Nat} {answer : Except HostError Value}
    (h : m.call shared name args fuel = some (answer, m', shared')) :
    m.Restored shared.memory m' shared'.memory := by
  unfold Machine.call at h
  cases hname : m.names.get? name with
  | some token =>
    rw [hname] at h
    exact restored_apply h
  | none =>
    rw [hname] at h
    cases h
    exact ⟨rfl, rfl, rfl, rfl, rfl, fun _ _ => id, [], (List.append_nil _).symm⟩

/-- No step of a session changes the depth of its machine. -/
theorem Rig.Does.depth_eq {s s' : Session Memory} {step : Step} {reply : Reply Report}
    (h : Rig.payloads.Does s step reply s') : s'.machine.depth = s.machine.depth := by
  have called {callee : Value} {args : List Value} {fuel : Nat} {result : Except HostError Value}
      (h : Rig.payloads.apply s callee args fuel = some (result, s')) :
      s'.machine.depth = s.machine.depth := by
    obtain ⟨outcome, w, hrun, -, rfl⟩ := Rig.apply_some h
    have hcallRun : s.machine.callRun ⟨s.heap, s.record⟩ callee args fuel = (some outcome, w) :=
      hrun
    exact Machine.depth_callRun hcallRun
  cases h with
  | loadPlain p => exact (s.machine.loadPlain_keeps p).2
  | load p => exact (s.machine.load_keeps s.record p).2
  | call fuel h =>
    rcases Rig.call_some h with ⟨token, h⟩ | ⟨-, rfl⟩
    · exact called h
    · rfl
  | apply fuel h => exact called h
  | flush => rfl

/-- So between its steps no unit is active. -/
theorem Rig.Runs.depth_eq {s s' : Session Memory} {steps : List Step}
    {replies : List (Reply Report)} (h : Rig.payloads.Runs s steps replies s') :
    s'.machine.depth = s.machine.depth := by
  induction h with
  | done => rfl
  | step first rest ih => exact ih.trans first.depth_eq

/-- **A call leaves the machine ready for the next one**, whatever its outcome: machine and slots
are restored but for lines that were printed and slots that were filled. At every moment of the call
the depth counts the units that are active, and it is within the limit; between the steps of a
session no unit is active. -/
theorem calls_leave_ready (m : Machine) (shared : Shared) (args : List Value) (fuel : Nat) :
    (∀ callee answer m' shared', m.apply shared callee args fuel = some (answer, m', shared') →
      m.Restored shared.memory m' shared'.memory) ∧
    (∀ name answer m' shared', m.call shared name args fuel = some (answer, m', shared') →
      m.Restored shared.memory m' shared'.memory) ∧
    (∀ callee, m.KeepsCount shared callee args fuel) ∧
    ∀ maxDepth steps replies s,
      Rig.payloads.Runs (.fresh maxDepth shared.heap shared.memory) steps replies s →
        s.machine.depth = 0 := by
  refine ⟨fun _ _ _ _ => Machine.restored_apply, fun _ _ _ _ => Machine.restored_call,
    fun callee => m.keepsCount shared callee args fuel, fun maxDepth steps replies s h => ?_⟩
  exact h.depth_eq

/-- A program that calls itself until the host fails, and prints on the way back. -/
def plunging : Program where
  name := "plunging"
  units := [⟨{ token := ⟨0x06000001⟩, name := "main", range := .none },
    .attempt (.stmt (.eval (.call (.function ⟨0x06000001⟩) [])) .none) []
      (some (.stmt (.print (.const (.str "up"))) .none)) .none⟩]

/-- A machine that has loaded the program, and lets units be active two deep. -/
def plungingMachine : Machine := Machine.loadPlain { code := { maxDepth := 2 } } plunging

/-- The call fails below two activations, and the machine is ready again. -/
theorem plunging_recovers : ∃ m' shared',
    plungingMachine.call {} "main" [] 4 = some (.error (.stackOverflow 2), m', shared') ∧
      m'.output = #["up", "up"] ∧ plungingMachine.Restored {} m' shared'.memory := by
  have hcall : (plungingMachine.call {} "main" [] 4).map (fun (answer, m', _) =>
      (answer, m'.output)) = some (.error (.stackOverflow 2), #["up", "up"]) := by
    decide +kernel
  obtain ⟨⟨answer, m', shared'⟩, hends, hreply⟩ := Option.map_eq_some_iff.1 hcall
  obtain ⟨rfl, houtput⟩ := Prod.mk.inj hreply
  exact ⟨m', shared', hends, houtput, (calls_leave_ready plungingMachine {} [] 4).2.1 _ _ _ _ hends⟩

end SpanCoverage.Host
