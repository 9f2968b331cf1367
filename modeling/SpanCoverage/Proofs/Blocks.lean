import SpanCoverage.Host.Eval
import SpanCoverage.Injection.Splice

/-!
# Blocks behind probes

Injection puts probes in front of blocks.  A block that is a sequence takes them among its nodes,
every other block becomes the last node of a new sequence, and a boundary leaves its sequence.  This
file says what the host does with such blocks: the probes run first, and then the block goes on as
if they were not there, labels included.

The main results are:

* `exec_behind` — the probes in front of a block run first, whatever the block is.
* `fromLabel?_spliceAll` — a jump finds its label in a spliced sequence where it finds it in the
  sequence itself, with the same code behind it.
-/

namespace SpanCoverage.Host

open Injection

variable {τ : Type}

/-! ## Probes in front of a block -/

/-- The marks of a unit's probes, from the first on. -/
def Recorder.markAll (r : Recorder τ) (unit : MethodToken) (spans : List Nat) (t : τ) : τ :=
  spans.foldl (fun t span => r.mark unit span t) t

/-- The mark of a unit's probe, where there is one. -/
def Recorder.markAt (r : Recorder τ) (unit : MethodToken) (span : Option Nat) : τ → τ :=
  r.markAll unit span.toList

/-- The marks of two lists of probes are made one list after the other. -/
theorem Recorder.onRecord_markAll_append (r : Recorder τ) (unit : MethodToken)
    (spans spans' : List Nat) :
    Run.onRecord (r.markAll unit (spans ++ spans')) =
      (Run.onRecord (r.markAll unit spans) >>= fun _ => Run.onRecord (r.markAll unit spans')) := by
  have h : r.markAll unit (spans ++ spans') =
      fun t => r.markAll unit spans' (r.markAll unit spans t) := by
    funext t
    exact List.foldl_append
  rw [h]
  rfl

/-- A block behind several probes. -/
def behind : List Nat → Node → Node
  | [], n => n
  | span :: spans, n => behindProbe (some span) (behind spans n)

theorem behindProbe_behind (span : Option Nat) (spans : List Nat) (n : Node) :
    behindProbe span (behind spans n) = behind (span.toList ++ spans) n := by
  cases span <;> rfl

theorem asBlock_eq_behind (place : Placement) (site : Nat) (source n : Node) :
    asBlock place site source n = behind (lead place site source).toList n := by
  unfold asBlock
  cases lead place site source <;> rfl

theorem behind_seq (spans : List Nat) (ns : List Node) :
    behind spans (.seq ns) = .seq (spans.map .probe ++ ns) := by
  induction spans with
  | nil => rfl
  | cons span spans ih => simp only [behind, ih, behindProbe, List.map_cons, List.cons_append]

/-- A block that is no sequence becomes the last node of one. -/
theorem behind_cons (span : Nat) (spans : List Nat) (n : Node) (h : ∀ ns, n ≠ .seq ns) :
    behind (span :: spans) n = .seq ((span :: spans).map .probe ++ [n]) := by
  induction spans generalizing span with
  | nil =>
    cases n with
    | seq ns => exact absurd rfl (h ns)
    | _ => rfl
  | cons next spans ih =>
    rw [behind, ih next]
    rfl

theorem any_isLabel_probes (label : String) (spans : List Nat) (ns : List Node) :
    (spans.map Node.probe ++ ns).any (·.isLabel label) = ns.any (·.isLabel label) := by
  induction spans with
  | nil => rfl
  | cons span spans ih =>
    show ((Node.probe span).isLabel label || (spans.map Node.probe ++ ns).any _) = _
    rw [ih]
    rfl

section Blocks

variable (r : Recorder τ) (s : Resume τ) (frame : Frame)

/-- Probes at the start of a list of nodes only make their marks. -/
theorem execAll_probes (whole : List Node) (wholeSite site : Nat) (spans : List Nat)
    (ns : List Node) :
    execAll r s frame whole wholeSite site (spans.map Node.probe ++ ns) =
      (do
        Run.onRecord (r.markAll frame.unit spans)
        execAll r s frame whole wholeSite (site + spans.length) ns) := by
  induction spans generalizing site with
  | nil => rfl
  | cons span spans ih =>
    have hsite : site + (span :: spans).length = site + 1 + spans.length := by
      simp only [List.length_cons]
      omega
    rw [hsite]
    show (do
        Run.onRecord (r.mark frame.unit span)
        execAll r s frame whole wholeSite (site + 1) (spans.map Node.probe ++ ns)) = _
    rw [ih]
    rfl

/-- The last node of a list without labels decides how the list ends. -/
theorem execAll_singleton (whole : List Node) (wholeSite site : Nat) (n : Node)
    (h : ∀ label, whole.any (·.isLabel label) = false) :
    execAll r s frame whole wholeSite site [n] = exec r s frame site n := by
  have ends : execAll r s frame whole wholeSite site [n] = exec r s frame site n >>= pure := by
    simp only [execAll]
    congr 1
    funext flow
    cases flow with
    | jumping label => simp only [h, Bool.false_eq_true, if_false]
    | normal | breaking | continuing | returning => rfl
  rw [ends, bind_pure]

/-- What is left of a block behind its probes: a sequence still has them among its nodes, so that a
jump to one of its labels goes on in the longer sequence. -/
def execBehind (spans : List Nat) (site : Nat) : Node → Run τ Flow
  | .seq ns =>
    execAll r s frame (spans.map .probe ++ ns) (site + 1) (site + 1 + spans.length) ns
  | n => exec r s frame site n

@[simp] theorem execBehind_nil (site : Nat) (n : Node) :
    execBehind r s frame [] site n = exec r s frame site n := by
  cases n <;> rfl

/-- **The probes in front of a block run first, whatever the block is.** -/
theorem exec_behind (spans : List Nat) (site : Nat) (n : Node)
    (h : ∀ label, n.isLabel label = false) :
    ∃ site', exec r s frame site (behind spans n) =
      (do
        Run.onRecord (r.markAll frame.unit spans)
        execBehind r s frame spans site' n) := by
  by_cases hseq : ∃ ns, n = .seq ns
  · obtain ⟨ns, rfl⟩ := hseq
    refine ⟨site, ?_⟩
    rw [behind_seq]
    exact execAll_probes r s frame _ _ _ spans ns
  · have hn : ∀ ns, n ≠ .seq ns := fun ns e => hseq ⟨ns, e⟩
    have hexec : ∀ site, execBehind r s frame spans site n = exec r s frame site n := by
      intro site
      cases n with
      | seq ns => exact absurd rfl (hn ns)
      | _ => rfl
    cases spans with
    | nil => exact ⟨site, by rw [hexec]; rfl⟩
    | cons span spans =>
      refine ⟨site + 1 + (span :: spans).length, ?_⟩
      rw [behind_cons span spans n hn, hexec]
      show execAll r s frame _ _ _ ((span :: spans).map Node.probe ++ [n]) = _
      rw [execAll_probes, execAll_singleton]
      intro label
      rw [any_isLabel_probes, List.any_cons, h label]
      rfl

end Blocks

/-! ## Spliced nodes -/

theorem probeNodes_eq (span : Option Nat) : probeNodes span = span.toList.map Node.probe := by
  cases span <;> rfl

theorem isLabel_splice (place : Placement) (site : Nat) (label : String) (n : Node) :
    (splice place site n).isLabel label = n.isLabel label := by
  cases n <;> rfl

/-- Splicing neither adds nor removes a label of a sequence. -/
theorem any_isLabel_spliceAll (place : Placement) (site : Nat) (label : String) (ns : List Node) :
    (spliceAll place site ns).any (·.isLabel label) = ns.any (·.isLabel label) := by
  induction ns generalizing site with
  | nil => rfl
  | cons n ns ih =>
    have probe (span : Option Nat) : (probeNodes span).any (·.isLabel label) = false := by
      cases span <;> rfl
    have child : (asChild place site n (splice place site n)).any (·.isLabel label) =
        n.isLabel label := by
      have hs := isLabel_splice place site label n
      cases n with
      | nested header root => rfl
      | label name range =>
        simp only [asChild, List.any_cons, probe, Bool.or_false]
        exact hs
      | _ =>
        simp only [asChild, List.any_append, List.any_cons, List.any_nil, probe, Bool.or_false,
          Bool.false_or]
        exact hs
    rw [spliceAll, List.any_append, ih, child, List.any_cons]

/-- A label is found in a sequence exactly if it is found in the sequence spliced, and what follows
it there is what follows it here, spliced. -/
theorem fromLabel?_spliceAll (place : Placement) (label : String) (site site' : Nat)
    (ns : List Node) :
    ∃ found, fromLabel? label site' (spliceAll place site ns) =
      (fromLabel? label site ns).map fun p => (found, spliceAll place p.1 p.2) := by
  have skip (site' : Nat) (n : Node) (ns : List Node) (h : n.isLabel label = false) :
      fromLabel? label site' (n :: ns) = fromLabel? label (site' + n.siteCount) ns := by
    simp [fromLabel?, h]
  have skipProbes (span : Option Nat) (site' : Nat) (ns : List Node) :
      fromLabel? label site' (probeNodes span ++ ns) =
        fromLabel? label (site' + (probeNodes span).length) ns := by
    cases span <;> rfl
  induction ns generalizing site site' with
  | nil => exact ⟨0, rfl⟩
  | cons n ns ih =>
    by_cases hl : n.isLabel label = true
    · cases n with
      | label name range =>
        refine ⟨site', ?_⟩
        have hname : name = label := by simpa [Node.isLabel] using hl
        simp [fromLabel?, Node.isLabel, hname, spliceAll, asChild, splice]
      | _ => simp [Node.isLabel] at hl
    · have hl : n.isLabel label = false := by simpa using hl
      have hs := (isLabel_splice place site label n).trans hl
      rw [skip _ _ _ hl, spliceAll]
      cases n with
      | nested header root => exact ih _ _
      | label name range =>
        show ∃ found, fromLabel? label site' ((splice place site (.label name range)
          :: probeNodes (place site .label)) ++ _) = _
        rw [List.cons_append, skip _ _ _ hs, skipProbes]
        exact ih _ _
      | _ =>
        simp only [asChild, List.append_assoc, List.singleton_append]
        rw [skipProbes, skip _ _ _ hs]
        exact ih _ _

theorem fromLabel?_probes (label : String) (site : Nat) (spans : List Nat) (ns : List Node) :
    fromLabel? label site (spans.map .probe ++ ns) =
      fromLabel? label (site + spans.length) ns := by
  induction spans generalizing site with
  | nil => rfl
  | cons span spans ih =>
    show fromLabel? label (site + 1) (spans.map Node.probe ++ ns) = _
    rw [ih]
    congr 1
    simp only [List.length_cons]
    omega

/-- What follows a label of a sequence is part of the sequence. -/
theorem mem_of_fromLabel? {label : String} {site found : Nat} {ns rest : List Node}
    (h : fromLabel? label site ns = some (found, rest)) : ∀ n ∈ rest, n ∈ ns := by
  induction ns generalizing site with
  | nil => cases h
  | cons n ns ih =>
    by_cases hl : n.isLabel label = true
    · simp only [fromLabel?, hl, if_true, Option.some.injEq, Prod.mk.injEq] at h
      obtain ⟨-, rfl⟩ := h
      exact fun _ h => h
    · simp only [fromLabel?, hl] at h
      exact fun x hx => List.mem_cons_of_mem _ (ih h x hx)

/-- What the root of a spliced unit does: it creates the payload, makes its marks, and runs. -/
theorem exec_spliceRoot (r : Recorder τ) (s : Resume τ) (frame : Frame) (p : Placement)
    (root : Node) (site : Nat) (hroot : ∀ label, root.isLabel label = false) :
    ∃ site', exec r s frame site (spliceRoot p root) =
      (do
        Run.onRecord fun t =>
          r.markAt frame.unit (p 0 .entry) (r.acquire frame.unit frame.payloadLength t)
        Run.onRecord (r.markAt frame.unit (lead p 0 root))
        exec r s frame site' (splice p 0 root)) := by
  refine ⟨site + 1 + 1 + (p 0 .entry).toList.length + (lead p 0 root).toList.length, ?_⟩
  show (Run.onRecord (r.acquire frame.unit frame.payloadLength) >>= fun _ =>
    execAll r s frame _ _ (site + 1 + 1)
      (probeNodes (p 0 .entry) ++ probeNodes (lead p 0 root) ++ [splice p 0 root])) = _
  simp only [probeNodes_eq, List.append_assoc]
  rw [execAll_probes, execAll_probes, execAll_singleton]
  · rfl
  · intro label
    have hs := (isLabel_splice p 0 label root).trans (hroot label)
    show (Node.acquire.isLabel label || (_ ++ (_ ++ [splice p 0 root])).any _) = false
    rw [any_isLabel_probes, any_isLabel_probes, List.any_cons, hs]
    rfl

end SpanCoverage.Host
