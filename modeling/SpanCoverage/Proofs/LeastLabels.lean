import SpanCoverage.Proofs.Acceptance
import SpanCoverage.Proofs.EnteredLabels

/-!
# The least labels

The labels that a walk reaches depend on those it starts from, and a label could keep itself alive:
a jump to it may stand in code that only this label makes live.  The repetition starts from no label
at all, so it does not come to such labels.  Each of its walks starts from more labels than the walk
before, and none of them from more than any closed set of labels has.

The main results are:

* `Repeats.increasing` — each walk starts from all labels of the walks before, and from a new one.
* `Repeats.least` — no walk starts from a label outside of a closed set.
* `repetition_settles_least` — the repetition ends, and with the least closed set of labels.
-/

namespace SpanCoverage.Analysis

section Repeats

variable {root : Node} {entered : List String} {starts : List (List String)}

/-- Each walk reaches the labels it starts from. -/
theorem Repeats.grows (h : Repeats root entered starts) (hgrow : entered ⊆ reached root entered) :
    ∀ start ∈ starts, start ⊆ reached root start := by
  induction h with
  | last => simpa using hgrow
  | next _ _ ih =>
    rw [List.forall_mem_cons]
    exact ⟨hgrow, ih (reached_mono hgrow)⟩

/-- Every walk starts from the labels of the first one. -/
theorem Repeats.first_subset (h : Repeats root entered starts)
    (hgrow : entered ⊆ reached root entered) : ∀ start ∈ starts, entered ⊆ start := by
  induction h with
  | last => simp
  | next _ _ ih =>
    rw [List.forall_mem_cons]
    exact ⟨List.Subset.refl _,
      fun start hstart => List.Subset.trans hgrow (ih (reached_mono hgrow) start hstart)⟩

/-- **Each walk starts from all labels of the walks before it, and from a new one.** -/
theorem Repeats.increasing (h : Repeats root entered starts)
    (hgrow : entered ⊆ reached root entered) :
    starts.Pairwise fun earlier later => earlier ⊆ later ∧ ¬ later ⊆ earlier := by
  induction h with
  | last => exact List.pairwise_singleton _ _
  | @next entered starts hnew rest ih =>
    refine List.pairwise_cons.2 ⟨fun start hstart => ?_, ih (reached_mono hgrow)⟩
    have hreached : reached root entered ⊆ start :=
      rest.first_subset (reached_mono hgrow) start hstart
    obtain ⟨l, hl, hl'⟩ := exists_new_of_not_same hgrow hnew
    exact ⟨List.Subset.trans hgrow hreached, fun hsub => hl' (hsub (hreached hl))⟩

/-- **No walk starts from a label outside of a closed set**, if the first one does not. -/
theorem Repeats.least (h : Repeats root entered starts) {ls : List String}
    (hclosed : reached root ls ⊆ ls) (hentered : entered ⊆ ls) : ∀ start ∈ starts, start ⊆ ls := by
  induction h with
  | last => simpa using hentered
  | next _ _ ih =>
    rw [List.forall_mem_cons]
    exact ⟨hentered, ih (List.Subset.trans (reached_mono hentered) hclosed)⟩

/-- Labels that walks reach from each other only are those of no walk. -/
theorem Repeats.avoids (h : Repeats root entered starts) {circular : String → Prop}
    (hcircular : ∀ ls, (∀ l ∈ ls, ¬ circular l) → ∀ l ∈ reached root ls, ¬ circular l)
    (hentered : ∀ l ∈ entered, ¬ circular l) : ∀ start ∈ starts, ∀ l ∈ start, ¬ circular l := by
  induction h with
  | last => simpa using hentered
  | next _ _ ih =>
    rw [List.forall_mem_cons]
    exact ⟨hentered, ih (hcircular _ hentered)⟩

end Repeats

/-- **The repetition ends, with the least closed set of labels.**  It takes at most one walk more
than the unit has labels, and until its last walk each walk reaches more labels than it starts from.
The labels that it comes to are closed under walks and are in every closed set of labels, so a label
that is reached only where it, or others like it, are entered already is not among them. -/
theorem repetition_settles_least {body : CodeUnit} (h : ∀ u ∈ body.all, u.WellFormed) :
    ∀ u ∈ body.all, ∃ starts, Repeats u.root [] starts ∧
      starts.length ≤ u.root.labelsWithin.length + 1 ∧
      (∀ start ∈ starts, start ⊆ reached u.root start) ∧
      (starts.Pairwise fun earlier later => earlier ⊆ later ∧ ¬ later ⊆ earlier) ∧
      starts.getLast? = some (enteredLabels u.root) ∧
      reached u.root (enteredLabels u.root) ⊆ enteredLabels u.root ∧
      (∀ ls, reached u.root ls ⊆ ls → enteredLabels u.root ⊆ ls) ∧
      ∀ circular : String → Prop,
        (∀ ls, (∀ l ∈ ls, ¬ circular l) → ∀ l ∈ reached u.root ls, ¬ circular l) →
          ∀ l ∈ enteredLabels u.root, ¬ circular l := by
  intro u hu
  have hdefects := CodeUnit.defects_eq_nil_iff_wellFormed.2 (h u hu)
  obtain ⟨starts, hrepeats, hlast, hlength⟩ := enteredLabels_repeats hdefects
  have hfound := List.mem_of_getLast? hlast
  have hlabels := (labelsFound u.root (CodeUnit.wellFormed hdefects).1 0).length_eq
  refine ⟨starts, hrepeats, ?_, hrepeats.grows nofun, hrepeats.increasing nofun, hlast,
    hrepeats.closed hlast, ?_, ?_⟩
  · rw [Node.labelsWithin, hlabels]
    exact hlength
  · exact fun ls hclosed => hrepeats.least hclosed nofun _ hfound
  · exact fun circular hcircular => hrepeats.avoids hcircular nofun _ hfound

/-! ## An example -/

/-- A unit that jumps forward and back again.  Nothing enters its last label but a jump behind that
label itself. -/
def roundabout : CodeUnit where
  token := ⟨0x06000001⟩
  name := "roundabout"
  range := .none
  root := .seq [
    .stmt (.goto "far") .none,
    .label "near" .none, .stmt (.ret none) .none,
    .label "far" .none, .stmt (.goto "near") .none,
    .label "loop" .none, .stmt (.goto "loop") .none]

theorem roundabout_settles :
    (∀ u ∈ roundabout.all, u.WellFormed) ∧
      ∃ starts, Repeats roundabout.root [] starts ∧ starts.length ≤ 4 ∧
        starts.getLast? = some ["far", "near"] ∧
        ∀ ls, reached roundabout.root ls ⊆ ls → ["far", "near"] ⊆ ls := by
  have hunits : ∀ u ∈ roundabout.all, u.WellFormed := by decide
  obtain ⟨starts, hrepeats, hlength, -, -, hlast, -, hleast, -⟩ :=
    repetition_settles_least hunits roundabout List.mem_cons_self
  exact ⟨hunits, starts, hrepeats, hlength, hlast, hleast⟩

end SpanCoverage.Analysis
