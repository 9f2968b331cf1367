import SpanCoverage.Proofs.EnteredLabels
import SpanCoverage.Proofs.Sites

/-!
# Overlooked loops

A loop that tests after its rounds evaluates its condition behind its update, also where the update
ends with a `continue`.  The analysis looks only at whether the update falls through, while for the
loop's body it takes a `continue` into account (`Analysis.updateLive`).  So the header of some loops
has no point although their condition is evaluated.  These loops are the **overlooked** ones.

The main result is `CodeUnit.not_header_of_overlooked`: the points of a unit hold no header of an
overlooked loop.
-/

namespace SpanCoverage

/-- Whether a loop tests behind an update that ends with a `continue` only, so that its condition is
evaluated but has no point. -/
def Analysis.overlooksHeader (entered : List String) : Node → Bool
  | .loop .after _ _ u b _ =>
    let update := exits? entered (updateLive (exits entered true b)) u
    update.continues && !update.falls
  | _ => false

/-- The labels that live jumps of the unit enter. -/
abbrev CodeUnit.entered (u : CodeUnit) : List String := Analysis.enteredLabels u.root

/-- The sites of the unit's overlooked loops. -/
def CodeUnit.overlooked (u : CodeUnit) : List Nat :=
  ((u.root.sited 0).filter fun p => Analysis.overlooksHeader u.entered p.2).map Prod.fst

theorem CodeUnit.mem_overlooked {u : CodeUnit} {site : Nat} :
    site ∈ u.overlooked ↔
      ∃ n, (site, n) ∈ u.root.sited 0 ∧ Analysis.overlooksHeader u.entered n = true := by
  simp only [overlooked, List.mem_map, List.mem_filter]
  constructor
  · rintro ⟨⟨_, n⟩, h, rfl⟩
    exact ⟨n, h⟩
  · rintro ⟨n, h⟩
    exact ⟨(site, n), h, rfl⟩

namespace Analysis

/-- The headers among these points are those of loops among these nodes that are not overlooked. -/
def HeadersSeen (entered : List String) (points : List Point) (nodes : List (Nat × Node)) : Prop :=
  ∀ p ∈ points, p.kind = .loopHeader →
    ∃ n, (p.site, n) ∈ nodes ∧ overlooksHeader entered n = false

section HeadersSeen

variable {entered : List String} {points points' : List Point} {nodes nodes' : List (Nat × Node)}

theorem HeadersSeen.nil : HeadersSeen entered [] nodes := by
  intro p hp
  cases hp

theorem HeadersSeen.append (h : HeadersSeen entered points nodes)
    (h' : HeadersSeen entered points' nodes) : HeadersSeen entered (points ++ points') nodes := by
  intro p hp
  rcases List.mem_append.1 hp with hp | hp
  · exact h p hp
  · exact h' p hp

theorem HeadersSeen.mono (h : HeadersSeen entered points nodes) (hsub : nodes ⊆ nodes') :
    HeadersSeen entered points nodes' := by
  intro p hp hkind
  obtain ⟨n, hn, hseen⟩ := h p hp hkind
  exact ⟨n, hsub hn, hseen⟩

theorem mem_mark {live : Bool} {kind : SpanKind} {site : Nat} {range : SourceRange} {p : Point} :
    p ∈ mark live kind site range ↔ live = true ∧ p = ⟨kind, site, range⟩ := by
  cases live <;> simp [mark]

/-- What is no header matters not. -/
theorem HeadersSeen.mark {live : Bool} {kind : SpanKind} {site : Nat} {range : SourceRange}
    (h : kind ≠ .loopHeader) : HeadersSeen entered (mark live kind site range) nodes := by
  intro p hp hkind
  obtain ⟨-, rfl⟩ := mem_mark.1 hp
  exact absurd hkind h

/-- A loop whose condition the analysis takes for live is not overlooked. -/
theorem not_overlooked_of_headerLive {test : TestTime} {i u : Option Node} {c : Expr} {b : Node}
    {range : SourceRange} {start : Bool}
    (h : headerLive test start (exits? entered
      (updateLive (exits entered (bodyLive test c start) b)) u) = true) :
    overlooksHeader entered (.loop test i c u b range) = false := by
  cases test with
  | before => rfl
  | after =>
    have same (n : Node) : Mono entered entered n := exits_mono (fun _ => id) n
    have body := same b (fun _ => rfl : bodyLive .after c start = true → true = true)
    have update := exits?_mono (e := u) (fun n _ => same n) (updateLive_mono body)
    have hfalls := update.falls h
    simp [overlooksHeader, hfalls]

/-- Wherever a tree stands, the headers among its points are those of loops in it that are not
overlooked. -/
def TreeSeen (entered : List String) (n : Node) : Prop :=
  ∀ live site, HeadersSeen entered (Analysis.points entered live site n) (n.sited site)

theorem points?_headersSeen {e : Option Node} (h : ∀ n ∈ e, TreeSeen entered n) (live : Bool)
    (site : Nat) : HeadersSeen entered (points? entered live site e) (Node.sited? site e) := by
  cases e with
  | none => exact .nil
  | some n => exact h n rfl live site

theorem pointsAll_headersSeen {ns : List Node} (h : ∀ n ∈ ns, TreeSeen entered n) (live : Bool)
    (site : Nat) :
    HeadersSeen entered (pointsAll entered live site ns) (Node.sitedAll site ns) := by
  induction ns generalizing live site with
  | nil => exact .nil
  | cons n ns ih =>
    simp only [List.mem_cons, forall_eq_or_imp] at h
    exact ((h.1 _ _).mono (List.subset_append_left _ _)).append
      ((ih h.2 _ _).mono (List.subset_append_right _ _))

theorem pointsArms_headersSeen {arms : List Arm} (h : ∀ a ∈ arms, TreeSeen entered a.body)
    (live : Bool) (site : Nat) :
    HeadersSeen entered (pointsArms entered live site arms) (Node.sitedArms site arms) := by
  induction arms generalizing site with
  | nil => exact .nil
  | cons a arms ih =>
    obtain ⟨case, body, range⟩ := a
    simp only [List.mem_cons, forall_eq_or_imp] at h
    have entry : HeadersSeen entered (Analysis.mark live .switchArm site range)
        (Node.sitedArms site (⟨case, body, range⟩ :: arms)) := .mark (by simp)
    exact (entry.append ((h.1 _ _).mono (List.subset_append_left _ _))).append
      ((ih h.2 _).mono (List.subset_append_right _ _))

theorem pointsHandlers_headersSeen {handlers : List Handler}
    (h : ∀ a ∈ handlers, TreeSeen entered a.body) (live : Bool) (site : Nat) :
    HeadersSeen entered (pointsHandlers entered live site handlers)
      (Node.sitedHandlers site handlers) := by
  induction handlers generalizing site with
  | nil => exact .nil
  | cons a handlers ih =>
    obtain ⟨binding, body, range⟩ := a
    simp only [List.mem_cons, forall_eq_or_imp] at h
    have entry : HeadersSeen entered (Analysis.mark live .catchEntry site range)
        (Node.sitedHandlers site (⟨binding, body, range⟩ :: handlers)) := .mark (by simp)
    exact (entry.append ((h.1 _ _).mono (List.subset_append_left _ _))).append
      ((ih h.2 _).mono (List.subset_append_right _ _))

theorem markFinally_headersSeen {live : Bool} {site : Nat} (f : Option Node) :
    HeadersSeen entered (markFinally live site f) nodes := by
  cases f with
  | none => exact .nil
  | some n => exact .mark (by simp)

theorem loop_headersSeen {test : TestTime} {i u : Option Node} {c : Expr} {b : Node}
    {range : SourceRange} (hi : ∀ n ∈ i, TreeSeen entered n) (hu : ∀ n ∈ u, TreeSeen entered n)
    (hb : TreeSeen entered b) : TreeSeen entered (.loop test i c u b range) := by
  intro live site
  have header : HeadersSeen entered
      (Analysis.mark (headerLive test (exits? entered live i).falls (exits? entered (updateLive
        (exits entered (bodyLive test c (exits? entered live i).falls) b)) u))
        .loopHeader site range)
      ((Node.loop test i c u b range).sited site) := by
    intro p hp _
    obtain ⟨hlive, rfl⟩ := mem_mark.1 hp
    exact ⟨_, List.mem_cons_self, not_overlooked_of_headerLive hlive⟩
  have before := points?_headersSeen hi live (site + 1)
  have update := points?_headersSeen hu
  refine (before.mono fun q hq => by simp [Node.sited, hq]).append ?_
  cases test with
  | before =>
    refine header.append (((hb _ _).mono fun q hq => ?_).append
      ((update _ _).mono fun q hq => ?_))
    all_goals simp [Node.sited, hq]
  | after =>
    refine (((hb _ _).mono fun q hq => ?_).append ((update _ _).mono fun q hq => ?_)).append
      header
    all_goals simp [Node.sited, hq]

end HeadersSeen

/-- **A header among the points of a tree is that of a loop that is not overlooked.** -/
theorem points_headersSeen (entered : List String) (n : Node) : TreeSeen entered n := by
  induction n using Node.induct with
  | stmt | label => exact fun live site => .mark (by simp)
  | seq ns ih =>
    intro live site
    exact (pointsAll_headersSeen ih _ _).mono (List.subset_cons_self _ _)
  | branch c t e range iht ihe =>
    intro live site
    refine ((HeadersSeen.mark (by simp)).append ((iht _ _).mono fun q hq => ?_)).append
      ((points?_headersSeen ihe _ _).mono fun q hq => ?_)
    · simp [Node.sited, hq]
    · simp [Node.sited, hq]
  | loop test i c u b range ihi ihu ihb => exact loop_headersSeen ihi ihu ihb
  | switch value arms range ih =>
    intro live site
    exact (HeadersSeen.mark (by simp)).append
      ((pointsArms_headersSeen ih _ _).mono (List.subset_cons_self _ _))
  | attempt b handlers f range ihb ihh ihf =>
    intro live site
    refine ((HeadersSeen.append ((ihb _ _).mono fun q hq => ?_)
      ((pointsHandlers_headersSeen ihh _ _).mono fun q hq => ?_)).append
        (markFinally_headersSeen f)).append
        ((points?_headersSeen ihf _ _).mono fun q hq => ?_)
    all_goals simp [Node.sited, hq]
  | guarded kind resource b range ihb =>
    intro live site
    exact (HeadersSeen.mark (by simp)).append ((ihb _ _).mono (List.subset_cons_self _ _))
  | nested | probe | acquire => exact fun _ _ => .nil

end Analysis

/-- **The points of a unit hold no header of an overlooked loop.** -/
theorem CodeUnit.not_header_of_overlooked {u : CodeUnit} {site : Nat} (h : site ∈ u.overlooked) :
    ∀ p ∈ u.points, p.site = site → p.kind ≠ .loopHeader := by
  intro p hp hsite hkind
  obtain ⟨n, hn, hover⟩ := mem_overlooked.1 h
  rcases List.mem_cons.1 hp with rfl | hp
  · cases hkind
  · obtain ⟨m, hm, hseen⟩ := Analysis.points_headersSeen u.entered u.root true 0 p hp hkind
    rw [hsite] at hm
    rw [Node.sited_unique hn hm, hseen] at hover
    cases hover

end SpanCoverage
