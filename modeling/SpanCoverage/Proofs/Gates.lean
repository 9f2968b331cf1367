import SpanCoverage.Proofs.DeadCode

/-!
# Gates

Control comes into a block of a unit only through certain points: into a branch through the
condition, into a handler through the handler's entry.  The points between a node and one of its
parts are the part's **gate**, and a point **opens** a site if it is in the gate of a part around
the site.  The entry of a unit opens all of it.

The main results are:

* `Guarded.part` — the points that open a part's sites are those that open the node's, those of the
  part's gate, and points inside of the part.
* `CodeUnit.has_of_opens` — a point that opens the site of a span has a span itself.
-/

namespace SpanCoverage

open Analysis

/-! ## What opens a site -/

/-- The points that control passes on its way from a node into the part at a site. -/
def Node.gate (n : Node) (site partSite : Nat) : List (Nat × SpanKind) :=
  match n with
  | .branch .. => [(site, .condition)]
  | .loop .before i _ _ _ _ =>
    if partSite < site + 1 + siteCount? i then [] else [(site, .loopHeader)]
  | .switch .. => [(site, .condition), (partSite, .switchArm)]
  | .attempt b handlers _ _ =>
    if partSite < site + 1 + b.siteCount then []
    else if partSite < site + 1 + b.siteCount + siteCountHandlers handlers then
      [(partSite, .catchEntry)]
    else [(partSite, .finallyEntry)]
  | .guarded .. => [(site, .scopeAcquire)]
  | .loop .after .. | .seq _ | .stmt .. | .label .. | .nested .. | .probe _ | .acquire => []

/-- A point that, inside of a tree, control passes on its way to a site. -/
def Analysis.Visit.Opens (entered : List String) (v : Visit) (key : Nat × SpanKind) (site : Nat) :
    Prop :=
  ∃ x, Walk entered v x ∧ ∃ w ∈ x.parts entered, site ∈ w.sites ∧ key ∈ x.node.gate x.site w.site

/-- A point that control passes on its way to a site of the unit. -/
def CodeUnit.Opens (u : CodeUnit) (key : Nat × SpanKind) (site : Nat) : Prop :=
  key = (0, .entry) ∨ u.start.Opens u.entered key site

namespace Analysis.Visit

variable {entered : List String} {v w : Visit} {key : Nat × SpanKind} {site : Nat}

/-- A point that opens a site of a tree is in the gate of a part, or inside of a part. -/
theorem Opens.part (h : v.Opens entered key site) :
    ∃ w ∈ v.parts entered, site ∈ w.sites ∧
      (key ∈ v.node.gate v.site w.site ∨ w.Opens entered key site) := by
  obtain ⟨x, hwalk, y, hy, hsite, hkey⟩ := h
  rcases hwalk.cases_head with rfl | ⟨w, hw, hrest⟩
  · exact ⟨y, hy, hsite, .inl hkey⟩
  · exact ⟨w, hw, Walk.sites_subset hrest (lt_of_mem_part hy hsite).1,
      .inr ⟨x, hrest, y, hy, hsite, hkey⟩⟩

/-- Nothing in a tree opens the tree's own site. -/
theorem not_opens_own : ¬ v.Opens entered key v.site := by
  intro h
  obtain ⟨w, hw, hsite, -⟩ := h.part
  exact Nat.lt_irrefl _ (lt_of_mem_part hw hsite).2

end Analysis.Visit

/-! ## Guarded trees -/

/-- What opens a site of the tree was seen, or it is in the tree. -/
def CodeUnit.Guarded (u : CodeUnit) (seen : (Nat × SpanKind) → Prop) (v : Visit) : Prop :=
  ∀ site ∈ v.sites, ∀ key, u.Opens key site → seen key ∨ v.Opens u.entered key site

namespace CodeUnit.Guarded

open Analysis.Visit

variable {u : CodeUnit} {seen seen' : (Nat × SpanKind) → Prop} {v w : Visit}

/-- The whole body, behind the entry of the unit. -/
theorem start (hseen : seen (0, .entry)) : u.Guarded seen u.start := by
  intro site _ key hkey
  rcases hkey with rfl | hkey
  · exact .inl hseen
  · exact .inr hkey

theorem mono (h : u.Guarded seen v) (hsub : ∀ key, seen key → seen' key) : u.Guarded seen' v :=
  fun site hsite key hkey => (h site hsite key hkey).imp (hsub key) id

/-- All that opens a tree's own site was seen. -/
theorem own (h : u.Guarded seen v) : ∀ key, u.Opens key v.site → seen key :=
  fun key hkey => (h v.site v.site_mem_sites key hkey).resolve_right not_opens_own

/-- **A part is guarded by what guards the node and by the part's gate.** -/
theorem part (h : u.Guarded seen v) (hw : w ∈ v.parts u.entered)
    (hseen : ∀ key, seen key ∨ key ∈ v.node.gate v.site w.site → seen' key) :
    u.Guarded seen' w := by
  intro site hsite key hkey
  rcases h site (lt_of_mem_part hw hsite).1 key hkey with hold | hopens
  · exact .inl (hseen key (.inl hold))
  · obtain ⟨x, hx, hin, hopens⟩ := hopens.part
    -- No other part has the site.
    obtain rfl : x = w := by
      by_contra hne
      exact sites_disjoint hx hw hne hin hsite
    exact hopens.imp (fun hgate => hseen key (.inr hgate)) id

end CodeUnit.Guarded

/-! ## Gates of live parts -/

namespace Analysis.Visit

section Lists

variable {live : Bool} {site : Nat} {w : Visit}

theorem mem_of? {e : Option Node} (hw : w ∈ of? live site e) :
    e = some w.node ∧ w = ⟨live, site, w.node⟩ := by
  cases e with
  | none => cases hw
  | some n =>
    obtain rfl := List.mem_singleton.1 hw
    exact ⟨rfl, rfl⟩

/-- The body of an arm: where it stands, and the entry of the arm. -/
theorem mem_ofArms (entered : List String) {arms : List Arm} (hw : w ∈ ofArms live site arms) :
    w.live = live ∧ site ≤ w.site ∧ w.site < site + Node.siteCountArms arms ∧
      ∃ range, mark live .switchArm w.site range ⊆ pointsArms entered live site arms := by
  induction arms generalizing site with
  | nil => cases hw
  | cons a arms ih =>
    obtain ⟨case, body, range⟩ := a
    have hpos := body.siteCount_pos
    rw [Node.siteCountArms, pointsArms]
    rcases List.mem_cons.1 hw with rfl | hw
    · refine ⟨rfl, Nat.le_refl _, by dsimp only; omega, range, ?_⟩
      exact List.subset_append_of_subset_left _ (List.subset_append_left _ _)
    · obtain ⟨hlive, hfirst, hlast, range', hmark⟩ := ih hw
      exact ⟨hlive, by omega, by omega, range', List.subset_append_of_subset_right _ hmark⟩

/-- The body of a handler: where it stands, and the entry of the handler. -/
theorem mem_ofHandlers (entered : List String) {handlers : List Handler}
    (hw : w ∈ ofHandlers live site handlers) :
    w.live = live ∧ site ≤ w.site ∧ w.site < site + Node.siteCountHandlers handlers ∧
      ∃ range, mark live .catchEntry w.site range ⊆ pointsHandlers entered live site handlers := by
  induction handlers generalizing site with
  | nil => cases hw
  | cons a handlers ih =>
    obtain ⟨binding, body, range⟩ := a
    have hpos := body.siteCount_pos
    rw [Node.siteCountHandlers, pointsHandlers]
    rcases List.mem_cons.1 hw with rfl | hw
    · refine ⟨rfl, Nat.le_refl _, by dsimp only; omega, range, ?_⟩
      exact List.subset_append_of_subset_left _ (List.subset_append_left _ _)
    · obtain ⟨hlive, hfirst, hlast, range', hmark⟩ := ih hw
      exact ⟨hlive, by omega, by omega, range', List.subset_append_of_subset_right _ hmark⟩

/-- Nothing is between a loop and what comes before its rounds. -/
theorem gate_init {test : TestTime} {i u : Option Node} {c : Expr} {b : Node} {r : SourceRange}
    (hw : w ∈ of? live (site + 1) i) : (Node.loop test i c u b r).gate site w.site = [] := by
  cases test with
  | after => rfl
  | before =>
    obtain ⟨hi, hw⟩ := mem_of? hw
    have hbefore : w.site < site + 1 + Node.siteCount? i := by
      rw [hi, hw, Node.siteCount?]
      exact Nat.lt_add_of_pos_right w.node.siteCount_pos
    simp only [Node.gate, if_pos hbefore]

section Attempt

variable {b : Node} {handlers : List Handler} {f : Option Node} {r : SourceRange}

/-- Nothing is between a `try` node and its block. -/
theorem gate_tried : (Node.attempt b handlers f r).gate site (site + 1) = [] :=
  if_pos (Nat.lt_add_of_pos_right b.siteCount_pos)

theorem gate_handler (hw : w ∈ ofHandlers live (site + 1 + b.siteCount) handlers) :
    (Node.attempt b handlers f r).gate site w.site = [(w.site, .catchEntry)] := by
  obtain ⟨-, hfirst, hlast, -⟩ := mem_ofHandlers [] hw
  simp only [Node.gate, if_neg (Nat.not_lt.2 hfirst), if_pos hlast]

theorem gate_finally
    (hw : w ∈ of? live (site + 1 + b.siteCount + Node.siteCountHandlers handlers) f) :
    (Node.attempt b handlers f r).gate site w.site = [(w.site, .finallyEntry)] := by
  have hsite := congrArg Visit.site (mem_of? hw).2
  dsimp only at hsite
  have hbody : ¬ w.site < site + 1 + b.siteCount := by omega
  have hhandlers : ¬ w.site < site + 1 + b.siteCount + Node.siteCountHandlers handlers := by omega
  simp only [Node.gate, if_neg hbody, if_neg hhandlers]

end Attempt

end Lists

end Analysis.Visit

namespace CodeUnit

open Analysis.Visit

variable {u : CodeUnit} {v w : Visit} {key : Nat × SpanKind}

/-- Where control comes to the rounds of a loop that tests first, it comes to the loop's header. -/
theorem start_of_live_rounds (h : u.defects = []) {live : Bool} {site : Nat} {i u' : Option Node}
    {c : Expr} {b : Node} {r : SourceRange}
    (hwalk : Walk u.entered u.start ⟨live, site, .loop .before i c u' b r⟩)
    (hw : w ∈ (⟨bodyLive .before c (exits? u.entered live i).falls,
        site + 1 + Node.siteCount? i, b⟩ : Visit)
      :: of? (updateLive (Analysis.exits u.entered
          (bodyLive .before c (exits? u.entered live i).falls) b))
        (site + 1 + Node.siteCount? i + b.siteCount) u')
    (hlive : w.live = true) : (exits? u.entered live i).falls = true := by
  by_contra hstart
  have hclosed : bodyLive .before c (exits? u.entered live i).falls = false := by
    rw [Bool.eq_false_iff.2 hstart]
    rfl
  have hbody := hwalk.tail (List.mem_append_right _ List.mem_cons_self)
  rw [hclosed] at hw hbody
  rcases List.mem_cons.1 hw with rfl | hw
  · cases hlive
  · have hplain : Plain b := by
      cases Walk.plain hwalk (wellFormed h).1 rfl with
      | loop _ _ _ hb => exact hb
    have hexits := (dormant_of_dead h hbody (.of_name hplain.labelName?_eq_none)).exits
    rw [hexits] at hw
    obtain ⟨-, hw⟩ := mem_of? hw
    rw [hw] at hlive
    cases hlive

/-- **The points in the gate of a live part are live.** -/
theorem gate_has (h : u.defects = []) (hwalk : Walk u.entered u.start v)
    (hw : w ∈ v.parts u.entered) (hlive : w.live = true)
    (hkey : key ∈ v.node.gate v.site w.site) : u.spanMap.spans.Has key.1 key.2 := by
  have found {kind : SpanKind} {site : Nat} {live : Bool} (range : SourceRange)
      (hmark : mark live kind site range ⊆ v.points u.entered) (hl : live = true) :
      u.spanMap.spans.Has site kind :=
    has_iff.2 ⟨range, point_of_walk hwalk (hmark (mem_mark.2 ⟨hl, rfl⟩))⟩
  obtain ⟨live, site, n⟩ := v
  cases n with
  | stmt | label | nested | probe | acquire => cases hw
  | seq => cases hkey
  | branch c t e r =>
    obtain rfl := List.mem_singleton.1 hkey
    have hv : live = true := by
      rcases List.mem_cons.1 hw with rfl | hw
      · exact (Bool.and_eq_true_iff.1 hlive).1
      · rw [(mem_of? hw).2] at hlive
        exact (Bool.and_eq_true_iff.1 hlive).1
    refine found r ?_ hv
    exact List.subset_append_of_subset_left _ (List.subset_append_left _ _)
  | loop test i c u' b r =>
    cases test with
    | after => cases hkey
    | before =>
      rcases List.mem_append.1 hw with hinit | hrounds
      · rw [gate_init hinit] at hkey
        cases hkey
      · have hstart := start_of_live_rounds h hwalk hrounds hlive
        simp only [Node.gate] at hkey
        split at hkey
        · cases hkey
        · obtain rfl := List.mem_singleton.1 hkey
          refine found r ?_ hstart
          exact List.subset_append_of_subset_right _ (List.subset_append_left _ _)
  | switch value arms r =>
    obtain ⟨hv, -, -, range, hmark⟩ := mem_ofArms u.entered hw
    obtain rfl : live = true := hv.symm.trans hlive
    rcases List.mem_cons.1 hkey with rfl | hkey
    · exact found r (List.subset_append_left _ _) rfl
    · obtain rfl := List.mem_singleton.1 hkey
      exact found range (List.subset_append_of_subset_right _ hmark) rfl
  | attempt b handlers f r =>
    simp only [parts, List.mem_append, List.mem_cons] at hw
    rcases hw with (rfl | hw) | hw
    · rw [gate_tried] at hkey
      cases hkey
    · rw [gate_handler hw] at hkey
      obtain rfl := List.mem_singleton.1 hkey
      obtain ⟨hv, -, -, range, hmark⟩ := mem_ofHandlers u.entered hw
      obtain rfl : live = true := hv.symm.trans hlive
      refine found range ?_ rfl
      refine List.subset_append_of_subset_left _ (List.subset_append_of_subset_left _ ?_)
      exact List.subset_append_of_subset_right _ hmark
    · rw [gate_finally hw] at hkey
      obtain rfl := List.mem_singleton.1 hkey
      obtain ⟨hf, hw⟩ := mem_of? hw
      have hsite := congrArg Visit.site hw
      have hv : live = true := (congrArg Visit.live hw).symm.trans hlive
      have hmark : mark live .finallyEntry w.site w.node.range =
          markFinally live (site + 1 + b.siteCount + Node.siteCountHandlers handlers) f := by
        rw [hf, hsite, markFinally]
      refine found w.node.range ?_ hv
      rw [hmark]
      exact List.subset_append_of_subset_left _ (List.subset_append_right _ _)
  | guarded kind resource b r =>
    obtain rfl := List.mem_singleton.1 hkey
    obtain rfl := List.mem_singleton.1 hw
    exact found r (List.subset_append_left _ _) hlive

/-- A part with a gate is no label. -/
theorem name_of_gate (hv : Plain v.node) (hw : w ∈ v.parts u.entered)
    (hkey : key ∈ v.node.gate v.site w.site) : labelName? w.node = none := by
  obtain ⟨e, hm⟩ := mem_node_parts hw
  refine (hv.part hm ?_).labelName?_eq_none
  rintro ns rfl
  rw [Node.eq_seq_of_mem_parts hm] at hkey
  cases hkey

/-- **A point that opens the site of a span has a span itself.** -/
theorem has_of_opens (h : u.defects = []) {site : Nat} {kind : SpanKind}
    (hspan : u.spanMap.spans.Has site kind) (hopens : u.Opens key site) :
    u.spanMap.spans.Has key.1 key.2 := by
  rcases hopens with rfl | ⟨v, hwalk, w, hw, hsite, hkey⟩
  · exact has_iff.2 ⟨u.range, List.mem_cons_self⟩
  · cases hlive : w.live with
    | true => exact gate_has h hwalk hw hlive hkey
    | false =>
      -- A span in a part that is not live: there is none.
      have hname : labelName? v.node = none := by
        obtain ⟨live, site, n⟩ := v
        cases n with
        | label => cases hw
        | _ => rfl
      have hdead : w.Dead u.entered := by
        refine ⟨hlive, fun l r hlabel => ?_⟩
        have hpart := name_of_gate (Walk.plain hwalk (wellFormed h).1 hname) hw hkey
        rw [hlabel] at hpart
        cases hpart
      obtain ⟨range, hp⟩ := has_iff.1 hspan
      exact absurd hsite (not_mem_sites_of_dead h (hwalk.tail hw) hdead _ hp)

end CodeUnit

end SpanCoverage
