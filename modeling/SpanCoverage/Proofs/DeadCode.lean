import SpanCoverage.Proofs.LeastLabels
import SpanCoverage.Proofs.Placement
import SpanCoverage.Proofs.Walks

/-!
# Dead code

Control does not come to every node of a unit.  Code that it does not come to could still be live by
a label inside: a `goto` enters the label from elsewhere.  But a label is seen only by jumps of its
own sequence, so such a jump is dead code as well.  Each of them could be live only by the other,
and the least labels hold neither.

The main results are:

* `CodeUnit.labels_of_dead` — no label of dead code is entered.
* `CodeUnit.not_mem_sites_of_dead` — dead code has no points.
* `CodeUnit.dead_code_bare` — which spans a unit's table does not have, and which labels it has.
-/

namespace SpanCoverage

namespace Analysis

/-! ## Code that nothing enters -/

/-- Nothing leaves a piece of code that control does not come to. -/
def Exits.nothing : Exits := { falls := false }

/-- A node that, where control does not come to it, is left by nothing and has no points. -/
structure Dormant (entered : List String) (n : Node) : Prop where
  exits : exits entered false n = .nothing
  points : ∀ site, points entered false site n = []

section Dormant

variable {entered : List String}

theorem dormant? {e : Option Node} (h : ∀ n ∈ e, Dormant entered n) :
    exits? entered false e = .nothing ∧ ∀ site, points? entered false site e = [] := by
  cases e with
  | none => exact ⟨rfl, fun _ => rfl⟩
  | some n => exact ⟨(h n rfl).exits, (h n rfl).points⟩

theorem dormantAll {ns : List Node} (h : ∀ n ∈ ns, Dormant entered n) :
    exitsAll entered false ns = .nothing ∧ ∀ site, pointsAll entered false site ns = [] := by
  induction ns with
  | nil => exact ⟨rfl, fun _ => rfl⟩
  | cons n ns ih =>
    simp only [List.mem_cons, forall_eq_or_imp] at h
    obtain ⟨hexits, hpoints⟩ := ih h.2
    refine ⟨?_, fun site => ?_⟩
    · simp only [exitsAll, h.1.exits, Exits.nothing, hexits]
      rfl
    · simp only [pointsAll, h.1.points, h.1.exits, Exits.nothing, hpoints, List.append_nil]

theorem dormantArms {arms : List Arm} (h : ∀ a ∈ arms, Dormant entered a.body) :
    exitsArms entered false arms = .nothing ∧ ∀ site, pointsArms entered false site arms = [] := by
  induction arms with
  | nil => exact ⟨rfl, fun _ => rfl⟩
  | cons a arms ih =>
    obtain ⟨case, body, range⟩ := a
    simp only [List.mem_cons, forall_eq_or_imp] at h
    obtain ⟨hexits, hpoints⟩ := ih h.2
    refine ⟨?_, fun site => ?_⟩
    · simp only [exitsArms, h.1.exits, hexits]
      rfl
    · simp [pointsArms, h.1.points, hpoints, mark]

theorem dormantHandlers {handlers : List Handler} (h : ∀ a ∈ handlers, Dormant entered a.body) :
    exitsHandlers entered false handlers = .nothing ∧
      ∀ site, pointsHandlers entered false site handlers = [] := by
  induction handlers with
  | nil => exact ⟨rfl, fun _ => rfl⟩
  | cons a handlers ih =>
    obtain ⟨binding, body, range⟩ := a
    simp only [List.mem_cons, forall_eq_or_imp] at h
    obtain ⟨hexits, hpoints⟩ := ih h.2
    refine ⟨?_, fun site => ?_⟩
    · simp only [exitsHandlers, h.1.exits, hexits]
      rfl
    · simp [pointsHandlers, h.1.points, hpoints, mark]

theorem dormant_label {l : String} {r : SourceRange} (h : l ∉ entered) :
    Dormant entered (.label l r) := by
  constructor <;> simp [exits, points, mark, Exits.nothing, h]

/-- A tree that is dormant if it is plain and no label in it is entered. -/
abbrev DormantWithoutLabels (entered : List String) (n : Node) : Prop :=
  Plain n → (∀ l ∈ labels n, l ∉ entered) → Dormant entered n

theorem dormant?_of_labels {e : Option Node} (ih : ∀ n ∈ e, DormantWithoutLabels entered n)
    (h : ∀ n ∈ e, Plain n) (hl : ∀ l ∈ labels? e, l ∉ entered) :
    exits? entered false e = .nothing ∧ ∀ site, points? entered false site e = [] := by
  rw [Node.labels?_eq] at hl
  refine dormant? fun n hn => ih n hn (h n hn) fun l hmem => hl l ?_
  exact List.mem_flatMap_of_mem (Option.mem_toList.2 hn) hmem

/-- **A plain tree of which no label is entered is dormant.** -/
theorem dormant_of_labels (n : Node) : DormantWithoutLabels entered n := by
  induction n using Node.induct with
  | stmt s r =>
    intro _ _
    refine ⟨?_, fun site => rfl⟩
    cases s <;> rfl
  | seq ns ih =>
    intro h hl
    cases h with
    | seq hns =>
      simp only [labels, List.forall_mem_append, Node.labelsAll_eq] at hl
      have children : ∀ n ∈ ns, Dormant entered n := by
        intro n hn
        cases hname : labelName? n with
        | some l =>
          obtain ⟨r, rfl⟩ := labelName?_eq_some_iff.1 hname
          exact dormant_label (hl.1 l (List.mem_filterMap.2 ⟨_, hn, rfl⟩))
        | none => exact ih n hn (hns n hn hname) fun l h => hl.2 l (List.mem_flatMap_of_mem hn h)
      exact ⟨(dormantAll children).1, fun site => (dormantAll children).2 _⟩
  | branch c t e r iht ihe =>
    intro h hl
    cases h with
    | branch _ ht he =>
      simp only [labels, List.forall_mem_append] at hl
      have inThen := iht ht hl.1
      obtain ⟨hexits, hpoints⟩ := dormant?_of_labels ihe he hl.2
      refine ⟨?_, fun site => ?_⟩
      · simp only [exits, Bool.false_and, inThen.exits, hexits]
        rfl
      · simp [points, inThen.points, hpoints, mark]
  | loop test i c u b r ihi ihu ihb =>
    intro h hl
    cases h with
    | loop _ hi hu hb =>
      simp only [labels, List.forall_mem_append] at hl
      obtain ⟨startExits, startPoints⟩ := dormant?_of_labels ihi hi hl.1.1
      have inBody := ihb hb hl.1.2
      obtain ⟨updateExits, updatePoints⟩ := dormant?_of_labels ihu hu hl.2
      have hbody : bodyLive test c Exits.nothing.falls = false := by cases test <;> rfl
      have hupdate : updateLive Exits.nothing = false := rfl
      have hheader : headerLive test Exits.nothing.falls Exits.nothing = false := by
        cases test <;> rfl
      refine ⟨?_, fun site => ?_⟩
      · simp only [exits, startExits, hbody, inBody.exits, hupdate, updateExits, hheader]
        rfl
      · simp only [points, startExits, hbody, inBody.exits, hupdate, updateExits, hheader,
          startPoints, inBody.points, updatePoints]
        cases test <;> rfl
  | switch v arms r ih =>
    intro h hl
    cases h with
    | switch _ ha =>
      simp only [labels, Node.labelsArms_eq] at hl
      obtain ⟨hexits, hpoints⟩ := dormantArms fun a hmem => ih a hmem (ha a hmem) fun l h =>
        hl l (List.mem_flatMap_of_mem hmem h)
      refine ⟨?_, fun site => ?_⟩
      · simp only [exits, hexits]
        rfl
      · simp [points, hpoints, mark]
  | attempt b handlers f r ihb ihh ihf =>
    intro h hl
    cases h with
    | attempt hb hh hf =>
      simp only [labels, List.forall_mem_append, Node.labelsHandlers_eq] at hl
      have inBody := ihb hb hl.1.1
      obtain ⟨handlerExits, handlerPoints⟩ := dormantHandlers fun a hmem =>
        ihh a hmem (hh a hmem) fun l h => hl.1.2 l (List.mem_flatMap_of_mem hmem h)
      obtain ⟨cleanupExits, cleanupPoints⟩ := dormant?_of_labels ihf hf hl.2
      refine ⟨?_, fun site => ?_⟩
      · simp only [exits, inBody.exits, handlerExits, cleanupExits]
        rfl
      · have hentry : ∀ site, markFinally false site f = [] := by cases f <;> exact fun _ => rfl
        simp [points, inBody.points, handlerPoints, cleanupPoints, hentry]
  | guarded k e b r ihb =>
    intro h hl
    cases h with
    | guarded _ hb =>
      have inBody := ihb hb hl
      refine ⟨inBody.exits, fun site => ?_⟩
      simp [points, inBody.points, mark]
  | nested header root => exact fun _ _ => ⟨rfl, fun _ => rfl⟩
  | label | probe | acquire =>
    intro h
    cases h

end Dormant

/-! ## Walks that take less for live -/

namespace Visit

/-- The same node, which control comes to at least where it did. -/
structure Under (v w : Visit) : Prop where
  site : v.site = w.site
  node : v.node = w.node
  live : v.live = true → w.live = true

section Under

variable {entered entered' : List String} {live live' : Bool} {site : Nat}

theorem of?_under (h : live = true → live' = true) {e : Option Node} :
    ∀ v ∈ of? live site e, ∃ w ∈ of? live' site e, v.Under w := by
  cases e with
  | none => exact nofun
  | some n => simpa [of?] using ⟨rfl, rfl, h⟩

theorem ofAll_under (hsub : entered ⊆ entered') (h : live = true → live' = true) {ns : List Node} :
    ∀ v ∈ ofAll entered live site ns, ∃ w ∈ ofAll entered' live' site ns, v.Under w := by
  induction ns generalizing live live' site with
  | nil => exact nofun
  | cons n ns ih =>
    rw [ofAll, ofAll, List.forall_mem_cons]
    refine ⟨⟨_, List.mem_cons_self, rfl, rfl, h⟩, fun v hv => ?_⟩
    obtain ⟨w, hw, hunder⟩ := ih (exits_mono (fun _ hl => hsub hl) n h).falls v hv
    exact ⟨w, List.mem_cons_of_mem _ hw, hunder⟩

theorem ofArms_under (h : live = true → live' = true) {arms : List Arm} :
    ∀ v ∈ ofArms live site arms, ∃ w ∈ ofArms live' site arms, v.Under w := by
  induction arms generalizing site with
  | nil => exact nofun
  | cons a arms ih =>
    obtain ⟨case, body, range⟩ := a
    rw [ofArms, ofArms, List.forall_mem_cons]
    refine ⟨⟨_, List.mem_cons_self, rfl, rfl, h⟩, fun v hv => ?_⟩
    obtain ⟨w, hw, hunder⟩ := ih v hv
    exact ⟨w, List.mem_cons_of_mem _ hw, hunder⟩

theorem ofHandlers_under (h : live = true → live' = true) {handlers : List Handler} :
    ∀ v ∈ ofHandlers live site handlers, ∃ w ∈ ofHandlers live' site handlers, v.Under w := by
  induction handlers generalizing site with
  | nil => exact nofun
  | cons a handlers ih =>
    obtain ⟨binding, body, range⟩ := a
    rw [ofHandlers, ofHandlers, List.forall_mem_cons]
    refine ⟨⟨_, List.mem_cons_self, rfl, rfl, h⟩, fun v hv => ?_⟩
    obtain ⟨w, hw, hunder⟩ := ih v hv
    exact ⟨w, List.mem_cons_of_mem _ hw, hunder⟩

/-- With more labels entered and more code live, control comes to more parts. -/
theorem parts_under (hsub : entered ⊆ entered') {v v' : Visit} (h : v.Under v') :
    ∀ w ∈ v.parts entered, ∃ w' ∈ v'.parts entered', w.Under w' := by
  obtain ⟨live, site, n⟩ := v
  obtain ⟨live', _, _⟩ := v'
  obtain ⟨rfl, rfl, hlive⟩ := h
  have mono (n : Node) : Mono entered entered' n := exits_mono (fun _ hl => hsub hl) n
  intro w hw
  cases n with
  | stmt | label | nested | probe | acquire => cases hw
  | seq ns => exact ofAll_under hsub hlive w hw
  | branch c t e r =>
    simp only [parts, List.exists_mem_cons_iff]
    rcases List.mem_cons.1 hw with rfl | hw
    · exact .inl ⟨rfl, rfl, Exits.and_mono hlive id⟩
    · exact .inr (of?_under (Exits.and_mono hlive id) w hw)
  | loop test i c u b r =>
    have start := (exits?_mono (e := i) (fun n _ => mono n) hlive).falls
    have body := bodyLive_mono test c start
    simp only [parts, List.mem_append, or_and_right, exists_or, List.exists_mem_cons_iff]
    simp only [parts, List.mem_append, List.mem_cons] at hw
    rcases hw with hw | rfl | hw
    · exact .inl (of?_under hlive w hw)
    · exact .inr (.inl ⟨rfl, rfl, body⟩)
    · exact .inr (.inr (of?_under (updateLive_mono (mono b body)) w hw))
  | switch v arms r => exact ofArms_under hlive w hw
  | attempt b handlers f r =>
    simp only [parts, List.mem_append, or_and_right, exists_or, List.exists_mem_cons_iff]
    simp only [parts, List.mem_append, List.mem_cons] at hw
    rcases hw with (rfl | hw) | hw
    · exact .inl (.inl ⟨rfl, rfl, hlive⟩)
    · exact .inl (.inr (ofHandlers_under hlive w hw))
    · exact .inr (of?_under hlive w hw)
  | guarded k e b r =>
    cases List.mem_singleton.1 hw
    exact ⟨_, List.mem_singleton.2 rfl, rfl, rfl, hlive⟩

end Under

/-! ## Labels inside of dead code -/

/-- What a label is seen by: a tree whose labels differ from each other and from those around it. -/
structure Scoped (ctx : Context) (n : Node) : Prop where
  confined : Confined ctx n
  nodup : (labels n).Nodup
  fresh : ∀ l ∈ ctx.labels, l ∉ labels n

section Dead

variable {entered entered' : List String} {v w x : Visit} {ctx : Context}

/-- The labels of a node that is a part are different from those of its siblings. -/
theorem Scoped.disjoint (h : Scoped ctx v.node) (hw : w ∈ v.parts entered)
    (hx : x ∈ v.parts entered) (hne : w ≠ x) : (labels w.node).Disjoint (labels x.node) := by
  have hnodup := h.nodup
  rw [Node.labels_eq, ← nodes_parts entered, List.flatMap_map] at hnodup
  exact disjoint_of_nodup_flatMap (List.nodup_append.1 hnodup).2.1 hw hx hne

/-- The labels of a part are different from those around it. -/
theorem Scoped.fresh_part (h : Scoped ctx v.node) (hw : w ∈ v.parts entered) :
    ∀ l ∈ ctx.labels ++ v.node.ownLabels, l ∉ labels w.node := by
  intro l hl hin
  have hparts : l ∈ (v.node.parts.map Prod.snd).flatMap labels := by
    rw [← nodes_parts entered]
    exact List.mem_flatMap_of_mem (List.mem_map_of_mem hw) hin
  have hnodup := h.nodup
  rw [Node.labels_eq] at hnodup
  rcases List.mem_append.1 hl with hl | hl
  · exact h.fresh l hl (Node.labels_eq v.node ▸ List.mem_append_right _ hparts)
  · exact (List.nodup_append.1 hnodup).2.2 l hl l hparts rfl

theorem Scoped.part (h : Scoped ctx v.node) (hw : w ∈ v.parts entered) :
    ∃ ctx', Scoped ctx' w.node ∧ ctx'.labels ⊆ ctx.labels ++ v.node.ownLabels := by
  obtain ⟨e, hm⟩ := mem_node_parts hw
  have hlabels := ctx.labels_within hm
  have hnodup := h.nodup
  rw [Node.labels_eq] at hnodup
  refine ⟨_, ⟨h.confined.part hm, ?_, fun l hl => h.fresh_part hw l (hlabels hl)⟩, hlabels⟩
  exact (List.nodup_flatMap.1 (List.nodup_append.1 hnodup).2.1).1 _ (List.mem_map_of_mem hm)

/-- A walk that enters no label of a dead tree makes no jump to one of them: the tree itself does
not jump, and from elsewhere its labels are not seen. -/
theorem jumps_avoid_dead (hsub : entered' ⊆ entered) (hdormant : Dormant entered' v.node)
    (hdead : v.live = false) (hwalk : Walk entered w v) :
    ∀ {ctx}, Scoped ctx w.node → ∀ w' : Visit, w'.Under w →
      ∀ l ∈ (w'.exits entered').jumps, l ∉ labels v.node := by
  induction hwalk using Relation.ReflTransGen.head_induction_on with
  | refl =>
    intro ctx _ v' hunder l hl
    have hlive : v'.live = false := by
      cases h : v'.live with
      | false => rfl
      | true => rw [← hdead, hunder.live h]
    rw [exits, hunder.node, hlive, hdormant.exits] at hl
    cases hl
  | @head w x hx hrest ih =>
    intro ctx hscoped w' hunder l hl hin
    have hinx : l ∈ labels x.node := Walk.labels_subset hrest hin
    rw [jumps_eq, List.mem_append] at hl
    rcases hl with hl | hl
    · -- A statement jumps itself, but then it has no parts.
      rw [ownJumps, hunder.node] at hl
      obtain ⟨live, site, n⟩ := w
      cases n with
      | stmt s r => cases hx
      | _ => cases hl
    · obtain ⟨y', hy', hl⟩ := List.mem_flatMap.1 hl
      obtain ⟨y, hy, hyunder⟩ := parts_under hsub hunder y' hy'
      by_cases hyx : y = x
      · obtain ⟨ctx', hscoped', -⟩ := hscoped.part hx
        exact ih hscoped' y' (hyx ▸ hyunder) l hl hin
      · obtain ⟨ctx', hscoped', hlabels⟩ := hscoped.part hy
        rw [exits, hyunder.node] at hl
        rcases jumps_of_confined entered' y.node hscoped'.confined _ l hl with hl | hl
        · exact hscoped.fresh_part hx l (hlabels hl) hinx
        · exact hscoped.disjoint hy hx hyx hl hinx

end Dead

end Visit

end Analysis

/-! ## Units -/

/-- Where the walk over a unit starts. -/
def CodeUnit.start (u : CodeUnit) : Analysis.Visit := ⟨true, 0, u.root⟩

/-- A node that control does not come to: not from the code before it, and if it is a label, not by
a live jump either. -/
structure Analysis.Visit.Dead (entered : List String) (v : Visit) : Prop where
  live : v.live = false
  label : ∀ l r, v.node = .label l r → l ∉ entered

/-- What is no label is dead where control does not come to it from above. -/
theorem Analysis.Visit.Dead.of_name {entered : List String} {site : Nat} {n : Node}
    (hname : labelName? n = none) : Visit.Dead entered ⟨false, site, n⟩ := by
  refine ⟨rfl, ?_⟩
  rintro l r rfl
  cases hname

namespace CodeUnit

open Analysis Visit

variable {u : CodeUnit} {v : Visit}

/-- The labels that are entered are those that live jumps name. -/
theorem mem_entered_iff (h : u.defects = []) {l : String} :
    l ∈ u.entered ↔ ∃ site r, Walk u.entered u.start ⟨true, site, .stmt (.goto l) r⟩ := by
  rw [← mem_jumps_iff]
  obtain ⟨starts, hrepeats, hlast, -⟩ := enteredLabels_repeats h
  constructor
  · exact fun hl => hrepeats.grows nofun _ (List.mem_of_getLast? hlast) hl
  · exact fun hl => hrepeats.closed hlast hl

theorem scoped_start (h : u.defects = []) : Scoped { unit := u.name } u.start.node :=
  ⟨(wellFormed h).2, (CodeUnit.defects_eq_nil_iff.1 h).2, nofun⟩

/-- **No label of dead code is entered.**  The labels entered but those of the dead code are closed,
so the least closed labels are among them. -/
theorem labels_of_dead (h : u.defects = []) (hwalk : Walk u.entered u.start v)
    (hdead : v.live = false) (hplain : Plain v.node) : ∀ l ∈ labels v.node, l ∉ u.entered := by
  let others := u.entered.filter fun l => l ∉ labels v.node
  have hothers {l : String} : l ∈ others ↔ l ∈ u.entered ∧ l ∉ labels v.node := by
    simp [others]
  have hsub : others ⊆ u.entered := fun l hl => (hothers.1 hl).1
  have hdormant : Dormant others v.node :=
    dormant_of_labels v.node hplain fun l hl hin => (hothers.1 hin).2 hl
  obtain ⟨starts, hrepeats, hlast, -⟩ := enteredLabels_repeats h
  have hclosed : reached u.root others ⊆ others := by
    intro l hl
    refine hothers.2 ⟨hrepeats.closed hlast (reached_mono hsub hl), ?_⟩
    exact jumps_avoid_dead hsub hdormant hdead hwalk (scoped_start h) u.start ⟨rfl, rfl, id⟩ l hl
  have hleast := hrepeats.least hclosed nofun _ (List.mem_of_getLast? hlast)
  exact fun l hl hin => (hothers.1 (hleast hin)).2 hl

/-- Nothing leaves dead code, and it has no points. -/
theorem dormant_of_dead (h : u.defects = []) (hwalk : Walk u.entered u.start v)
    (hdead : v.Dead u.entered) : Dormant u.entered v.node := by
  cases hname : labelName? v.node with
  | some l =>
    obtain ⟨r, hr⟩ := labelName?_eq_some_iff.1 hname
    exact hr ▸ dormant_label (hdead.label l r hr)
  | none =>
    have hplain := Walk.plain hwalk (wellFormed h).1 hname
    exact dormant_of_labels v.node hplain (labels_of_dead h hwalk hdead.live hplain)

/-- Whatever the way to a dormant node that control does not come to: no point lies in its tree. -/
theorem points_avoid_dormant {entered : List String} {w : Visit} (hdormant : Dormant entered v.node)
    (hdead : v.live = false) (hwalk : Walk entered w v) :
    ∀ p ∈ w.points entered, p.site ∉ v.sites := by
  induction hwalk using Relation.ReflTransGen.head_induction_on with
  | refl =>
    intro p hp
    rw [Visit.points, hdead, hdormant.points] at hp
    cases hp
  | @head w x hx hrest ih =>
    intro p hp hsite
    have hx' := Walk.sites_subset hrest hsite
    rcases mem_points hp with hown | ⟨y, hy, hin⟩
    · have hlt := (lt_of_mem_part hx hx').2
      omega
    · by_cases hyx : y = x
      · subst hyx
        rcases hin with hin | ⟨hlive, hentry⟩
        · exact ih p hin hsite
        · -- The entry into a part that is live is not one into a dead node.
          have heq : v = y := by
            refine Walk.eq_of_site hrest (Nat.le_antisymm ?_ ?_)
            · rw [hentry, sites_eq_range', List.mem_range'_1] at hsite
              exact hsite.1
            · have hv := Walk.sites_subset hrest v.site_mem_sites
              rw [sites_eq_range', List.mem_range'_1] at hv
              exact hv.1
          rw [heq, hlive] at hdead
          cases hdead
      · have hy' : p.site ∈ y.sites := by
          rcases hin with hin | ⟨-, hentry⟩
          · exact points_sites y p hin
          · exact hentry ▸ y.site_mem_sites
        exact sites_disjoint hy hx hyx hy' hx'

/-- **Dead code has no points.** -/
theorem not_mem_sites_of_dead (h : u.defects = []) (hwalk : Walk u.entered u.start v)
    (hdead : v.Dead u.entered) : ∀ p ∈ u.points, p.site ∉ v.sites := by
  intro p hp hsite
  rcases List.mem_cons.1 hp with rfl | hp
  · -- The unit's entry is at the root's site, and the root is live.
    have hfirst : v.site = u.start.site := by
      rw [sites_eq_range', List.mem_range'_1] at hsite
      exact Nat.le_zero.1 hsite.1
    have hroot := Walk.eq_of_site hwalk hfirst
    have hlive := hdead.live
    rw [hroot] at hlive
    cases hlive
  · exact points_avoid_dormant (dormant_of_dead h hwalk hdead) hdead.live hwalk p hp hsite

/-! ### Spans -/

end CodeUnit

namespace SpanTable

/-- The table has a span of this site and kind. -/
def Has (t : SpanTable) (site : Nat) (kind : SpanKind) : Prop := (site, kind) ∈ t.spans.map Span.key

/-- The table has no span in a tree that stands at this site. -/
def Bare (t : SpanTable) (site : Nat) (n : Node) : Prop :=
  ∀ s ∈ t.spans, ∀ m, (s.site, m) ∉ n.sited site

end SpanTable

namespace CodeUnit

open Analysis Visit

variable {u : CodeUnit} {v : Visit}

theorem has_iff {site : Nat} {kind : SpanKind} :
    u.spanMap.spans.Has site kind ↔ ∃ range, ⟨kind, site, range⟩ ∈ u.points := by
  have hkeys : u.spanMap.spans.spans.map Span.key = u.points.map Point.key :=
    SpanTable.map_key_ofPoints u.points
  rw [SpanTable.Has, hkeys, List.mem_map]
  constructor
  · rintro ⟨⟨kind', site', range⟩, hp, hkey⟩
    cases hkey
    exact ⟨range, hp⟩
  · rintro ⟨range, hp⟩
    exact ⟨_, hp, rfl⟩

/-- The table of a unit has no span in dead code. -/
theorem bare_of_dead (h : u.defects = []) (hwalk : Walk u.entered u.start v)
    (hdead : v.Dead u.entered) : u.spanMap.spans.Bare v.site v.node := by
  intro s hs m hm
  have hkey : u.spanMap.spans.Has s.site s.kind := List.mem_map_of_mem hs
  obtain ⟨range, hp⟩ := has_iff.1 hkey
  exact not_mem_sites_of_dead h hwalk hdead _ hp (List.mem_map_of_mem hm)

theorem bare_of_not_live (h : u.defects = []) {site : Nat} {n : Node}
    (hwalk : Walk u.entered u.start ⟨false, site, n⟩) (hname : labelName? n = none) :
    u.spanMap.spans.Bare site n :=
  bare_of_dead h hwalk (.of_name hname)

/-- What a walk finds live has its points in the unit. -/
theorem point_of_walk (hwalk : Walk u.entered u.start v) {p : Point}
    (hp : p ∈ v.points u.entered) : p ∈ u.points :=
  List.mem_cons_of_mem _ (Walk.points_subset hwalk hp)

/-- A statement has a span exactly if control comes to it. -/
theorem has_statement_iff (h : u.defects = []) {live : Bool} {site : Nat} {s : Stmt}
    {r : SourceRange} (hwalk : Walk u.entered u.start ⟨live, site, .stmt s r⟩) :
    u.spanMap.spans.Has site .statement ↔ live = true := by
  rw [has_iff]
  constructor
  · rintro ⟨range, hp⟩
    cases live with
    | true => rfl
    | false => exact absurd (site_mem_sites _) (not_mem_sites_of_dead h hwalk ⟨rfl, nofun⟩ _ hp)
  · rintro rfl
    exact ⟨r, point_of_walk hwalk (List.mem_singleton.2 rfl)⟩

/-- A label has a span exactly if control falls into it or a live jump names it. -/
theorem has_label_iff (h : u.defects = []) {live : Bool} {site : Nat} {l : String}
    {r : SourceRange} (hwalk : Walk u.entered u.start ⟨live, site, .label l r⟩) :
    u.spanMap.spans.Has site .label ↔ live = true ∨ l ∈ u.entered := by
  rw [has_iff]
  constructor
  · rintro ⟨range, hp⟩
    by_contra hnot
    obtain ⟨hlive, hentered⟩ := not_or.1 hnot
    refine not_mem_sites_of_dead h hwalk ⟨by simpa using hlive, ?_⟩ _ hp (site_mem_sites _)
    rintro _ _ ⟨⟩
    exact hentered
  · intro hlabel
    refine ⟨r, point_of_walk hwalk (mem_mark.2 ⟨?_, rfl⟩)⟩
    simpa using hlabel

/-- A label is entered exactly if a jump that names it has a span. -/
theorem mem_entered_iff_has (h : u.defects = []) {l : String} :
    l ∈ u.entered ↔
      ∃ site r, (site, .stmt (.goto l) r) ∈ u.root.sited 0 ∧
        u.spanMap.spans.Has site .statement := by
  rw [mem_entered_iff h]
  constructor
  · rintro ⟨site, r, hwalk⟩
    exact ⟨site, r, Walk.mem_sited hwalk, (has_statement_iff h hwalk).2 rfl⟩
  · rintro ⟨site, r, hmem, hspan⟩
    obtain ⟨live, hwalk⟩ := exists_walk u.entered u.start site _ hmem
    obtain rfl := (has_statement_iff h hwalk).1 hspan
    exact ⟨site, r, hwalk⟩

/-! ### Sequences -/

/-- Where a child of a sequence stands, and whether control comes to it from the one before. -/
theorem walk_child {live : Bool} {site : Nat} {before : List Node} {child : Node}
    {after : List Node}
    (hwalk : Walk u.entered u.start ⟨live, site, .seq (before ++ child :: after)⟩) :
    Walk u.entered u.start ⟨(exitsAll u.entered live before).falls,
      site + 1 + Node.siteCountAll before, child⟩ := by
  refine hwalk.tail ?_
  rw [parts, ofAll_append]
  exact List.mem_append_right _ List.mem_cons_self

/-- Dead code without a label goes on as dead code. -/
theorem not_falls_of_dead (h : u.defects = []) (site : Nat) {ns : List Node}
    (hwalk : ∀ w ∈ ofAll u.entered false site ns, Walk u.entered u.start w)
    (hnames : ∀ n ∈ ns, labelName? n = none) : (exitsAll u.entered false ns).falls = false := by
  induction ns generalizing site with
  | nil => rfl
  | cons n ns ih =>
    simp only [List.mem_cons, forall_eq_or_imp] at hnames
    rw [ofAll, List.forall_mem_cons] at hwalk
    have hfalls : (Analysis.exits u.entered false n).falls = false := by
      rw [(dormant_of_dead h hwalk.1 (.of_name hnames.1)).exits]
      rfl
    rw [hfalls] at hwalk
    rw [exitsAll, hfalls]
    exact ih _ hwalk.2 hnames.2

theorem exitsAll_append_falls {entered : List String} {live : Bool} {ns ns' : List Node} :
    (exitsAll entered live (ns ++ ns')).falls =
      (exitsAll entered (exitsAll entered live ns).falls ns').falls := by
  induction ns generalizing live with
  | nil => rfl
  | cons n ns ih => exact ih

/-- Control does not come to what follows a jump, unless there is a label between. -/
theorem not_falls_behind_jump (h : u.defects = []) {live : Bool} {site : Nat}
    {before between after : List Node} {jump : Stmt} {r : SourceRange}
    (hwalk : Walk u.entered u.start
      ⟨live, site, .seq (before ++ .stmt jump r :: between ++ after)⟩)
    (hjump : jump.fallsThrough = false) (hnames : ∀ n ∈ between, labelName? n = none) :
    (exitsAll u.entered live (before ++ .stmt jump r :: between)).falls = false := by
  have hfalls : (stmtExits (exitsAll u.entered live before).falls jump).falls = false := by
    cases jump <;> simp_all [stmtExits, Stmt.fallsThrough]
  rw [exitsAll_append_falls]
  show (exitsAll u.entered (stmtExits _ jump).falls between).falls = false
  rw [hfalls]
  -- The nodes between are visited, and not as live.
  refine not_falls_of_dead h (site + 1 + Node.siteCountAll before + 1) (fun w hw => ?_) hnames
  refine hwalk.tail ?_
  rw [parts, List.append_assoc, ofAll_append, List.cons_append, ofAll, ofAll_append]
  refine List.mem_append_right _ (List.mem_cons_of_mem _ (List.mem_append_left _ ?_))
  rw [← hfalls] at hw
  exact hw

end CodeUnit

/-! ## The spans that dead code does not have -/

open Analysis in
/-- Dead code of a unit has no spans in the unit's table. -/
structure CodeUnit.DeadCodeBare (u : CodeUnit) (table : SpanTable) : Prop where
  /-- The walk comes to each node of the unit, and either as live or as dead code. -/
  walked : ∀ site n, (site, n) ∈ u.root.sited 0 →
    ∃! live, Visit.Walk u.entered u.start ⟨live, site, n⟩
  /-- Behind a child that does not fall through, up to the next label of the sequence. -/
  behindJump : ∀ site before jump r between child after,
    (site, .seq (before ++ .stmt jump r :: between ++ child :: after)) ∈ u.root.sited 0 →
    jump.fallsThrough = false → (∀ n ∈ between ++ [child], labelName? n = none) →
    table.Bare (site + 1 + Node.siteCountAll (before ++ .stmt jump r :: between)) child
  /-- The branch that a constant condition does not take. -/
  closedThen : ∀ site c t e r, (site, .branch c t e r) ∈ u.root.sited 0 →
    c.knownTruth = some false → table.Bare (site + 1) t
  closedElse : ∀ site c t e r, (site, .branch c t (some e) r) ∈ u.root.sited 0 →
    c.knownTruth = some true → table.Bare (site + 1 + t.siteCount) e
  /-- The rounds of a loop that tests before the first of them, with a constant condition. -/
  closedBody : ∀ site i c u' b r, (site, .loop .before i c u' b r) ∈ u.root.sited 0 →
    c.knownTruth = some false → table.Bare (site + 1 + Node.siteCount? i) b
  closedUpdate : ∀ site i c u' b r, (site, .loop .before i c (some u') b r) ∈ u.root.sited 0 →
    c.knownTruth = some false → table.Bare (site + 1 + Node.siteCount? i + b.siteCount) u'
  /-- A label has a span exactly if control falls into it from the children before it, or into the
  sequence if there are none, or some `goto` to it has a span. -/
  labels : ∀ live site before l r after,
    Visit.Walk u.entered u.start ⟨live, site, .seq (before ++ .label l r :: after)⟩ →
    (table.Has (site + 1 + Node.siteCountAll before) .label ↔
      (exitsAll u.entered live before).falls = true ∨
        ∃ site r, (site, .stmt (.goto l) r) ∈ u.root.sited 0 ∧ table.Has site .statement)
  /-- Whatever the walk comes to as dead code. -/
  dead : ∀ v, Visit.Walk u.entered u.start v → v.Dead u.entered → table.Bare v.site v.node

namespace CodeUnit

open Analysis Visit

variable {u : CodeUnit}

theorem plain_of_sited (h : u.defects = []) {site : Nat} {n : Node}
    (hmem : (site, n) ∈ u.root.sited 0) (hname : labelName? n = none) : Plain n := by
  obtain ⟨live, hwalk⟩ := exists_walk u.entered u.start site n hmem
  exact Walk.plain hwalk (wellFormed h).1 hname

/-- Where a loop's condition is tested first and never holds, control does not come to its
rounds. -/
theorem walk_closed_rounds (h : u.defects = []) {site : Nat} {i u' : Option Node} {c : Expr}
    {b : Node} {r : SourceRange} (hmem : (site, .loop .before i c u' b r) ∈ u.root.sited 0)
    (hc : c.knownTruth = some false) :
    Walk u.entered u.start ⟨false, site + 1 + Node.siteCount? i, b⟩ ∧
      ∀ w ∈ of? false (site + 1 + Node.siteCount? i + b.siteCount) u',
        Walk u.entered u.start w := by
  obtain ⟨live, hwalk⟩ := exists_walk u.entered u.start site _ hmem
  have hclosed (start : Bool) : bodyLive .before c start = false := by simp [bodyLive, hc]
  have inRounds {w : Visit} (hw : w ∈ (⟨false, site + 1 + Node.siteCount? i, b⟩ : Visit) ::
      of? (updateLive (Analysis.exits u.entered false b))
        (site + 1 + Node.siteCount? i + b.siteCount) u') : Walk u.entered u.start w := by
    refine hwalk.tail ?_
    simp only [parts, hclosed]
    exact List.mem_append_right _ hw
  have body := inRounds List.mem_cons_self
  cases plain_of_sited h hmem rfl with
  | loop _ _ _ hb =>
    have hupdate : updateLive (Analysis.exits u.entered false b) = false := by
      rw [(dormant_of_dead h body (.of_name hb.labelName?_eq_none)).exits]
      rfl
    refine ⟨body, fun w hw => inRounds (List.mem_cons_of_mem _ ?_)⟩
    rwa [hupdate]

theorem deadCodeBare (h : u.defects = []) : u.DeadCodeBare u.spanMap.spans where
  walked site n hmem := by
    obtain ⟨live, hwalk⟩ := exists_walk u.entered u.start site n hmem
    exact ⟨live, hwalk, fun _ hother => congrArg Visit.live (Walk.unique hother hwalk rfl)⟩
  behindJump site before jump r between child after hmem hjump hnames := by
    rw [List.forall_mem_append, List.forall_mem_singleton] at hnames
    obtain ⟨live, hwalk⟩ := exists_walk u.entered u.start site _ hmem
    have hchild := walk_child hwalk
    rw [not_falls_behind_jump h hwalk hjump hnames.1] at hchild
    exact bare_of_not_live h hchild hnames.2
  closedThen site c t e r hmem hc := by
    obtain ⟨live, hwalk⟩ := exists_walk u.entered u.start site _ hmem
    have hpart : (⟨false, site + 1, t⟩ : Visit) ∈
        parts u.entered ⟨live, site, .branch c t e r⟩ := by
      simp [parts, hc]
    cases plain_of_sited h hmem rfl with
    | branch _ ht _ => exact bare_of_not_live h (hwalk.tail hpart) ht.labelName?_eq_none
  closedElse site c t e r hmem hc := by
    obtain ⟨live, hwalk⟩ := exists_walk u.entered u.start site _ hmem
    have hpart : (⟨false, site + 1 + t.siteCount, e⟩ : Visit) ∈
        parts u.entered ⟨live, site, .branch c t (some e) r⟩ := by
      simp [parts, of?, hc]
    cases plain_of_sited h hmem rfl with
    | branch _ _ he => exact bare_of_not_live h (hwalk.tail hpart) (he e rfl).labelName?_eq_none
  closedBody site i c u' b r hmem hc := by
    cases plain_of_sited h hmem rfl with
    | loop _ _ _ hb =>
      exact bare_of_not_live h (walk_closed_rounds h hmem hc).1 hb.labelName?_eq_none
  closedUpdate site i c u' b r hmem hc := by
    have hwalk := (walk_closed_rounds h hmem hc).2 _ (List.mem_singleton.2 rfl)
    cases plain_of_sited h hmem rfl with
    | loop _ _ hu _ => exact bare_of_not_live h hwalk (hu u' rfl).labelName?_eq_none
  labels live site before l r after hwalk := by
    rw [has_label_iff h (walk_child hwalk), mem_entered_iff_has h]
  dead v hwalk hdead := bare_of_dead h hwalk hdead

/-- **Dead code carries no span.**  This is so in every unit of a body that the analysis accepts.
Units nested in it have their own tables wherever they stand, the same as if each were analyzed by
itself. -/
theorem dead_code_bare {body : CodeUnit} {maps : List UnitMap}
    (accepted : body.analyzeAll = .ok maps) :
    ∀ u ∈ body.all, u.analyze = .ok u.spanMap ∧ u.spanMap ∈ maps ∧
      u.DeadCodeBare u.spanMap.spans ∧
      ∀ site header root, (site, .nested header root) ∈ u.root.sited 0 →
        ∃ known ∈ maps, CodeUnit.analyze ⟨header, root⟩ = .ok known := by
  obtain ⟨hdefects, rfl⟩ := analyzeAll_eq_ok_iff.1 accepted
  have hanalyze : ∀ u ∈ body.all, u.analyze = .ok u.spanMap :=
    fun u hu => analyze_eq_ok_iff.2 ⟨hdefects u hu, rfl⟩
  intro u hu
  refine ⟨hanalyze u hu, List.mem_map_of_mem hu, deadCodeBare (hdefects u hu), ?_⟩
  intro site header root hmem
  have hnested : ⟨header, root⟩ ∈ u.all :=
    List.mem_cons_of_mem _ (unit_of_sited u.start site header root hmem)
  have hall := all_subset hu hnested
  exact ⟨_, List.mem_map_of_mem hall, hanalyze _ hall⟩

/-! ## An example -/

/-- A unit with a part that is entered only from inside, and a unit nested there. -/
def deserted : CodeUnit where
  token := ⟨0x06000001⟩
  name := "deserted"
  range := .none
  root := .seq [
    .stmt (.goto "out") .none,
    .seq [
      .label "in" .none,
      .nested { token := ⟨0x06000002⟩, name := "inner", kind := .lambda, range := .none }
        (.stmt .skip .none),
      .stmt (.goto "in") .none],
    .label "out" .none]

theorem deserted_bare :
    deserted.analyzeAll = .ok (deserted.all.map spanMap) ∧
      deserted.spanMap.spans.spans.map Span.key =
        [(0, .entry), (1, .statement), (6, .label)] ∧
      (∃ n, (2, n) ∈ deserted.root.sited 0 ∧ deserted.spanMap.spans.Bare 2 n) ∧
      ∃ inner ∈ deserted.all.map spanMap, inner.token = ⟨0x06000002⟩ ∧
        inner.spans.spans.map Span.key = [(0, .entry), (0, .statement)] := by
  have accepted : deserted.analyzeAll = .ok (deserted.all.map spanMap) :=
    analyzeAll_eq_ok_iff.2 ⟨by decide, rfl⟩
  obtain ⟨-, -, hbare, hnested⟩ := dead_code_bare accepted deserted List.mem_cons_self
  refine ⟨accepted, by decide, ⟨_, .tail _ (.tail _ (.head _)), ?_⟩, ?_⟩
  · exact hbare.behindJump 0 [] (.goto "out") .none [] _ _ (.head _) rfl (by decide)
  · obtain ⟨inner, hmem, hinner⟩ := hnested 4 _ _ (.tail _ (.tail _ (.tail _ (.tail _ (.head _)))))
    refine ⟨inner, hmem, ?_⟩
    obtain ⟨-, rfl⟩ := analyze_eq_ok_iff.1 hinner
    exact ⟨rfl, by decide⟩

end CodeUnit

end SpanCoverage
