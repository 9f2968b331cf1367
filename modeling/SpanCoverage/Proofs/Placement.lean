import Mathlib.Data.List.Nodup
import SpanCoverage.Proofs.Accepted
import SpanCoverage.Proofs.WellFormed

/-!
# Every span has its own probe

A span finds its probe by its site and its kind.  So instrumentation with a unit's own table is
exact if no two of the unit's points have the same site and kind, and if each of them is one of the
points at which the injection can put a probe.

The sites of a node's parts do not overlap, and the only points that two nodes could share are those
where a block is entered, which have kinds of their own.

The main results are:

* `keysApart` — no two points that can take a probe have the same site and kind.
* `points_inOrder` — the live points of a plain tree are among them, in the order in which they are
  evaluated.
* `SpanTable.placement_eq_some_iff` — the probe of a span stands at the span's own point.
* `CodeUnit.unplaced?_eq_none` — every span of a unit's own table gets its probe.
* `Program.instrument_own` — instrumentation with a program's own map succeeds.
-/

namespace SpanCoverage

/-! ## Keys -/

/-- The site and the kind of a point. -/
def Point.key (p : Point) : Nat × SpanKind := (p.site, p.kind)

/-- Whether a span stands for the entry into a block, or into the unit. -/
def SpanKind.isEntry : SpanKind → Bool
  | .entry | .switchArm | .catchEntry | .finallyEntry => true
  | .statement | .condition | .loopHeader | .label | .scopeAcquire => false

namespace Injection

/-- Keys that are all different, with sites from `first` on and below `last`. -/
structure Apart (first last : Nat) (keys : List (Nat × SpanKind)) : Prop where
  nodup : keys.Nodup
  first_le : ∀ k ∈ keys, first ≤ k.1
  lt_last : ∀ k ∈ keys, k.1 < last

namespace Apart

variable {first middle last : Nat} {keys keys' : List (Nat × SpanKind)}

theorem nil : Apart first last [] := ⟨List.nodup_nil, by simp, by simp⟩

theorem append (h : Apart first middle keys) (h' : Apart middle last keys')
    (hfirst : first ≤ middle) (hlast : middle ≤ last) : Apart first last (keys ++ keys') := by
  refine ⟨List.nodup_append.2 ⟨h.nodup, h'.nodup, ?_⟩, ?_, ?_⟩
  · intro k hk k' hk' heq
    have hlt := h.lt_last k hk
    have hle := h'.first_le k' hk'
    rw [heq] at hlt
    omega
  · intro k hk
    rcases List.mem_append.1 hk with hk | hk
    · exact h.first_le k hk
    · have hle := h'.first_le k hk
      omega
  · intro k hk
    rcases List.mem_append.1 hk with hk | hk
    · have hlt := h.lt_last k hk
      omega
    · exact h'.lt_last k hk

/-- One more key at the first site, of another kind than those there. -/
theorem cons (h : Apart first last keys) (hlt : first < last) {kind : SpanKind}
    (hkind : (first, kind) ∉ keys) : Apart first last ((first, kind) :: keys) := by
  refine ⟨List.nodup_cons.2 ⟨hkind, h.nodup⟩, ?_, ?_⟩
  · intro k hk
    rcases List.mem_cons.1 hk with rfl | hk
    · exact Nat.le_refl _
    · exact h.first_le k hk
  · intro k hk
    rcases List.mem_cons.1 hk with rfl | hk
    · exact hlt
    · exact h.lt_last k hk

theorem wider {first' last' : Nat} (h : Apart first last keys) (hfirst : first' ≤ first)
    (hlast : last ≤ last') : Apart first' last' keys :=
  ⟨h.nodup, fun k hk => Nat.le_trans hfirst (h.first_le k hk),
    fun k hk => Nat.lt_of_lt_of_le (h.lt_last k hk) hlast⟩

/-- A key in front of keys with greater sites. -/
theorem own (h : Apart (first + 1) last keys) (hlt : first < last) (kind : SpanKind) :
    Apart first last ((first, kind) :: keys) := by
  refine (h.wider (by omega) (Nat.le_refl _)).cons hlt fun hk => ?_
  have hle := h.first_le _ hk
  omega

/-- The key of an entry in front of the keys of the block that is entered. -/
theorem entry (h : Apart first last keys) (hlt : first < last)
    (hown : ∀ k ∈ keys, k.1 = first → k.2.isEntry = false) {kind : SpanKind}
    (hkind : kind.isEntry = true) : Apart first last ((first, kind) :: keys) := by
  refine h.cons hlt fun hk => ?_
  have hfalse := hown _ hk rfl
  simp only [hkind] at hfalse
  cases hfalse

end Apart

/-- The keys of a tree's points are all different and have the sites of the tree, and no key at the
tree's own site is that of an entry. -/
structure KeysApart (site : Nat) (n : Node) : Prop where
  apart : Apart site (site + n.siteCount) (probePoints site n)
  noEntry : ∀ k ∈ probePoints site n, k.1 = site → k.2.isEntry = false

namespace KeysApart

/-- A node with a key of its own in front of the keys of its parts. -/
theorem of_own {site last : Nat} {n : Node} {kind : SpanKind} {keys : List (Nat × SpanKind)}
    (hn : probePoints site n = (site, kind) :: keys) (h : Apart (site + 1) last keys)
    (hlast : last = site + n.siteCount) (hkind : kind.isEntry = false) : KeysApart site n := by
  have hpos := n.siteCount_pos
  subst hlast
  refine ⟨?_, ?_⟩
  · rw [hn]
    exact h.own (by omega) kind
  · rw [hn]
    intro k hk hsite
    rcases List.mem_cons.1 hk with rfl | hk
    · exact hkind
    · have hle := h.first_le k hk
      omega

/-- A node without a key of its own. -/
theorem of_parts {site last : Nat} {n : Node} (h : Apart (site + 1) last (probePoints site n))
    (hlast : last = site + n.siteCount) : KeysApart site n := by
  subst hlast
  refine ⟨h.wider (by omega) (Nat.le_refl _), ?_⟩
  intro k hk hsite
  have hle := h.first_le k hk
  omega

end KeysApart

theorem probePoints?_apart {e : Option Node} (he : ∀ n ∈ e, ∀ site, KeysApart site n) (site : Nat) :
    Apart site (site + Node.siteCount? e) (probePoints? site e) := by
  cases e with
  | none => exact .nil
  | some n => exact (he n rfl site).apart

theorem probePointsAll_apart {ns : List Node} (h : ∀ n ∈ ns, ∀ site, KeysApart site n)
    (site : Nat) : Apart site (site + Node.siteCountAll ns) (probePointsAll site ns) := by
  induction ns generalizing site with
  | nil => exact .nil
  | cons n ns ih =>
    simp only [List.mem_cons, forall_eq_or_imp] at h
    -- Only as the child of a sequence a label takes a probe.
    have child : ∃ keys, Apart site (site + n.siteCount) keys ∧
        probePointsAll site (n :: ns) = keys ++ probePointsAll (site + n.siteCount) ns := by
      cases n with
      | label name range => exact ⟨_, Apart.nil.own (by rw [Node.siteCount]; omega) .label, rfl⟩
      | _ => exact ⟨_, (h.1 site).apart, rfl⟩
    obtain ⟨keys, hkeys, hall⟩ := child
    rw [hall, Node.siteCountAll, ← Nat.add_assoc]
    exact hkeys.append (ih h.2 _) (by omega) (by omega)

/-- The keys of a block behind the key of its entry. -/
theorem KeysApart.entered {site : Nat} {n : Node} (h : KeysApart site n) {kind : SpanKind}
    (hkind : kind.isEntry = true) :
    Apart site (site + n.siteCount) ((site, kind) :: probePoints site n) := by
  have hpos := n.siteCount_pos
  exact h.apart.entry (by omega) h.noEntry hkind

theorem probePointsArms_apart {arms : List Arm} (h : ∀ a ∈ arms, ∀ site, KeysApart site a.body)
    (site : Nat) : Apart site (site + Node.siteCountArms arms) (probePointsArms site arms) := by
  induction arms generalizing site with
  | nil => exact .nil
  | cons a arms ih =>
    obtain ⟨case, body, range⟩ := a
    simp only [List.mem_cons, forall_eq_or_imp] at h
    rw [Node.siteCountArms, ← Nat.add_assoc]
    exact ((h.1 site).entered rfl).append (ih h.2 _) (by omega) (by omega)

theorem probePointsHandlers_apart {handlers : List Handler}
    (h : ∀ a ∈ handlers, ∀ site, KeysApart site a.body) (site : Nat) :
    Apart site (site + Node.siteCountHandlers handlers) (probePointsHandlers site handlers) := by
  induction handlers generalizing site with
  | nil => exact .nil
  | cons a handlers ih =>
    obtain ⟨binding, body, range⟩ := a
    simp only [List.mem_cons, forall_eq_or_imp] at h
    rw [Node.siteCountHandlers, ← Nat.add_assoc]
    exact ((h.1 site).entered rfl).append (ih h.2 _) (by omega) (by omega)

theorem finally_apart {f : Option Node} (h : ∀ n ∈ f, ∀ site, KeysApart site n) (site : Nat) :
    Apart site (site + Node.siteCount? f)
      ((if f.isSome then [(site, .finallyEntry)] else []) ++ probePoints? site f) := by
  cases f with
  | none => exact .nil
  | some n => exact (h n rfl site).entered rfl

/-- **The keys of a tree's points are all different.** -/
theorem keysApart (n : Node) : ∀ site, KeysApart site n := by
  induction n using Node.induct with
  | stmt a range =>
    intro site
    exact .of_own rfl .nil rfl rfl
  | seq ns ih =>
    intro site
    refine .of_parts (probePointsAll_apart ih (site + 1)) ?_
    rw [Node.siteCount]
    omega
  | branch c t e range iht ihe =>
    intro site
    have parts := (iht (site + 1)).apart.append (probePoints?_apart ihe _) (by omega) (by omega)
    refine .of_own rfl parts ?_ rfl
    rw [Node.siteCount]
    omega
  | loop test i c u b range ihi ihu ihb =>
    intro site
    have start := (probePoints?_apart ihi (site + 1)).append (ihb _).apart (by omega) (by omega)
    have parts := start.append (probePoints?_apart ihu _) (by omega) (by omega)
    refine .of_own rfl parts ?_ rfl
    rw [Node.siteCount]
    omega
  | switch value arms range ih =>
    intro site
    refine .of_own rfl (probePointsArms_apart ih (site + 1)) ?_ rfl
    rw [Node.siteCount]
    omega
  | attempt b handlers f range ihb ihh ihf =>
    intro site
    have guardedParts := (ihb (site + 1)).apart.append (probePointsHandlers_apart ihh _)
      (by omega) (by omega)
    have parts := guardedParts.append (finally_apart ihf _) (by omega) (by omega)
    rw [← List.append_assoc] at parts
    refine .of_parts parts ?_
    rw [Node.siteCount]
    omega
  | guarded kind resource b range ihb =>
    intro site
    refine .of_own rfl (ihb (site + 1)).apart ?_ rfl
    rw [Node.siteCount]
    omega
  | label | nested | probe | acquire => exact fun site => ⟨.nil, by simp [probePoints]⟩

/-! ## Evaluation order -/

mutual

/-- The points of a node's tree that can take a probe, live or not, in the order in which they are
evaluated: a loop that tests after its rounds has its header behind its update. -/
def evalPoints (site : Nat) : Node → List (Nat × SpanKind)
  | .stmt .. => [(site, .statement)]
  | .seq children => evalPointsAll (site + 1) children
  | .branch _ t e _ =>
    (site, .condition) :: evalPoints (site + 1) t ++ evalPoints? (site + 1 + t.siteCount) e
  | .loop test i _ u b _ =>
    let bodySite := site + 1 + Node.siteCount? i
    let rounds := evalPoints bodySite b ++ evalPoints? (bodySite + b.siteCount) u
    evalPoints? (site + 1) i
      ++ match test with
        | .before => (site, .loopHeader) :: rounds
        | .after => rounds ++ [(site, .loopHeader)]
  | .switch _ arms _ => (site, .condition) :: evalPointsArms (site + 1) arms
  | .attempt b handlers f _ =>
    let handlerSite := site + 1 + b.siteCount
    let finallySite := handlerSite + Node.siteCountHandlers handlers
    evalPoints (site + 1) b ++ evalPointsHandlers handlerSite handlers
      ++ evalPointsFinally finallySite f
  | .guarded _ _ b _ => (site, .scopeAcquire) :: evalPoints (site + 1) b
  | .label .. | .nested .. | .probe _ | .acquire => []

/-- The points of a sequence's children; only here a label takes a probe. -/
def evalPointsAll (site : Nat) : List Node → List (Nat × SpanKind)
  | [] => []
  | n :: ns =>
    (match n with
      | .label .. => [(site, .label)]
      | _ => [])
      ++ evalPoints site n ++ evalPointsAll (site + n.siteCount) ns

/-- The points of a block that may be missing. -/
def evalPoints? (site : Nat) : Option Node → List (Nat × SpanKind)
  | some n => evalPoints site n
  | none => []

/-- The points of a `finally` block, which may be missing. -/
def evalPointsFinally (site : Nat) : Option Node → List (Nat × SpanKind)
  | some n => (site, .finallyEntry) :: evalPoints site n
  | none => []

/-- The points of switch arms. -/
def evalPointsArms (site : Nat) : List Arm → List (Nat × SpanKind)
  | [] => []
  | ⟨_, body, _⟩ :: arms =>
    (site, .switchArm) :: evalPoints site body ++ evalPointsArms (site + body.siteCount) arms

/-- The points of handlers. -/
def evalPointsHandlers (site : Nat) : List Handler → List (Nat × SpanKind)
  | [] => []
  | ⟨_, body, _⟩ :: handlers =>
    (site, .catchEntry) :: evalPoints site body
      ++ evalPointsHandlers (site + body.siteCount) handlers

end

section Perm

theorem evalPoints?_perm {e : Option Node}
    (h : ∀ n ∈ e, ∀ site, (evalPoints site n).Perm (probePoints site n)) (site : Nat) :
    (evalPoints? site e).Perm (probePoints? site e) := by
  cases e with
  | none => exact .nil
  | some n => exact h n rfl site

theorem evalPointsAll_perm {ns : List Node}
    (h : ∀ n ∈ ns, ∀ site, (evalPoints site n).Perm (probePoints site n)) (site : Nat) :
    (evalPointsAll site ns).Perm (probePointsAll site ns) := by
  induction ns generalizing site with
  | nil => exact .nil
  | cons n ns ih =>
    simp only [List.mem_cons, forall_eq_or_imp] at h
    exact ((h.1 site).append_left _).append (ih h.2 _)

theorem evalPointsArms_perm {arms : List Arm}
    (h : ∀ a ∈ arms, ∀ site, (evalPoints site a.body).Perm (probePoints site a.body))
    (site : Nat) : (evalPointsArms site arms).Perm (probePointsArms site arms) := by
  induction arms generalizing site with
  | nil => exact .nil
  | cons a arms ih =>
    obtain ⟨case, body, range⟩ := a
    simp only [List.mem_cons, forall_eq_or_imp] at h
    exact ((h.1 site).append (ih h.2 _)).cons _

theorem evalPointsHandlers_perm {handlers : List Handler}
    (h : ∀ a ∈ handlers, ∀ site, (evalPoints site a.body).Perm (probePoints site a.body))
    (site : Nat) : (evalPointsHandlers site handlers).Perm (probePointsHandlers site handlers) := by
  induction handlers generalizing site with
  | nil => exact .nil
  | cons a handlers ih =>
    obtain ⟨binding, body, range⟩ := a
    simp only [List.mem_cons, forall_eq_or_imp] at h
    exact ((h.1 site).append (ih h.2 _)).cons _

theorem evalPointsFinally_perm {f : Option Node}
    (h : ∀ n ∈ f, ∀ site, (evalPoints site n).Perm (probePoints site n)) (site : Nat) :
    (evalPointsFinally site f).Perm
      ((if f.isSome then [(site, .finallyEntry)] else []) ++ probePoints? site f) := by
  cases f with
  | none => exact .nil
  | some n => exact (h n rfl site).cons _

/-- Evaluation order and the order of sites have the same points. -/
theorem evalPoints_perm (n : Node) : ∀ site, (evalPoints site n).Perm (probePoints site n) := by
  induction n using Node.induct with
  | stmt | label | nested | probe | acquire => exact fun _ => .refl _
  | seq ns ih => exact fun site => evalPointsAll_perm ih (site + 1)
  | branch c t e range iht ihe =>
    exact fun site => ((iht (site + 1)).append (evalPoints?_perm ihe _)).cons _
  | loop test i c u b range ihi ihu ihb =>
    intro site
    have start := evalPoints?_perm ihi (site + 1)
    have rounds := (ihb (site + 1 + Node.siteCount? i)).append
      (evalPoints?_perm ihu (site + 1 + Node.siteCount? i + b.siteCount))
    simp only [probePoints, List.cons_append, List.append_assoc]
    cases test with
    | before => exact List.perm_middle.trans ((start.append rounds).cons _)
    | after =>
      have header := (List.perm_append_singleton (site, .loopHeader) _).trans (rounds.cons _)
      exact (start.append header).trans List.perm_middle
  | switch value arms range ih => exact fun site => (evalPointsArms_perm ih (site + 1)).cons _
  | attempt b handlers f range ihb ihh ihf =>
    intro site
    simp only [probePoints]
    rw [List.append_assoc]
    exact ((ihb _).append (evalPointsHandlers_perm ihh _)).append (evalPointsFinally_perm ihf _)
  | guarded kind resource b range ihb => exact fun site => (ihb (site + 1)).cons _

end Perm

/-! ## Live points -/

open Analysis

/-- Wherever a tree stands, its live points come in evaluation order. -/
def InOrder (entered : List String) (n : Node) : Prop :=
  ∀ live site, ((points entered live site n).map Point.key).Sublist (evalPoints site n)

section InOrder

variable {entered : List String}

theorem mark_sublist (live : Bool) (kind : SpanKind) (site : Nat) (range : SourceRange) :
    ((mark live kind site range).map Point.key).Sublist [(site, kind)] := by
  cases live with
  | false => exact List.nil_sublist _
  | true => exact .refl _

theorem points?_inOrder {e : Option Node} (h : ∀ n ∈ e, InOrder entered n) (live : Bool)
    (site : Nat) : ((points? entered live site e).map Point.key).Sublist (evalPoints? site e) := by
  cases e with
  | none => exact .slnil
  | some n => exact h n rfl live site

theorem pointsAll_inOrder {ns : List Node}
    (h : ∀ n ∈ ns, labelName? n = none → InOrder entered n) (live : Bool) (site : Nat) :
    ((pointsAll entered live site ns).map Point.key).Sublist (evalPointsAll site ns) := by
  induction ns generalizing live site with
  | nil => exact .slnil
  | cons n ns ih =>
    simp only [List.mem_cons, forall_eq_or_imp] at h
    have rest := ih h.2 (exits entered live n).falls (site + n.siteCount)
    rw [pointsAll, List.map_append]
    cases n with
    | label name range => exact (mark_sublist _ .label site range).append rest
    | _ => exact (h.1 rfl live site).append rest

theorem pointsArms_inOrder {arms : List Arm} (h : ∀ a ∈ arms, InOrder entered a.body)
    (live : Bool) (site : Nat) :
    ((pointsArms entered live site arms).map Point.key).Sublist (evalPointsArms site arms) := by
  induction arms generalizing site with
  | nil => exact .slnil
  | cons a arms ih =>
    obtain ⟨case, body, range⟩ := a
    simp only [List.mem_cons, forall_eq_or_imp] at h
    simp only [pointsArms, List.map_append]
    exact ((mark_sublist _ .switchArm site range).append (h.1 _ _)).append (ih h.2 _)

theorem pointsHandlers_inOrder {handlers : List Handler}
    (h : ∀ a ∈ handlers, InOrder entered a.body) (live : Bool) (site : Nat) :
    ((pointsHandlers entered live site handlers).map Point.key).Sublist
      (evalPointsHandlers site handlers) := by
  induction handlers generalizing site with
  | nil => exact .slnil
  | cons a handlers ih =>
    obtain ⟨binding, body, range⟩ := a
    simp only [List.mem_cons, forall_eq_or_imp] at h
    simp only [pointsHandlers, List.map_append]
    exact ((mark_sublist _ .catchEntry site range).append (h.1 _ _)).append (ih h.2 _)

theorem pointsFinally_inOrder {f : Option Node} (h : ∀ n ∈ f, InOrder entered n) (live live' : Bool)
    (site : Nat) :
    ((markFinally live site f).map Point.key
      ++ (points? entered live' site f).map Point.key).Sublist (evalPointsFinally site f) := by
  cases f with
  | none => exact .slnil
  | some n => exact (mark_sublist live .finallyEntry site n.range).append (h n rfl live' site)

/-- **The live points of a plain tree come in evaluation order**, each at a point of its own that
can take a probe. -/
theorem points_inOrder (n : Node) : Plain n → InOrder entered n := by
  induction n using Node.induct with
  | stmt a range => exact fun _ live site => mark_sublist live .statement site range
  | seq ns ih =>
    intro h live site
    cases h with
    | seq hns => exact pointsAll_inOrder (fun n hn hname => ih n hn (hns n hn hname)) _ _
  | branch c t e range iht ihe =>
    intro h live site
    cases h with
    | branch hc ht he =>
      simp only [points, List.map_append]
      exact ((mark_sublist _ .condition site range).append (iht ht _ _)).append
        (points?_inOrder (fun n hn => ihe n hn (he n hn)) _ _)
  | loop test i c u b range ihi ihu ihb =>
    intro h live site
    cases h with
    | loop hc hi hu hb =>
      have start := points?_inOrder (fun n hn => ihi n hn (hi n hn)) live (site + 1)
      have rounds := fun live' live'' => (ihb hb live' (site + 1 + Node.siteCount? i)).append
        (points?_inOrder (fun n hn => ihu n hn (hu n hn)) live''
          (site + 1 + Node.siteCount? i + b.siteCount))
      simp only [points, List.map_append]
      cases test with
      | before =>
        simp only [List.map_append]
        exact start.append ((mark_sublist _ .loopHeader site range).append (rounds _ _))
      | after =>
        simp only [List.map_append]
        exact start.append ((rounds _ _).append (mark_sublist _ .loopHeader site range))
  | switch value arms range ih =>
    intro h live site
    cases h with
    | switch hv ha =>
      simp only [points, List.map_append]
      exact (mark_sublist _ .condition site range).append
        (pointsArms_inOrder (fun a hmem => ih a hmem (ha a hmem)) _ _)
  | attempt b handlers f range ihb ihh ihf =>
    intro h live site
    cases h with
    | attempt hb hh hf =>
      have inHandlers := pointsHandlers_inOrder fun a hmem => ihh a hmem (hh a hmem)
      have inFinally := pointsFinally_inOrder fun n hn => ihf n hn (hf n hn)
      simp only [points, List.map_append]
      rw [List.append_assoc]
      exact ((ihb hb _ _).append (inHandlers _ _)).append (inFinally _ _ _)
  | guarded kind resource b range ihb =>
    intro h live site
    cases h with
    | guarded he hb =>
      simp only [points, List.map_append]
      exact (mark_sublist _ .scopeAcquire site range).append (ihb hb _ _)
  | nested => exact fun _ _ _ => .slnil
  | label => intro h; cases h
  | probe => intro h; cases h
  | acquire => intro h; cases h

end InOrder

end Injection

namespace CodeUnit

open Injection

theorem probePoints_nodup (u : CodeUnit) : u.probePoints.Nodup := by
  have hroot := keysApart u.root 0
  refine List.nodup_cons.2 ⟨fun hentry => ?_, hroot.apart.nodup⟩
  cases hroot.noEntry _ hentry rfl

/-- The points of a unit that can take a probe, in the order in which they are evaluated. -/
def evalPoints (u : CodeUnit) : List (Nat × SpanKind) :=
  (0, .entry) :: Injection.evalPoints 0 u.root

theorem evalPoints_perm (u : CodeUnit) : u.evalPoints.Perm u.probePoints :=
  (Injection.evalPoints_perm u.root 0).cons _

theorem evalPoints_nodup (u : CodeUnit) : u.evalPoints.Nodup :=
  u.evalPoints_perm.nodup_iff.2 u.probePoints_nodup

/-- The points of a valid unit come in evaluation order. -/
theorem points_inOrder {u : CodeUnit} (h : u.defects = []) :
    (u.points.map Point.key).Sublist u.evalPoints :=
  (Injection.points_inOrder u.root (wellFormed h).1 true 0).cons_cons _

end CodeUnit

/-! ## Tables -/

/-- The site and the kind of the point that a span numbers. -/
def Span.key (s : Span) : Nat × SpanKind := s.point.key

namespace SpanTable

theorem map_key_ofPoints (points : List Point) :
    (ofPoints points).spans.map Span.key = points.map Point.key := by
  show (number 0 points).map Span.key = _
  generalize 0 = start
  induction points generalizing start with
  | nil => rfl
  | cons p points ih => rw [number, List.map_cons, List.map_cons, ih]; rfl

/-- A table in which no two spans have the same site and kind. -/
def Distinct (t : SpanTable) : Prop := (t.spans.map Span.key).Nodup

instance (t : SpanTable) : Decidable t.Distinct := inferInstanceAs (Decidable (List.Nodup _))

/-- **The probe of a span stands at the span's own point.** -/
theorem placement_eq_some_iff {t : SpanTable} (h : t.Distinct) {site : Nat} {kind : SpanKind}
    {index : Nat} :
    t.placement site kind = some index ↔
      ∃ s ∈ t.spans, s.key = (site, kind) ∧ s.index = index := by
  have hkey (s : Span) : (s.site == site && s.kind == kind) = true ↔ s.key = (site, kind) := by
    rw [Bool.and_eq_true, beq_iff_eq, beq_iff_eq]
    exact ⟨fun hs => Prod.ext hs.1 hs.2, fun hs => Prod.mk.inj hs⟩
  unfold placement
  constructor
  · intro hplace
    obtain ⟨s, hs, hindex⟩ := Option.map_eq_some_iff.1 hplace
    have hmem := List.mem_of_getLast? hs
    rw [List.mem_filter, hkey] at hmem
    exact ⟨s, hmem.1, hmem.2, hindex⟩
  · rintro ⟨s, hs, hsk, rfl⟩
    have hmem : s ∈ t.spans.filter fun s => s.site == site && s.kind == kind :=
      List.mem_filter.2 ⟨hs, (hkey s).2 hsk⟩
    obtain ⟨last, hlast⟩ := Option.isSome_iff_exists.1
      (List.getLast?_isSome.2 (List.ne_nil_of_mem hmem))
    have hlastMem := List.mem_of_getLast? hlast
    rw [List.mem_filter, hkey] at hlastMem
    have hsame : last = s :=
      List.inj_on_of_nodup_map h hlastMem.1 hs (hlastMem.2.trans hsk.symm)
    rw [hlast, hsame]
    rfl

/-- The span at each position has that position as its index. -/
theorem index_getElem (t : SpanTable) {i : Nat} (hi : i < t.spans.length) :
    t.spans[i].index = i := by
  have hget : (t.spans.map Span.index)[i]? = some i := by
    rw [t.indices_eq, List.getElem?_range hi]
  rw [List.getElem?_map, List.getElem?_eq_getElem hi] at hget
  exact Option.some.inj hget

/-- Every span gets a probe if its own point can take one. -/
theorem unplaced?_eq_none {t : SpanTable} (h : t.Distinct) {points : List (Nat × SpanKind)}
    (hpoints : ∀ s ∈ t.spans, s.key ∈ points) : t.unplaced? points = none := by
  simp only [unplaced?, List.find?_eq_none, List.mem_range, Bool.not_eq_true', Bool.not_eq_false,
    List.contains_iff_mem]
  intro index hindex
  have hmem := List.getElem_mem (l := t.spans) hindex
  refine List.mem_filterMap.2 ⟨_, hpoints _ hmem, ?_⟩
  exact (placement_eq_some_iff h).2 ⟨_, hmem, rfl, t.index_getElem hindex⟩

/-- What a visit does to the cells of a table: it sets the cell of one span. -/
theorem set_map {t : SpanTable} (h : t.Distinct) {s : Span} (hs : s ∈ t.spans)
    (visited : Span → Bool) :
    (t.spans.map visited).set s.index true =
      t.spans.map fun s' => visited s' || decide (s'.key = s.key) := by
  obtain ⟨j, hj, rfl⟩ := List.getElem_of_mem hs
  rw [t.index_getElem hj]
  refine List.ext_getElem (by simp) fun i hi _ => ?_
  have hlt : i < t.spans.length := by simpa using hi
  rw [List.getElem_set, List.getElem_map, List.getElem_map]
  by_cases hij : j = i
  · subst hij
    rw [if_pos rfl, decide_eq_true rfl, Bool.or_true]
  · rw [if_neg hij]
    have hne : t.spans[i].key ≠ t.spans[j].key := by
      intro hkey
      have hsame := List.inj_on_of_nodup_map h (List.getElem_mem hlt) (List.getElem_mem hj) hkey
      have hindex := congrArg Span.index hsame
      rw [t.index_getElem hlt, t.index_getElem hj] at hindex
      exact hij hindex.symm
    rw [decide_eq_false hne, Bool.or_false]

end SpanTable

/-! ## Units -/

namespace CodeUnit

/-- No two spans of a valid unit have the same site and kind. -/
theorem distinct_spans {u : CodeUnit} (h : u.defects = []) : u.spanMap.spans.Distinct := by
  show ((SpanTable.ofPoints u.points).spans.map Span.key).Nodup
  rw [SpanTable.map_key_ofPoints]
  exact (points_inOrder h).nodup u.evalPoints_nodup

/-- **Every span of a unit's own table gets its probe.** -/
theorem unplaced?_eq_none {u : CodeUnit} (h : u.defects = []) :
    u.spanMap.spans.unplaced? u.probePoints = none := by
  refine SpanTable.unplaced?_eq_none (distinct_spans h) fun s hs => ?_
  have hkey : s.key ∈ u.points.map Point.key := by
    rw [← SpanTable.map_key_ofPoints]
    exact List.mem_map_of_mem hs
  exact u.evalPoints_perm.mem_iff.1 ((points_inOrder h).subset hkey)

/-- The unit with a probe for each span of its own table. -/
def withProbes (u : CodeUnit) : InstrumentedUnit where
  unit := { u with root := Injection.spliceRoot u.spanMap.spans.placement u.root }
  slot := some ⟨u.token, u.spanMap.spans.size⟩
  contractVersion := SpanCoverage.contractVersion

/-- A unit of an accepted program is instrumented with the program's map. -/
theorem instrument_own {p : Program} {coverage : CoverageMap} (accepted : p.analyze = .ok coverage)
    {u : CodeUnit} (hu : u ∈ p.allUnits) (moduleId : ModuleId) :
    u.instrument { moduleId := moduleId } coverage = .ok u.withProbes := by
  have hvalid := (Program.analyze_ok accepted).1 u hu
  rw [instrument_of_known rfl (CoverageMap.unit?_eq accepted hu),
    inject_of_none (unplaced?_eq_none hvalid)]
  rfl

end CodeUnit

/-- **A program is instrumented with its own map without a failure.** -/
theorem Program.instrument_own {p : Program} {coverage : CoverageMap}
    (accepted : p.analyze = .ok coverage) (moduleId : ModuleId) :
    p.instrument { moduleId := moduleId } coverage =
      .ok ⟨p.name, moduleId, p.allUnits.map CodeUnit.withProbes⟩ := by
  have hunits : p.allUnits.mapM (CodeUnit.instrument { moduleId := moduleId } coverage) =
      .ok (p.allUnits.map CodeUnit.withProbes) := by
    rw [mapM_ok_iff, List.map_map]
    exact List.map_congr_left fun u hu => CodeUnit.instrument_own accepted hu moduleId
  rw [Program.instrument_eq, hunits]
  rfl

end SpanCoverage
