import Mathlib.Data.List.Nodup
import SpanCoverage.Analysis.Points

/-!
# Nodes and their sites

`Node.sited` lists the nodes of a tree with their sites.  The sites are those of the pre-order, so a
site belongs to one node only, and what is said of a node can be said of its site.

The main results are:

* `Node.sited_sites` — the sites of a tree are the numbers from its own site on, without a gap.
* `Node.sited_unique` — two nodes of a tree with one site are one node.
-/

namespace SpanCoverage

namespace Node

mutual

/-- The nodes of a tree with their sites, where a nested unit counts as one node. -/
def sited (site : Nat) : Node → List (Nat × Node)
  | .seq ns => (site, .seq ns) :: sitedAll (site + 1) ns
  | .branch c t e r =>
    (site, .branch c t e r) :: (sited (site + 1) t ++ sited? (site + 1 + t.siteCount) e)
  | .loop k i c u b r =>
    let bodySite := site + 1 + siteCount? i
    (site, .loop k i c u b r) ::
      (sited? (site + 1) i ++ sited bodySite b ++ sited? (bodySite + b.siteCount) u)
  | .switch v arms r => (site, .switch v arms r) :: sitedArms (site + 1) arms
  | .attempt b handlers f r =>
    let handlerSite := site + 1 + b.siteCount
    (site, .attempt b handlers f r) ::
      (sited (site + 1) b ++ sitedHandlers handlerSite handlers
        ++ sited? (handlerSite + siteCountHandlers handlers) f)
  | .guarded k e b r => (site, .guarded k e b r) :: sited (site + 1) b
  | .stmt s r => [(site, .stmt s r)]
  | .label l r => [(site, .label l r)]
  | .nested header root => [(site, .nested header root)]
  | .probe span => [(site, .probe span)]
  | .acquire => [(site, .acquire)]

/-- The nodes of several trees. -/
def sitedAll (site : Nat) : List Node → List (Nat × Node)
  | [] => []
  | n :: ns => sited site n ++ sitedAll (site + n.siteCount) ns

/-- The nodes of a child that may be missing. -/
def sited? (site : Nat) : Option Node → List (Nat × Node)
  | some n => sited site n
  | none => []

/-- The nodes of the bodies of switch arms. -/
def sitedArms (site : Nat) : List Arm → List (Nat × Node)
  | [] => []
  | ⟨_, body, _⟩ :: arms => sited site body ++ sitedArms (site + body.siteCount) arms

/-- The nodes of the bodies of handlers. -/
def sitedHandlers (site : Nat) : List Handler → List (Nat × Node)
  | [] => []
  | ⟨_, body, _⟩ :: handlers => sited site body ++ sitedHandlers (site + body.siteCount) handlers

end

/-! ## Sites without a gap -/

/-- Wherever a tree stands, its sites are the numbers from its own site on. -/
def Gapless (n : Node) : Prop :=
  ∀ site, (n.sited site).map Prod.fst = List.range' site n.siteCount

/-- Two parts without a gap, one behind the other. -/
theorem range'_join {site a b : Nat} {xs ys : List (Nat × Node)}
    (hx : xs.map Prod.fst = List.range' site a)
    (hy : ys.map Prod.fst = List.range' (site + a) b) :
    (xs ++ ys).map Prod.fst = List.range' site (a + b) := by
  rw [List.map_append, hx, hy, List.range'_append_1]

/-- A node in front of its parts. -/
theorem range'_own {site a : Nat} {n : Node} {xs : List (Nat × Node)}
    (h : xs.map Prod.fst = List.range' (site + 1) a) :
    ((site, n) :: xs).map Prod.fst = List.range' site (1 + a) := by
  rw [List.map_cons, h, Nat.add_comm 1 a, List.range'_succ]

theorem sited?_sites {e : Option Node} (h : ∀ n ∈ e, Gapless n) (site : Nat) :
    (sited? site e).map Prod.fst = List.range' site (siteCount? e) := by
  cases e with
  | none => rfl
  | some n => exact h n rfl site

theorem sitedAll_sites {ns : List Node} (h : ∀ n ∈ ns, Gapless n) (site : Nat) :
    (sitedAll site ns).map Prod.fst = List.range' site (siteCountAll ns) := by
  induction ns generalizing site with
  | nil => rfl
  | cons n ns ih =>
    simp only [List.mem_cons, forall_eq_or_imp] at h
    exact range'_join (h.1 site) (ih h.2 _)

theorem sitedArms_sites {arms : List Arm} (h : ∀ a ∈ arms, Gapless a.body) (site : Nat) :
    (sitedArms site arms).map Prod.fst = List.range' site (siteCountArms arms) := by
  induction arms generalizing site with
  | nil => rfl
  | cons a arms ih =>
    obtain ⟨case, body, range⟩ := a
    simp only [List.mem_cons, forall_eq_or_imp] at h
    exact range'_join (h.1 site) (ih h.2 _)

theorem sitedHandlers_sites {handlers : List Handler} (h : ∀ a ∈ handlers, Gapless a.body)
    (site : Nat) :
    (sitedHandlers site handlers).map Prod.fst = List.range' site (siteCountHandlers handlers) := by
  induction handlers generalizing site with
  | nil => rfl
  | cons a handlers ih =>
    obtain ⟨binding, body, range⟩ := a
    simp only [List.mem_cons, forall_eq_or_imp] at h
    exact range'_join (h.1 site) (ih h.2 _)

/-- **The sites of a tree are the numbers from its own site on, without a gap.** -/
theorem sited_sites (n : Node) : Gapless n := by
  induction n using Node.induct with
  | stmt | label | nested | probe | acquire => exact fun _ => rfl
  | seq ns ih => exact fun site => range'_own (sitedAll_sites ih _)
  | branch c t e range iht ihe =>
    intro site
    rw [siteCount, Nat.add_assoc]
    exact range'_own (range'_join (iht _) (sited?_sites ihe _))
  | loop test i c u b range ihi ihu ihb =>
    intro site
    rw [siteCount, Nat.add_assoc 1, Nat.add_assoc 1]
    refine range'_own (range'_join (range'_join (sited?_sites ihi _) (ihb _)) ?_)
    rw [← Nat.add_assoc]
    exact sited?_sites ihu _
  | switch value arms range ih => exact fun site => range'_own (sitedArms_sites ih _)
  | attempt b handlers f range ihb ihh ihf =>
    intro site
    rw [siteCount, Nat.add_assoc 1, Nat.add_assoc 1]
    refine range'_own (range'_join (range'_join (ihb _) (sitedHandlers_sites ihh _)) ?_)
    rw [← Nat.add_assoc]
    exact sited?_sites ihf _
  | guarded kind resource b range ihb => exact fun site => range'_own (ihb _)

/-- **A site belongs to one node only.** -/
theorem sited_unique {root : Node} {first site : Nat} {n m : Node}
    (hn : (site, n) ∈ root.sited first) (hm : (site, m) ∈ root.sited first) : n = m := by
  have hsites : ((root.sited first).map Prod.fst).Nodup := by
    rw [sited_sites]
    exact List.nodup_range'
  exact congrArg Prod.snd (List.inj_on_of_nodup_map hsites hn hm rfl)

end Node

end SpanCoverage
