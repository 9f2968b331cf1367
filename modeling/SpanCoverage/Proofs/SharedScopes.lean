import Mathlib.Data.List.Nodup
import SpanCoverage.Host.Heap

/-!
# Variables of shared scopes

Scopes are shared.  A closure keeps the scope it was made in alive, every activation of the closure
makes one more scope inside that one, and the handlers of a unit bind their variables in the scope
of its activation.  So one write can show in many scopes: in exactly those for which the written
scope is the nearest one that binds the name.

The main results are:

* `Forest.ids_eq`, `Forest.linked` — every scope has a name of its own, and around it stand the
  scope that it was made in and the scopes around that one.
* `Heap.bindIn_shows` — in which scopes a write to one scope shows.
* `write_hits_nearest` — assignments and definitions write to the scope that they are to write to.
-/

namespace SpanCoverage.Host

/-! ## Forests -/

/-- The heaps that a program can come by, with the scopes made so far, the latest first: a new scope
stands inside a scope made before or on its own, and variables are defined and assigned in scopes
that exist.  A closure over one of the scopes may be made at any time. -/
inductive Forest : Heap → List Scope → Prop
  | empty : Forest {} []
  | grow {h : Heap} {scopes : List Scope} (forest : Forest h scopes) (parent : Option Scope)
    (made : ∀ p ∈ parent, p ∈ scopes) :
    Forest (h.newScope parent).2 ((h.newScope parent).1 :: scopes)
  | close {h : Heap} {scopes : List Scope} (forest : Forest h scopes) (unit : MethodToken)
    {s : Scope} (made : s ∈ scopes) : Forest (h.newClosure unit s).2 scopes
  | define {h : Heap} {scopes : List Scope} (forest : Forest h scopes) {s : Scope}
    (made : s ∈ scopes) (x : String) (v : Value) : Forest (h.define s x v) scopes
  | assign {h : Heap} {scopes : List Scope} (forest : Forest h scopes) {s : Scope}
    (made : s ∈ scopes) (x : String) (v : Value) : Forest (h.assign s x v) scopes

namespace Heap

@[simp] theorem size_bindIn (h : Heap) (id : Nat) (x : String) (v : Value) :
    (h.bindIn id x v).scopes.size = h.scopes.size := Array.size_modify

/-- A scope binds a name. -/
def Binds (h : Heap) (id : Nat) (x : String) : Prop := (h.binding? id x).isSome

/-- No scope on a scope's chain binds a name. -/
def Unbound (h : Heap) (s : Scope) (x : String) : Prop := ∀ id ∈ s.chain, ¬ h.Binds id x

/-- The nearest scope on a scope's chain that binds a name: it binds it, and no scope in front of it
on the chain does. -/
def Nearest (h : Heap) (s : Scope) (x : String) (id : Nat) : Prop :=
  ∃ inner outer, s.chain = inner ++ id :: outer ∧ h.Binds id x ∧ ∀ i ∈ inner, ¬ h.Binds i x

/-- The scope that takes an assignment: the nearest one that binds the name, or the scope itself if
none does. -/
def Takes (h : Heap) (s : Scope) (x : String) (b : Scope) : Prop :=
  h.Nearest s x b.id ∨ (h.Unbound s x ∧ b = s)

/-- Where a write to one scope shows: a lookup of the name gives the value if the written scope is
now the nearest one that binds the name, and what it gave before if not; a lookup of any other name
gives what it gave before. -/
structure Shows (h h' : Heap) (id : Nat) (x : String) (v : Value) : Prop where
  hit : ∀ t, h'.Nearest t x id → h'.lookup t x = some v
  miss : ∀ t, ¬ h'.Nearest t x id → h'.lookup t x = h.lookup t x
  others : ∀ t y, y ≠ x → h'.lookup t y = h.lookup t y

variable {h : Heap} {s : Scope} {x : String} {id : Nat}

theorem binder?_eq_some_iff : h.binder? x s.chain = some id ↔ h.Nearest s x id := by
  rw [binder?, List.find?_eq_some_iff_append]
  constructor
  · rintro ⟨hbinds, inner, outer, hchain, hinner⟩
    exact ⟨inner, outer, hchain, hbinds, fun i hi => by simpa [Binds] using hinner i hi⟩
  · rintro ⟨inner, outer, hchain, hbinds, hinner⟩
    exact ⟨hbinds, inner, outer, hchain, fun i hi => by simpa [Binds] using hinner i hi⟩

theorem binder?_eq_none_iff : h.binder? x s.chain = none ↔ h.Unbound s x := by
  simp only [binder?, List.find?_eq_none, Unbound, Binds]

/-- A lookup reads the nearest scope that binds the name. -/
theorem lookup_of_nearest (hn : h.Nearest s x id) : h.lookup s x = h.binding? id x := by
  rw [lookup, binder?_eq_some_iff.2 hn, Option.bind_some]

theorem lookup_of_unbound (hu : h.Unbound s x) : h.lookup s x = none := by
  rw [lookup, binder?_eq_none_iff.2 hu, Option.bind_none]

/-- Some scope on the chain is the nearest one that binds a name, or none binds it. -/
theorem nearest_or_unbound (h : Heap) (s : Scope) (x : String) :
    (∃ id, h.Nearest s x id) ∨ h.Unbound s x := by
  cases hb : h.binder? x s.chain with
  | none => exact .inr (binder?_eq_none_iff.1 hb)
  | some id => exact .inl ⟨id, binder?_eq_some_iff.1 hb⟩

/-! ### Writes to one scope -/

section Writes

variable (hid : id < h.scopes.size) (v : Value)

include hid

/-- A scope binds behind a write what it bound before, and the written scope the name. -/
theorem binds_bindIn {i : Nat} {y : String} :
    (h.bindIn id x v).Binds i y ↔ (i = id ∧ y = x) ∨ h.Binds i y := by
  unfold Binds
  rw [binding?_bindIn h id i x y v hid]
  by_cases hi : i = id ∧ y = x
  · simp [hi]
  · simp [hi]

/-- Behind a write, another scope than the written one is the nearest only if it was so before. -/
theorem nearest_of_bindIn {t : Scope} {i : Nat} (hn : (h.bindIn id x v).Nearest t x i)
    (hi : i ≠ id) : h.Nearest t x i := by
  obtain ⟨inner, outer, hchain, hbinds, hinner⟩ := hn
  refine ⟨inner, outer, hchain, ?_, fun j hj hold => ?_⟩
  · exact ((binds_bindIn hid v).1 hbinds).resolve_left fun h => hi h.1
  · exact hinner j hj ((binds_bindIn hid v).2 (.inr hold))

theorem unbound_of_bindIn {t : Scope} (hu : (h.bindIn id x v).Unbound t x) : h.Unbound t x :=
  fun i hi hold => hu i hi ((binds_bindIn hid v).2 (.inr hold))

/-- **A write to one scope shows exactly where that scope is the nearest that binds the name.** -/
theorem bindIn_shows : h.Shows (h.bindIn id x v) id x v where
  hit t hn := by
    rw [lookup_of_nearest hn, binding?_bindIn h id id x x v hid, if_pos ⟨rfl, rfl⟩]
  miss t hn := by
    rcases (h.bindIn id x v).nearest_or_unbound t x with ⟨i, hi⟩ | hu
    · -- what the lookup reads is another scope, and it was read before
      have hne : i ≠ id := fun e => hn (e ▸ hi)
      rw [lookup_of_nearest hi, lookup_of_nearest (nearest_of_bindIn hid v hi hne),
        binding?_bindIn h id i x x v hid, if_neg fun e => hne e.1]
    · rw [lookup_of_unbound hu, lookup_of_unbound (unbound_of_bindIn hid v hu)]
  others t y hy := by
    have same (i : Nat) : (h.bindIn id x v).binding? i y = h.binding? i y := by
      rw [binding?_bindIn h id i x y v hid, if_neg fun e => hy e.2]
    simp only [lookup, binder?, same]

end Writes

end Heap

/-! ## Scopes of a forest -/

namespace Forest

open Heap

variable {h : Heap} {scopes : List Scope}

/-- **Scopes have names of their own**: they are numbered in the order in which they are made. -/
theorem ids_eq (forest : Forest h scopes) :
    scopes.map Scope.id = (List.range h.scopes.size).reverse := by
  induction forest with
  | empty => rfl
  | grow _ parent _ ih => simp [newScope, List.range_succ, ih]
  | close _ _ _ ih => exact ih
  | define _ _ x v ih => rw [ih, Heap.define, size_bindIn]
  | assign _ _ x v ih => rw [ih, Heap.assign, size_bindIn]

/-- **Around a scope stand the scope it was made in and the scopes around that one**, or nothing. -/
theorem linked (forest : Forest h scopes) :
    ∀ s ∈ scopes, s.outer = [] ∨ ∃ p ∈ scopes, s.outer = p.chain := by
  induction forest with
  | empty => exact nofun
  | @grow h scopes _ parent made ih =>
    intro s hs
    rcases List.mem_cons.1 hs with rfl | hs
    · cases parent with
      | none => exact .inl rfl
      | some p => exact .inr ⟨p, List.mem_cons_of_mem _ (made p rfl), rfl⟩
    · rcases ih s hs with hroot | ⟨p, hp, hparent⟩
      · exact .inl hroot
      · exact .inr ⟨p, List.mem_cons_of_mem _ hp, hparent⟩
  | close _ _ _ ih | define _ _ _ _ ih | assign _ _ _ _ ih => exact ih

theorem exists_scope_iff (forest : Forest h scopes) {id : Nat} :
    (∃ s ∈ scopes, s.id = id) ↔ id < h.scopes.size := by
  rw [← List.mem_map, forest.ids_eq, List.mem_reverse, List.mem_range]

/-- A scope that binds a name is one of the forest. -/
theorem exists_scope_of_binds (forest : Forest h scopes) {id : Nat} {x : String}
    (hb : h.Binds id x) : ∃ s ∈ scopes, s.id = id := by
  rw [forest.exists_scope_iff]
  refine Nat.lt_of_not_le fun hid => ?_
  rw [Binds, binding?, Array.getD_eq_getD_getElem?, Array.getElem?_eq_none hid] at hb
  cases hb

variable {s : Scope} {x : String}

/-- Some scope of the forest takes an assignment. -/
theorem exists_takes (forest : Forest h scopes) (made : s ∈ scopes) (x : String) :
    ∃ b ∈ scopes, h.Takes s x b := by
  rcases h.nearest_or_unbound s x with ⟨id, inner, outer, hchain, hbinds, hinner⟩ | hu
  · obtain ⟨b, hb, rfl⟩ := forest.exists_scope_of_binds hbinds
    exact ⟨b, hb, .inl ⟨inner, outer, hchain, hbinds, hinner⟩⟩
  · exact ⟨s, made, .inr ⟨hu, rfl⟩⟩

theorem id_lt_of_takes (forest : Forest h scopes) (made : s ∈ scopes) {b : Scope}
    (hb : h.Takes s x b) : b.id < h.scopes.size := by
  rcases hb with ⟨_, _, _, hbinds, _⟩ | ⟨_, rfl⟩
  · exact forest.exists_scope_iff.1 (forest.exists_scope_of_binds hbinds)
  · exact forest.exists_scope_iff.1 ⟨b, made, rfl⟩

end Forest

/-! ## Assignments and definitions -/

/-- An assignment writes to the scope that takes it. -/
theorem Heap.assign_of_takes {h : Heap} {s b : Scope} {x : String} (hb : h.Takes s x b)
    (v : Value) : h.assign s x v = h.bindIn b.id x v := by
  rcases hb with hn | ⟨hu, rfl⟩
  · rw [assign, binder?_eq_some_iff.2 hn, Option.getD_some]
  · rw [assign, binder?_eq_none_iff.2 hu, Option.getD_none]

/-- **A write goes to the scope that takes it, and shows exactly where that scope is the nearest one
that binds the name.**  An assignment is taken by the nearest scope on the chain that bound the name
before, and if none did by the scope itself; a definition always by the scope itself.  Every scope
has a name of its own, and its chain goes on with the scope that it was made in. -/
theorem write_hits_nearest {h : Heap} {scopes : List Scope} (forest : Forest h scopes) {s : Scope}
    (made : s ∈ scopes) (x : String) (v : Value) :
    (scopes.map Scope.id).Nodup ∧
      (∀ t ∈ scopes, t.outer = [] ∨ ∃ p ∈ scopes, t.outer = p.chain) ∧
      (∃ b ∈ scopes, h.Takes s x b) ∧
      (∀ b, h.Takes s x b → h.Shows (h.assign s x v) b.id x v) ∧
      h.Shows (h.define s x v) s.id x v := by
  refine ⟨?_, forest.linked, forest.exists_takes made x, fun b hb => ?_, ?_⟩
  · rw [forest.ids_eq, List.nodup_reverse]
    exact List.nodup_range
  · rw [Heap.assign_of_takes hb]
    exact Heap.bindIn_shows (forest.id_lt_of_takes made hb) v
  · exact Heap.bindIn_shows (forest.exists_scope_iff.1 ⟨s, made, rfl⟩) v

/-- A scope that binds a name, with two scopes inside it; the later one binds the name again. -/
def family : Heap :=
  let outer := (({} : Heap).newScope none).2.define ⟨0, []⟩ "y" (.int 5)
  let inside := ((outer.newScope (some ⟨0, []⟩)).2.newScope (some ⟨0, []⟩)).2
  inside.define ⟨2, [0]⟩ "y" (.int 7)

theorem family_forest : Forest family [⟨2, [0]⟩, ⟨1, [0]⟩, ⟨0, []⟩] := by
  have outer := (Forest.empty.grow none nofun).define List.mem_cons_self "y" (.int 5)
  have first := outer.grow (some ⟨0, []⟩) fun _ hp => Option.mem_some_iff.1 hp ▸ .head _
  have second := first.grow (some ⟨0, []⟩) fun _ hp => Option.mem_some_iff.1 hp ▸ .tail _ (.head _)
  exact second.define List.mem_cons_self "y" (.int 7)

/-- An assignment in one of the two scopes inside shows in the scope around them, but not in the
other one. -/
theorem family_hits :
    (family.assign ⟨1, [0]⟩ "y" (.int 75)).lookup ⟨0, []⟩ "y" = some (.int 75) ∧
      (family.assign ⟨1, [0]⟩ "y" (.int 75)).lookup ⟨1, [0]⟩ "y" = some (.int 75) ∧
      (family.assign ⟨1, [0]⟩ "y" (.int 75)).lookup ⟨2, [0]⟩ "y" = some (.int 7) := by
  have taken : family.Takes ⟨1, [0]⟩ "y" ⟨0, []⟩ :=
    .inl (Heap.binder?_eq_some_iff.1 (by decide))
  have shows := (write_hits_nearest family_forest (.tail _ (.head _)) "y"
    (.int 75)).2.2.2.1 _ taken
  refine ⟨shows.hit _ (Heap.binder?_eq_some_iff.1 ?_), shows.hit _ (Heap.binder?_eq_some_iff.1 ?_),
    (shows.miss _ fun hn => ?_).trans ?_⟩
  · decide
  · decide
  · exact absurd (Heap.binder?_eq_some_iff.2 hn) (by decide)
  · decide

end SpanCoverage.Host
