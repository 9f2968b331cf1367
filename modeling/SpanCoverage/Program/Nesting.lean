import SpanCoverage.Program.Node

/-!
# Units nested in units

`CodeUnit.all` goes through a unit and then, one after the other, through the units nested directly
in it. So does every function that does something with a unit and then with these, whatever way it
comes upon them. Main statements: `CodeUnit.induct_nested`, the induction from the units nested in a
unit to the unit, and `CodeUnit.eq_mapM_all`, which turns such a function into a loop over `all`.
-/

namespace SpanCoverage.CodeUnit

/-- A unit comes first, and then the units nested directly in it, each with those nested in it. -/
theorem all_eq_directUnits (u : CodeUnit) : u.all = u :: u.root.directUnits.flatMap all := by
  rw [all, allUnits_eq]

/-- A unit nested in another has fewer units in it. -/
theorem length_all_lt {u v : CodeUnit} (h : v ∈ u.root.directUnits) :
    v.all.length < u.all.length := by
  obtain ⟨before, after, hsplit⟩ := List.append_of_mem h
  rw [u.all_eq_directUnits, hsplit]
  simp only [List.length_cons, List.flatMap_append, List.flatMap_cons, List.length_append]
  omega

/-- Induction from the units nested in a unit to the unit. -/
theorem induct_nested {motive : CodeUnit → Prop}
    (step : ∀ u, (∀ v ∈ u.root.directUnits, motive v) → motive u) (u : CodeUnit) : motive u :=
  step u fun v _ => induct_nested step v
termination_by u.all.length
decreasing_by exact length_all_lt ‹_›

/-- A loop over lists joined end to end goes through them one by one. -/
theorem mapM_flatMap {ε α β γ : Type} (f : β → Except ε γ) (g : α → List β) (l : List α) :
    (l.flatMap g).mapM f = do
      let results ← l.mapM fun a => (g a).mapM f
      return results.flatten := by
  induction l with
  | nil => rfl
  | cons a l ih => simp [ih]

/-- A function that does something with a unit, and then itself with the units nested in it, does
the same with all units, one after the other. -/
theorem eq_mapM_all {ε β : Type} {f : CodeUnit → Except ε β} {g : CodeUnit → Except ε (List β)}
    (h : ∀ u, g u = do
      let first ← f u
      let rest ← u.root.directUnits.mapM g
      return first :: rest.flatten)
    (u : CodeUnit) : g u = u.all.mapM f := by
  induction u using induct_nested with
  | step u ih =>
    rw [h, u.all_eq_directUnits, List.mapM_cons, mapM_flatMap]
    have hnested : u.root.directUnits.mapM g = u.root.directUnits.mapM fun v => v.all.mapM f := by
      have hmap := congrArg (List.mapM id) (List.map_congr_left ih)
      rwa [List.mapM_map, List.mapM_map] at hmap
    simp [hnested]

end SpanCoverage.CodeUnit
