import SpanCoverage.Program.Instructions

/-!
# The outside of nested units

A nested unit shows the unit around it nothing but the range it covers. `Node.hollow` is a tree of
which nothing else is left at the boundaries, and `CodeUnit.SameOutside` relates two units that are
the same up to the units at their boundaries, wherever these stand. Main statements:
`Node.siteCount_hollow` and `Node.range_hollow`, since sites and ranges are measured from outside,
and `Node.ownInstructions_subset` on the instructions that a tree has without its nested units.
-/

namespace SpanCoverage

/-- A unit of which nothing is left but the range it covers. -/
def CodeUnit.blank (range : SourceRange) : CodeUnit where
  token := ⟨0⟩
  name := ""
  range := range
  root := .seq []

namespace Node

mutual

/-- The tree with blank units at its boundaries. -/
@[simp] def hollow : Node → Node
  | .stmt s range => .stmt s range
  | .seq children => .seq (hollowAll children)
  | .branch c t e range => .branch c t.hollow (hollow? e) range
  | .loop test i c u b range => .loop test (hollow? i) c (hollow? u) b.hollow range
  | .switch v arms range => .switch v (hollowArms arms) range
  | .attempt b handlers f range => .attempt b.hollow (hollowHandlers handlers) (hollow? f) range
  | .guarded kind resource b range => .guarded kind resource b.hollow range
  | .label name range => .label name range
  | .nested header _ => .nested (CodeUnit.blank header.range).toUnitHeader (.seq [])
  | .probe span => .probe span
  | .acquire => .acquire

/-- The children of a sequence with blank units at their boundaries. -/
@[simp] def hollowAll : List Node → List Node
  | [] => []
  | n :: ns => n.hollow :: hollowAll ns

/-- A child that may be missing, with blank units at its boundaries. -/
@[simp] def hollow? : Option Node → Option Node
  | some n => some n.hollow
  | none => none

/-- Switch arms with blank units at their boundaries. -/
@[simp] def hollowArms : List Arm → List Arm
  | [] => []
  | ⟨case, body, range⟩ :: arms => ⟨case, body.hollow, range⟩ :: hollowArms arms

/-- Handlers with blank units at their boundaries. -/
@[simp] def hollowHandlers : List Handler → List Handler
  | [] => []
  | ⟨binding, body, range⟩ :: handlers =>
    ⟨binding, body.hollow, range⟩ :: hollowHandlers handlers

end

@[simp] theorem isNone_hollow? (e : Option Node) : (hollow? e).isNone = e.isNone := by
  cases e <;> rfl

@[simp] theorem isSome_hollow? (e : Option Node) : (hollow? e).isSome = e.isSome := by
  cases e <;> rfl

@[simp] theorem all_case_hollowArms (arms : List Arm) :
    ((hollowArms arms).all fun arm => arm.case.isSome) = arms.all fun arm => arm.case.isSome := by
  induction arms with
  | nil => rfl
  | cons a arms ih =>
    obtain ⟨case, body, range⟩ := a
    simp [ih]

/-! ## Measures from outside -/

mutual

@[simp] theorem range_hollow : ∀ n : Node, n.hollow.range = n.range
  | .seq ns => by simp [range, coverAll_hollowAll ns]
  | .stmt .. | .branch .. | .loop .. | .switch .. | .attempt .. | .guarded .. | .label ..
  | .nested .. | .probe _ | .acquire => rfl

@[simp] theorem coverAll_hollowAll : ∀ (ns : List Node) (r : SourceRange),
    coverAll r (hollowAll ns) = coverAll r ns
  | [], _ => rfl
  | n :: ns, r => by simp [coverAll, range_hollow n, coverAll_hollowAll ns]

end

mutual

@[simp] theorem siteCount_hollow : ∀ n : Node, n.hollow.siteCount = n.siteCount
  | .seq ns => by simp [siteCount, siteCountAll_hollowAll ns]
  | .branch _ t e _ => by simp [siteCount, siteCount_hollow t, siteCount?_hollow? e]
  | .loop _ i _ u b _ => by
    simp [siteCount, siteCount?_hollow? i, siteCount?_hollow? u, siteCount_hollow b]
  | .switch _ arms _ => by simp [siteCount, siteCountArms_hollowArms arms]
  | .attempt b handlers f _ => by
    simp [siteCount, siteCount_hollow b, siteCountHandlers_hollowHandlers handlers,
      siteCount?_hollow? f]
  | .guarded _ _ b _ => by simp [siteCount, siteCount_hollow b]
  | .stmt .. | .label .. | .nested .. | .probe _ | .acquire => rfl

@[simp] theorem siteCountAll_hollowAll : ∀ ns : List Node,
    siteCountAll (hollowAll ns) = siteCountAll ns
  | [] => rfl
  | n :: ns => by
    simp [siteCountAll, siteCount_hollow n, siteCountAll_hollowAll ns]

@[simp] theorem siteCount?_hollow? : ∀ e : Option Node, siteCount? (hollow? e) = siteCount? e
  | none => rfl
  | some n => siteCount_hollow n

@[simp] theorem siteCountArms_hollowArms : ∀ arms : List Arm,
    siteCountArms (hollowArms arms) = siteCountArms arms
  | [] => rfl
  | ⟨_, body, _⟩ :: arms => by
    simp [siteCountArms, siteCount_hollow body, siteCountArms_hollowArms arms]

@[simp] theorem siteCountHandlers_hollowHandlers : ∀ handlers : List Handler,
    siteCountHandlers (hollowHandlers handlers) = siteCountHandlers handlers
  | [] => rfl
  | ⟨_, body, _⟩ :: handlers => by
    simp [siteCountHandlers, siteCount_hollow body,
      siteCountHandlers_hollowHandlers handlers]

end

/-! ## Instructions of a tree itself -/

/-- The injected instructions of a tree, without those of the units nested in it. -/
def ownInstructions (n : Node) : List Instruction := n.hollow.instructions

@[simp] theorem ownInstructions_branch (c : Expr) (t : Node) (e : Option Node)
    (range : SourceRange) : (Node.branch c t e range).ownInstructions =
      c.instructions ++ t.ownInstructions ++ instructions? (hollow? e) := rfl

@[simp] theorem ownInstructions_switch (v : Expr) (arms : List Arm) (range : SourceRange) :
    (Node.switch v arms range).ownInstructions =
      v.instructions ++ instructionsArms (hollowArms arms) := rfl

@[simp] theorem ownInstructions_attempt (b : Node) (handlers : List Handler) (f : Option Node)
    (range : SourceRange) : (Node.attempt b handlers f range).ownInstructions =
      b.ownInstructions ++ instructionsHandlers (hollowHandlers handlers) ++
        instructions? (hollow? f) := rfl

@[simp] theorem ownInstructions_guarded (kind : GuardKind) (resource : Expr) (b : Node)
    (range : SourceRange) : (Node.guarded kind resource b range).ownInstructions =
      resource.instructions ++ b.ownInstructions := rfl

section OwnInstructions

variable {i : Instruction}

theorem mem_instructionsAll_hollowAll {ns : List Node} :
    i ∈ instructionsAll (hollowAll ns) ↔ ∃ n ∈ ns, i ∈ n.ownInstructions := by
  induction ns with
  | nil => simp [instructionsAll]
  | cons n ns ih => simp [instructionsAll, ih, ownInstructions]

theorem mem_instructions?_hollow? {e : Option Node} :
    i ∈ instructions? (hollow? e) ↔ ∃ n ∈ e, i ∈ n.ownInstructions := by
  cases e <;> simp [instructions?, ownInstructions]

theorem mem_instructionsArms_hollowArms {arms : List Arm} :
    i ∈ instructionsArms (hollowArms arms) ↔ ∃ a ∈ arms, i ∈ a.body.ownInstructions := by
  induction arms with
  | nil => simp [instructionsArms]
  | cons a arms ih =>
    obtain ⟨case, body, range⟩ := a
    simp [instructionsArms, ih, ownInstructions]

theorem mem_instructionsHandlers_hollowHandlers {handlers : List Handler} :
    i ∈ instructionsHandlers (hollowHandlers handlers) ↔
      ∃ a ∈ handlers, i ∈ a.body.ownInstructions := by
  induction handlers with
  | nil => simp [instructionsHandlers]
  | cons a handlers ih =>
    obtain ⟨binding, body, range⟩ := a
    simp [instructionsHandlers, ih, ownInstructions]

theorem mem_ownInstructions_loop {test : TestTime} {init update : Option Node} {cond : Expr}
    {body : Node} {range : SourceRange} :
    i ∈ (Node.loop test init cond update body range).ownInstructions ↔
      i ∈ instructions? (hollow? init) ∨ i ∈ cond.instructions ∨ i ∈ body.ownInstructions ∨
        i ∈ instructions? (hollow? update) :=
  mem_instructions_loop

/-- A tree itself has none but the instructions of the tree. -/
theorem ownInstructions_subset (n : Node) : n.ownInstructions ⊆ n.instructions := by
  have option {e : Option Node} (h : ∀ n ∈ e, n.ownInstructions ⊆ n.instructions) (i : Instruction)
      (hi : i ∈ instructions? (hollow? e)) : i ∈ instructions? e := by
    obtain ⟨n, hn, hi⟩ := mem_instructions?_hollow?.1 hi
    exact mem_instructions?.2 ⟨n, hn, h n hn hi⟩
  induction n using Node.induct with
  | stmt | label | probe | acquire => exact fun _ => id
  | nested => exact fun _ hi => absurd hi List.not_mem_nil
  | seq ns ih =>
    intro i hi
    obtain ⟨n, hn, hi⟩ := mem_instructionsAll_hollowAll.1 hi
    exact mem_instructionsAll.2 ⟨n, hn, ih n hn hi⟩
  | branch c t e r iht ihe =>
    intro i hi
    simp only [ownInstructions_branch, instructions, List.mem_append] at hi ⊢
    exact hi.imp (Or.imp_right (@iht i)) (option ihe i)
  | loop test start c u b r ihi ihu ihb =>
    intro i hi
    rw [mem_ownInstructions_loop] at hi
    rw [mem_instructions_loop]
    exact hi.imp (option ihi i) (Or.imp_right (Or.imp (@ihb i) (option ihu i)))
  | switch v arms r ih =>
    intro i hi
    simp only [ownInstructions_switch, instructions, List.mem_append] at hi ⊢
    refine hi.imp_right fun hi => ?_
    obtain ⟨a, ha, hi⟩ := mem_instructionsArms_hollowArms.1 hi
    exact mem_instructionsArms.2 ⟨a, ha, ih a ha hi⟩
  | attempt b handlers f r ihb ihh ihf =>
    intro i hi
    simp only [ownInstructions_attempt, instructions, List.mem_append] at hi ⊢
    refine hi.imp (Or.imp (@ihb i) fun hi => ?_) (option ihf i)
    obtain ⟨a, ha, hi⟩ := mem_instructionsHandlers_hollowHandlers.1 hi
    exact mem_instructionsHandlers.2 ⟨a, ha, ihh a ha hi⟩
  | guarded kind resource b r ihb =>
    intro i hi
    simp only [ownInstructions_guarded, instructions, List.mem_append] at hi ⊢
    exact hi.imp_right (@ihb i)

end OwnInstructions

end Node

/-- The same unit up to the units at its boundaries, which cover the same ranges. -/
structure CodeUnit.SameOutside (u v : CodeUnit) : Prop where
  header_eq : u.toUnitHeader = v.toUnitHeader
  hollow_eq : u.root.hollow = v.root.hollow

end SpanCoverage
