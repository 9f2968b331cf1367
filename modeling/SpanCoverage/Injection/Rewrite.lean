import SpanCoverage.Injection.Splice

/-!
# Taking nested units out

Injection rewrites a tree in one go: it puts the probes in, takes the boundaries of nested units
out, and keeps the units that it took out in the order in which it came upon them.
`Injection.splice` says what is left of the tree. Main statement: `Injection.rewrite_eq`, by which a
rewriting leaves this, and takes out the units that `Node.directUnits` lists.
-/

namespace SpanCoverage.Injection

/-- A rewritten piece of code. -/
structure Rewritten (α : Type) where
  /-- What is left of it. -/
  code : α
  /-- The units that were taken out. -/
  nested : List CodeUnit := []

mutual

/-- A node with probes inside it and the units taken out; the probe in front of it is left to the
place it stands in. -/
def rewrite (place : Placement) (site : Nat) : Node → Rewritten Node
  | .seq children =>
    let inside := rewriteAll place (site + 1) children
    ⟨.seq inside.code, inside.nested⟩
  | .branch c t e range =>
    let yes := rewrite place (site + 1) t
    let no := rewrite? place (site + 1 + t.siteCount) e
    ⟨.branch (probed (place site .condition) c) (asBlock place (site + 1) t yes.code) no.code range,
      yes.nested ++ no.nested⟩
  | .loop test i c u b range =>
    let bodySite := site + 1 + Node.siteCount? i
    let start := rewrite? place (site + 1) i
    let body := rewrite place bodySite b
    let update := rewrite? place (bodySite + b.siteCount) u
    ⟨.loop test start.code (probed (place site .loopHeader) c) update.code
        (asBlock place bodySite b body.code) range,
      start.nested ++ body.nested ++ update.nested⟩
  | .switch v arms range =>
    let inside := rewriteArms place (site + 1) arms
    ⟨.switch (probed (place site .condition) v) inside.code range, inside.nested⟩
  | .attempt b handlers f range =>
    let body := rewrite place (site + 1) b
    let handled := rewriteHandlers place (site + 1 + b.siteCount) handlers
    let cleanup :=
      rewriteFinally place (site + 1 + b.siteCount + Node.siteCountHandlers handlers) f
    ⟨.attempt (asBlock place (site + 1) b body.code) handled.code cleanup.code range,
      body.nested ++ handled.nested ++ cleanup.nested⟩
  | .guarded kind resource b range =>
    let body := rewrite place (site + 1) b
    ⟨.guarded kind (probed (place site .scopeAcquire) resource)
        (asBlock place (site + 1) b body.code) range,
      body.nested⟩
  | .nested header root => ⟨.seq [], [⟨header, root⟩]⟩
  | .stmt s range => { code := .stmt s range }
  | .label name range => { code := .label name range }
  | .probe span => { code := .probe span }
  | .acquire => { code := .acquire }

/-- The children of a sequence with their probes between them. -/
def rewriteAll (place : Placement) (site : Nat) : List Node → Rewritten (List Node)
  | [] => { code := [] }
  | n :: ns =>
    let first := rewrite place site n
    let rest := rewriteAll place (site + n.siteCount) ns
    ⟨asChild place site n first.code ++ rest.code, first.nested ++ rest.nested⟩

/-- A block that may be missing. -/
def rewrite? (place : Placement) (site : Nat) : Option Node → Rewritten (Option Node)
  | some n =>
    let block := rewrite place site n
    ⟨some (asBlock place site n block.code), block.nested⟩
  | none => { code := none }

/-- A `finally` block, which may be missing, with the probe of its entry. -/
def rewriteFinally (place : Placement) (site : Nat) : Option Node → Rewritten (Option Node)
  | some n =>
    let block := rewrite place site n
    ⟨some (behindProbe (place site .finallyEntry) (asBlock place site n block.code)), block.nested⟩
  | none => { code := none }

/-- Switch arms with the probes of their entries. -/
def rewriteArms (place : Placement) (site : Nat) : List Arm → Rewritten (List Arm)
  | [] => { code := [] }
  | ⟨case, body, range⟩ :: arms =>
    let first := rewrite place site body
    let rest := rewriteArms place (site + body.siteCount) arms
    let block := behindProbe (place site .switchArm) (asBlock place site body first.code)
    ⟨⟨case, block, range⟩ :: rest.code, first.nested ++ rest.nested⟩

/-- Handlers with the probes of their entries. -/
def rewriteHandlers (place : Placement) (site : Nat) : List Handler → Rewritten (List Handler)
  | [] => { code := [] }
  | ⟨binding, body, range⟩ :: handlers =>
    let first := rewrite place site body
    let rest := rewriteHandlers place (site + body.siteCount) handlers
    let block := behindProbe (place site .catchEntry) (asBlock place site body first.code)
    ⟨⟨binding, block, range⟩ :: rest.code, first.nested ++ rest.nested⟩

end

mutual

/-- A rewriting splices the probes in and takes out the units nested in the tree. -/
theorem rewrite_eq (place : Placement) : ∀ (n : Node) (site : Nat),
    rewrite place site n = ⟨splice place site n, n.directUnits⟩
  | .stmt .., _ | .label .., _ | .nested .., _ | .probe _, _ | .acquire, _ => rfl
  | .seq ns, _ => by
    simp only [rewrite, rewriteAll_eq place ns]
    rfl
  | .branch _ t e _, _ => by
    simp only [rewrite, rewrite_eq place t, rewrite?_eq place e]
    rfl
  | .loop _ i _ u b _, _ => by
    simp only [rewrite, rewrite?_eq place i, rewrite_eq place b, rewrite?_eq place u]
    rfl
  | .switch _ arms _, _ => by
    simp only [rewrite, rewriteArms_eq place arms]
    rfl
  | .attempt b handlers f _, _ => by
    simp only [rewrite, rewrite_eq place b, rewriteHandlers_eq place handlers,
      rewriteFinally_eq place f]
    rfl
  | .guarded _ _ b _, _ => by
    simp only [rewrite, rewrite_eq place b]
    rfl

theorem rewriteAll_eq (place : Placement) : ∀ (ns : List Node) (site : Nat),
    rewriteAll place site ns = ⟨spliceAll place site ns, Node.directUnitsAll ns⟩
  | [], _ => rfl
  | n :: ns, _ => by
    simp only [rewriteAll, rewrite_eq place n, rewriteAll_eq place ns]
    rfl

theorem rewrite?_eq (place : Placement) : ∀ (e : Option Node) (site : Nat),
    rewrite? place site e = ⟨splice? place site e, Node.directUnits? e⟩
  | none, _ => rfl
  | some n, _ => by
    simp only [rewrite?, rewrite_eq place n]
    rfl

theorem rewriteFinally_eq (place : Placement) : ∀ (e : Option Node) (site : Nat),
    rewriteFinally place site e = ⟨spliceFinally place site e, Node.directUnits? e⟩
  | none, _ => rfl
  | some n, _ => by
    simp only [rewriteFinally, rewrite_eq place n]
    rfl

theorem rewriteArms_eq (place : Placement) : ∀ (arms : List Arm) (site : Nat),
    rewriteArms place site arms = ⟨spliceArms place site arms, Node.directUnitsArms arms⟩
  | [], _ => rfl
  | ⟨_, body, _⟩ :: arms, _ => by
    simp only [rewriteArms, rewrite_eq place body, rewriteArms_eq place arms]
    rfl

theorem rewriteHandlers_eq (place : Placement) : ∀ (handlers : List Handler) (site : Nat),
    rewriteHandlers place site handlers =
      ⟨spliceHandlers place site handlers, Node.directUnitsHandlers handlers⟩
  | [], _ => rfl
  | ⟨_, body, _⟩ :: handlers, _ => by
    simp only [rewriteHandlers, rewrite_eq place body, rewriteHandlers_eq place handlers]
    rfl

end

/-! ## Roots -/

/-- A unit's root behind the creation of its payload and the probe of its entry. -/
def rewriteRoot (place : Placement) (root : Node) : Rewritten Node :=
  let body := rewrite place 0 root
  ⟨.seq (.acquire :: probeNodes (place 0 .entry) ++ probeNodes (lead place 0 root) ++ [body.code]),
    body.nested⟩

theorem rewriteRoot_eq (place : Placement) (root : Node) :
    rewriteRoot place root = ⟨spliceRoot place root, root.directUnits⟩ := by
  rw [rewriteRoot, rewrite_eq]
  rfl

/-- A unit's root with no probe put in. -/
def partRoot (root : Node) : Rewritten Node :=
  let body := rewrite .none 0 root
  ⟨asBlock .none 0 root body.code, body.nested⟩

theorem partRoot_eq (root : Node) : partRoot root = ⟨stripBoundaries root, root.directUnits⟩ := by
  rw [partRoot, rewrite_eq]
  rfl

end SpanCoverage.Injection
