import SpanCoverage.Program.Node

/-!
# Valid units

Which units can be analyzed: injected forms do not occur, labels stand directly in sequences and
are unique in their unit, every `goto` finds its label in an enclosing sequence, and every `break`
and `continue` has a loop (or, for `break`, a switch) around it. `CodeUnit.defects` lists what is
wrong with a unit in the order of its tree, in reachable and unreachable code alike; a nested unit
has a list of its own.
-/

namespace SpanCoverage

/-- Why a program cannot be analyzed. -/
inductive AnalysisError where
  | unsupportedConstruct (unit construct : String) (range : SourceRange)
  | alreadyInstrumented (unit : String)
  | undefinedLabel (unit label : String)
  | duplicateLabel (unit label : String)
  | invalidBreak (unit : String)
  | invalidContinue (unit : String)
  | duplicateToken (token : MethodToken)
deriving DecidableEq, Repr

/-- What is said of a program that cannot be analyzed. -/
def AnalysisError.message : AnalysisError → String
  | .unsupportedConstruct unit construct range =>
    "Unsupported construct in " ++ unit ++ " at " ++ range.text ++ ": " ++ construct
  | .alreadyInstrumented unit => "Unit " ++ unit ++ " is already instrumented"
  | .undefinedLabel unit label => "Undefined label '" ++ label ++ "' in " ++ unit
  | .duplicateLabel unit label => "Duplicate label '" ++ label ++ "' in " ++ unit
  | .invalidBreak unit => "Invalid break statement in " ++ unit ++ " (not in loop or switch)"
  | .invalidContinue unit => "Invalid continue statement in " ++ unit ++ " (not in loop)"
  | .duplicateToken token => "Method token " ++ token.text ++ " used by more than one unit"

namespace Analysis

/-! ## Labels -/

/-- The name of a label node. -/
def labelName? : Node → Option String
  | .label name _ => some name
  | _ => none

/-- The labels that stand directly in a sequence. -/
def labelNames (ns : List Node) : List String := ns.filterMap labelName?

mutual

/-- The labels of every sequence in a node's tree, a sequence's own before those inside it. -/
def labels : Node → List String
  | .seq children => labelNames children ++ labelsAll children
  | .branch _ t e _ => labels t ++ labels? e
  | .loop _ i _ u b _ => labels? i ++ labels b ++ labels? u
  | .switch _ arms _ => labelsArms arms
  | .attempt b handlers f _ => labels b ++ labelsHandlers handlers ++ labels? f
  | .guarded _ _ b _ => labels b
  | .stmt .. | .label .. | .nested .. | .probe _ | .acquire => []

/-- The labels of sequences inside the nodes of a list. -/
def labelsAll : List Node → List String
  | [] => []
  | n :: ns => labels n ++ labelsAll ns

/-- The labels of a child that may be missing. -/
def labels? : Option Node → List String
  | some n => labels n
  | none => []

/-- The labels in switch arms. -/
def labelsArms : List Arm → List String
  | [] => []
  | ⟨_, body, _⟩ :: arms => labels body ++ labelsArms arms

/-- The labels in handlers. -/
def labelsHandlers : List Handler → List String
  | [] => []
  | ⟨_, body, _⟩ :: handlers => labels body ++ labelsHandlers handlers

end

/-! ## Defects -/

/-- What surrounds a node in its unit. -/
structure Context where
  /-- The unit's name, for messages. -/
  unit : String
  /-- The labels of the enclosing sequences. -/
  labels : List String := []
  /-- Whether a loop or a switch takes a `break`. -/
  canLeave : Bool := false
  /-- Whether a loop takes a `continue`. -/
  canRepeat : Bool := false

/-- The surroundings of a loop's body and update. -/
def Context.inLoop (ctx : Context) : Context := { ctx with canLeave := true, canRepeat := true }

/-- The surroundings of a switch's arms. -/
def Context.inSwitch (ctx : Context) : Context := { ctx with canLeave := true }

/-- The surroundings of a sequence's children. -/
def Context.inSeq (ctx : Context) (children : List Node) : Context :=
  { ctx with labels := ctx.labels ++ labelNames children }

/-- A probe in an expression that is to be analyzed. -/
def exprDefects (ctx : Context) (e : Expr) : List AnalysisError :=
  if e.hasProbe then [.alreadyInstrumented ctx.unit] else []

/-- What is wrong with a statement. -/
def stmtDefects (ctx : Context) : Stmt → List AnalysisError
  | .goto label => if label ∈ ctx.labels then [] else [.undefinedLabel ctx.unit label]
  | .leave => if ctx.canLeave then [] else [.invalidBreak ctx.unit]
  | .next => if ctx.canRepeat then [] else [.invalidContinue ctx.unit]
  | s => if s.hasProbe then [.alreadyInstrumented ctx.unit] else []

/-- A defect for each label that is already declared. -/
def repeatedLabels (ctx : Context) (declared : List String) : List String → List AnalysisError
  | [] => []
  | l :: ls =>
    (if l ∈ declared then [.duplicateLabel ctx.unit l] else [])
      ++ repeatedLabels ctx (declared ++ [l]) ls

/-- What is said of a label that is no direct child of a sequence. -/
def strayLabel : String := "label outside a statement list"

mutual

/-- What is wrong with a node and its subtree, where `declared` holds the labels of all sequences
that began before it. -/
def defects (ctx : Context) (declared : List String) : Node → List AnalysisError
  | .stmt s _ => stmtDefects ctx s
  | .seq children =>
    repeatedLabels ctx declared (labelNames children)
      ++ defectsAll (ctx.inSeq children) (declared ++ labelNames children) children
  | .branch c t e _ =>
    exprDefects ctx c ++ defects ctx declared t ++ defects? ctx (declared ++ labels t) e
  | .loop _ i c u b _ =>
    exprDefects ctx c ++ defects? ctx declared i
      ++ defects ctx.inLoop (declared ++ labels? i) b
      ++ defects? ctx.inLoop (declared ++ labels? i ++ labels b) u
  | .switch v arms _ => exprDefects ctx v ++ defectsArms ctx.inSwitch declared arms
  | .attempt b handlers f _ =>
    defects ctx declared b ++ defectsHandlers ctx (declared ++ labels b) handlers
      ++ defects? ctx (declared ++ labels b ++ labelsHandlers handlers) f
  | .guarded _ resource b _ => exprDefects ctx resource ++ defects ctx declared b
  | .label _ range => [.unsupportedConstruct ctx.unit strayLabel range]
  | .nested .. => []
  | .probe _ | .acquire => [.alreadyInstrumented ctx.unit]

/-- What is wrong with the children of a sequence; labels are in place here. -/
def defectsAll (ctx : Context) (declared : List String) : List Node → List AnalysisError
  | [] => []
  | n :: ns =>
    (if (labelName? n).isSome then [] else defects ctx declared n)
      ++ defectsAll ctx (declared ++ labels n) ns

/-- What is wrong with a child that may be missing. -/
def defects? (ctx : Context) (declared : List String) : Option Node → List AnalysisError
  | some n => defects ctx declared n
  | none => []

/-- What is wrong with switch arms. -/
def defectsArms (ctx : Context) (declared : List String) : List Arm → List AnalysisError
  | [] => []
  | ⟨_, body, _⟩ :: arms =>
    defects ctx declared body ++ defectsArms ctx (declared ++ labels body) arms

/-- What is wrong with handlers. -/
def defectsHandlers (ctx : Context) (declared : List String) : List Handler → List AnalysisError
  | [] => []
  | ⟨_, body, _⟩ :: handlers =>
    defects ctx declared body ++ defectsHandlers ctx (declared ++ labels body) handlers

end

end Analysis

/-- What is wrong with a unit, less what is wrong with the units nested in it. -/
def CodeUnit.defects (u : CodeUnit) : List AnalysisError :=
  Analysis.defects { unit := u.name } [] u.root

end SpanCoverage
