import SpanCoverage.SourceRange

/-!
# Spans and span tables

A span is one point of a unit whose visits are counted. Its index is the position of its cell in
the unit's payload; its kind and site say which point of the unit's tree it is. A span table holds
the spans of one unit, and its indices run from zero up without a gap: `SpanTable.ofPoints` numbers
points in the order in which they come, and `SpanTable.ofSpans` accepts a list that is numbered so.
Main statement: `ofSpans_ok_iff`.
-/

namespace SpanCoverage

/-! ## Kinds -/

/-- What part of a unit a span stands for. -/
inductive SpanKind where
  /-- Entry into the unit. -/
  | entry
  /-- The start of a statement, a jump, a return or a throw. -/
  | statement
  /-- The evaluation of a branch's or a switch's condition. -/
  | condition
  /-- The evaluation of a loop's condition, once for each round attempted. -/
  | loopHeader
  /-- Entry into a switch arm. -/
  | switchArm
  /-- Entry into a `catch` block. -/
  | catchEntry
  /-- Entry into a `finally` block. -/
  | finallyEntry
  /-- Control passes a label. -/
  | label
  /-- The evaluation of a guarded scope's resource. -/
  | scopeAcquire
deriving DecidableEq, Repr

namespace SpanKind

/-- Every kind of span. -/
def all : List SpanKind :=
  [.entry, .statement, .condition, .loopHeader, .switchArm, .catchEntry, .finallyEntry, .label,
    .scopeAcquire]

/-- The kind in a listing. -/
def text : SpanKind → String
  | .entry => "entry"
  | .statement => "stmt"
  | .condition => "cond"
  | .loopHeader => "loop"
  | .switchArm => "arm"
  | .catchEntry => "catch"
  | .finallyEntry => "finally"
  | .label => "label"
  | .scopeAcquire => "scope"

/-- The kind in a coverage map. -/
def longName : SpanKind → String
  | .entry => "unit_entry"
  | .statement => "statement"
  | .condition => "condition"
  | .loopHeader => "loop_header"
  | .switchArm => "switch_arm"
  | .catchEntry => "catch_entry"
  | .finallyEntry => "finally_entry"
  | .label => "label"
  | .scopeAcquire => "scope_acquire"

/-- The kind of a long name. -/
def ofLongName? (name : String) : Option SpanKind := all.find? fun kind => kind.longName == name

/-- A kind is found under its long name. -/
theorem ofLongName?_longName (kind : SpanKind) : ofLongName? kind.longName = some kind := by
  cases kind <;> decide

end SpanKind

/-! ## Spans -/

/-- A point of a unit's tree, with the source it stands for. -/
structure Point where
  kind : SpanKind
  site : Nat
  range : SourceRange
deriving DecidableEq, Repr

/-- A numbered point. -/
structure Span where
  index : Nat
  kind : SpanKind
  site : Nat
  range : SourceRange
deriving DecidableEq, Repr

namespace Span

/-- The point that a span numbers. -/
def point (s : Span) : Point := ⟨s.kind, s.site, s.range⟩

/-- A span in a listing. -/
def text (s : Span) : String :=
  toString s.index ++ ": " ++ s.kind.text ++ " @ " ++ s.range.text

end Span

/-! ## Tables -/

/-- A list of spans whose first index out of place is `found`, at `position`. -/
structure SpanOrderError where
  position : Nat
  found : Nat
deriving DecidableEq, Repr

/-- What is said of a list of spans out of order. -/
def SpanOrderError.message (e : SpanOrderError) : String :=
  "Span table out of order: position " ++ toString e.position ++ " holds span " ++ toString e.found

/-- The spans of one unit: the span at each position has that position as its index. -/
structure SpanTable where
  spans : List Span := []
  indices_eq : spans.map Span.index = List.range spans.length := by rfl

namespace SpanTable

/-- The table without spans. -/
def empty : SpanTable := {}

/-- The number of spans. -/
def size (t : SpanTable) : Nat := t.spans.length

/-- Whether the table has no spans. -/
def isEmpty (t : SpanTable) : Bool := t.spans.isEmpty

/-- The span of an index. -/
def get? (t : SpanTable) (index : Nat) : Option Span := t.spans[index]?

/-- The source range of an index. -/
def range? (t : SpanTable) (index : Nat) : Option SourceRange := (t.get? index).map Span.range

/-- The spans of one kind, in order. -/
def ofKind (t : SpanTable) (kind : SpanKind) : List Span := t.spans.filter (·.kind == kind)

/-- The points, numbered from `start` on. -/
def number (start : Nat) : List Point → List Span
  | [] => []
  | p :: ps => ⟨start, p.kind, p.site, p.range⟩ :: number (start + 1) ps

theorem map_index_number (start : Nat) (ps : List Point) :
    (number start ps).map Span.index = List.range' start ps.length := by
  induction ps generalizing start with
  | nil => rfl
  | cons p ps ih => simp [number, ih, List.range'_succ]

@[simp] theorem length_number (start : Nat) (ps : List Point) :
    (number start ps).length = ps.length := by
  induction ps generalizing start with
  | nil => rfl
  | cons p ps ih => simp [number, ih]

/-- The table that numbers points in the order in which they come. -/
def ofPoints (ps : List Point) : SpanTable where
  spans := number 0 ps
  indices_eq := by rw [map_index_number, length_number, List.range_eq_range']

/-- The first place of a list whose span has another index, where the list starts at `start`. -/
def misplaced (start : Nat) : List Span → Option SpanOrderError
  | [] => none
  | s :: ss => if s.index = start then misplaced (start + 1) ss else some ⟨start, s.index⟩

theorem misplaced_eq_none_iff (start : Nat) (ss : List Span) :
    misplaced start ss = none ↔ ss.map Span.index = List.range' start ss.length := by
  induction ss generalizing start with
  | nil => simp [misplaced]
  | cons s ss ih =>
    by_cases h : s.index = start <;> simp [misplaced, h, ih, List.range'_succ]

/-- The table of a list of spans, if the list is numbered from zero up. -/
def ofSpans (ss : List Span) : Except SpanOrderError SpanTable :=
  match h : misplaced 0 ss with
  | none =>
    .ok ⟨ss, by rw [List.range_eq_range']; exact (misplaced_eq_none_iff 0 ss).1 h⟩
  | some e => .error e

/-- A list of spans is accepted exactly if it is a table's list. -/
theorem ofSpans_ok_iff (ss : List Span) (t : SpanTable) : ofSpans ss = .ok t ↔ t.spans = ss := by
  obtain ⟨spans, indices⟩ := t
  unfold ofSpans
  split
  · rename_i h
    constructor
    · intro e; injection e with e; exact (congrArg SpanTable.spans e).symm
    · rintro rfl; rfl
  · rename_i e h
    constructor
    · intro he; cases he
    · rintro rfl
      rw [List.range_eq_range'] at indices
      rw [(misplaced_eq_none_iff 0 spans).2 indices] at h
      cases h

end SpanTable

end SpanCoverage
