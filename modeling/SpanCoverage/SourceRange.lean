/-!
# Source ranges

A half-open range of byte offsets into a unit's source text. A range that does not end after its
start is empty, and covering ignores it. Main statement: `isEmpty_iff`.
-/

namespace SpanCoverage

/-- The bytes from `start` up to but not including `stop`. -/
structure SourceRange where
  start : UInt32 := 0
  stop : UInt32 := 0
deriving DecidableEq, Repr

namespace SourceRange

/-- The range of code that has no place in the source. -/
def none : SourceRange := {}

/-- The number of bytes, zero when the range ends before it starts. -/
def length (r : SourceRange) : UInt32 := if r.stop ≤ r.start then 0 else r.stop - r.start

/-- Whether the range holds no byte. -/
def isEmpty (r : SourceRange) : Bool := r.length == 0

/-- The smallest range around both. An empty range adds nothing, so the other one is the answer. -/
def cover (r s : SourceRange) : SourceRange :=
  if r.isEmpty then s
  else if s.isEmpty then r
  else ⟨min r.start s.start, max r.stop s.stop⟩

/-- A range in a listing: its two offsets with two dots between. -/
def text (r : SourceRange) : String :=
  toString r.start.toNat ++ ".." ++ toString r.stop.toNat

/-- A range is empty exactly if it does not end after its start. -/
theorem isEmpty_iff (r : SourceRange) : r.isEmpty = true ↔ r.stop ≤ r.start := by
  simp only [isEmpty, length, beq_iff_eq]
  constructor
  · intro h
    by_cases hle : r.stop ≤ r.start
    · exact hle
    · rw [if_neg hle] at h
      simp only [UInt32.le_iff_toNat_le, Nat.not_le] at hle ⊢
      have := congrArg UInt32.toNat h
      rw [UInt32.toNat_sub_of_le _ _ (UInt32.le_iff_toNat_le.2 (Nat.le_of_lt hle))] at this
      simp at this
      omega
  · intro h; rw [if_pos h]

end SourceRange

end SpanCoverage
