import SpanCoverage.Digest
import SpanCoverage.Text.Hex

/-!
# Identity of units and modules

A unit is named by its method token, a 32-bit word whose high byte is a table tag and whose low
three bytes are the row of the method in its table. A compiled module is named by a 128-bit id,
which can be derived from the module's bytes. Main statement: `toNat_methodIndex`, the row is the
token modulo two to the twenty-four.
-/

namespace SpanCoverage

/-! ## Method tokens -/

/-- The metadata token of a compiled unit. -/
structure MethodToken where
  raw : UInt32
deriving DecidableEq, Repr

namespace MethodToken

/-- The table tag of methods. -/
def methodTable : UInt32 := 0x06

/-- The bits of a token that hold the row. -/
def indexMask : UInt32 := 0x00FFFFFF

/-- The token of a row of the method table. Bits of the row above the mask are dropped. -/
def ofRow (row : UInt32) : MethodToken := ⟨(methodTable <<< 24) ||| (row &&& indexMask)⟩

/-- The row of a token, whatever its tag: the key under which a payload is reported. -/
def methodIndex (token : MethodToken) : UInt32 := token.raw &&& indexMask

/-- The high byte of a token. -/
def tableTag (token : MethodToken) : UInt32 := token.raw >>> 24

/-- A token in a listing: `0x` and eight hexadecimal digits. -/
def text (token : MethodToken) : String :=
  String.ofList ('0' :: 'x' :: Text.hexPadded 8 token.raw.toNat)

/-- The row as a number: the token modulo two to the twenty-four. -/
theorem toNat_methodIndex (token : MethodToken) :
    token.methodIndex.toNat = token.raw.toNat % 0x1000000 := by
  simp only [methodIndex, indexMask, UInt32.toNat_and]
  exact Nat.and_two_pow_sub_one_eq_mod token.raw.toNat 24

end MethodToken

/-! ## Module ids -/

/-- The version of one compiled module. -/
structure ModuleId where
  raw : BitVec 128
deriving DecidableEq, Repr

namespace ModuleId

/-- The id that stands where none was given. -/
def zero : ModuleId := ⟨0⟩

/-- The id of a module with these bytes: the first sixteen bytes of their digest. -/
def ofContent (bytes : List UInt8) : ModuleId :=
  let digest := Digest.sha256 bytes
  ⟨digest.a.toBitVec ++ digest.b.toBitVec ++ digest.c.toBitVec ++ digest.d.toBitVec⟩

/-- An id in a listing: thirty-two hexadecimal digits. -/
def text (id : ModuleId) : String := String.ofList (Text.hexPadded 32 id.raw.toNat)

end ModuleId

end SpanCoverage
