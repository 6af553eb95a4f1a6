/-
Object ids: 96 bits, written as 24 hexadecimal digits of either case.
-/
import DocumentFilter.Text.Hex

namespace DocumentFilter

/-- An identifier that a document store makes. -/
structure ObjectId where
  bits : BitVec 96
  deriving DecidableEq

namespace ObjectId

/-- The identifier of 24 digits. -/
def parse? (text : String) : Option ObjectId :=
  let digits := text.toList
  if digits.length = 24 then (Text.Hex.read? digits).map fun n => ⟨BitVec.ofNat 96 n⟩ else none

/-- The 24 digits in lower case. -/
def text (id : ObjectId) : String := String.ofList (Text.Hex.writePadded 24 id.bits.toNat)

end ObjectId

end DocumentFilter
