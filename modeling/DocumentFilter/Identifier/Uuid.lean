/-
UUIDs: 128 bits, written as hexadecimal digits in groups of 8, 4, 4, 4 and 12
joined by hyphens.

`parse?` also reads the digits without hyphens, and the hyphenated form in
braces or behind `urn:uuid:`, with digits and that marker in either case.
`text` writes the hyphenated form in lower case.
-/
import DocumentFilter.Text.Hex

namespace DocumentFilter

/-- A universally unique identifier. -/
structure Uuid where
  bits : BitVec 128
  deriving DecidableEq

namespace Uuid

/-- The sizes of the digit groups. -/
def groupSizes : List Nat := [8, 4, 4, 4, 12]

/-- The digits in groups of the given sizes, joined by hyphens. -/
def group : List Nat → List Char → List Char
  | size :: next :: sizes, digits => digits.take size ++ '-' :: group (next :: sizes) (digits.drop size)
  | _, digits => digits

/-- The digits of text that consists of groups of the given sizes, joined by hyphens. -/
def ungroup? : List Nat → List Char → Option (List Char)
  | size :: next :: sizes, cs =>
    match cs.drop size with
    | '-' :: rest => (ungroup? (next :: sizes) rest).map (cs.take size ++ ·)
    | _ => none
  | _, cs => some cs

/-- The identifier of 32 digits. -/
def ofDigits? (digits : List Char) : Option Uuid :=
  if digits.length = 32 then (Text.Hex.read? digits).map fun n => ⟨BitVec.ofNat 128 n⟩ else none

/-- The identifier of digits in hyphenated groups. -/
def ofGroups? (cs : List Char) : Option Uuid := (ungroup? groupSizes cs).bind ofDigits?

/-- The marker in front of an identifier that is written as a name. -/
def urnMarker : List Char := "urn:uuid:".toList

/-- The text inside braces. -/
def unbrace? : List Char → Option (List Char)
  | '\x7b' :: cs => if cs.getLast? = some '\x7d' then some cs.dropLast else none
  | _ => none

/-- The identifier in any of its written forms. -/
def parse? (text : String) : Option Uuid :=
  let cs := text.toList
  let marked := cs.take urnMarker.length
  match unbrace? cs with
  | some inner => ofGroups? inner
  | none =>
    if marked.map Char.toLower = urnMarker then ofGroups? (cs.drop urnMarker.length)
    else (ofDigits? cs).or (ofGroups? cs)

/-- The lower-case hyphenated form. -/
def text (id : Uuid) : String :=
  String.ofList (group groupSizes (Text.Hex.writePadded 32 id.bits.toNat))

end Uuid

end DocumentFilter
