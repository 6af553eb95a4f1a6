/-
JSON numbers: an integer or a finite binary64 number, told apart by how they
were written. `1` and `1.0` are different numbers.
-/
import DocumentFilter.Number.Shortest

namespace DocumentFilter

/-- A number is an integer if it was written as one within range, else the nearest binary64 number. -/
inductive Number where
  | int (n : Int)
  | float (x : Binary64)
  deriving DecidableEq

namespace Number

/-- The least signed 64-bit integer. -/
def minInt64 : Int := -twoPow 63

/-- The greatest signed 64-bit integer. -/
def maxInt64 : Int := twoPow 63 - 1

/-- Integers from the least signed to the greatest unsigned 64-bit integer keep every digit. -/
def isExactInteger (n : Int) : Bool := minInt64 ≤ n && n < twoPow 64

/-- The number that an integer literal stands for; `-0` is the float that keeps the sign. -/
def ofIntegerLiteral? (negative : Bool) (digits : Nat) : Option Number :=
  let n : Int := if negative then -(digits : Int) else digits
  if negative && digits == 0 then some (.float (Binary64.zero true))
  else if isExactInteger n then some (.int n)
  else (Decimal.toBinary64? negative ⟨digits, 0⟩).map .float

/-- The number that a literal with a fraction or an exponent stands for. -/
def ofDecimalLiteral? (negative : Bool) (d : Decimal) : Option Number :=
  (d.toBinary64? negative).map .float

/-- The integer, if it is one within the signed 64-bit range. -/
def toInt64? : Number → Option Int
  | .int n => if minInt64 ≤ n && n ≤ maxInt64 then some n else none
  | .float _ => none

/-- The nearest binary64 number. -/
def toBinary64? : Number → Option Binary64
  | .int n => Binary64.ofInt? n
  | .float x => some x

/-- The number with the other sign.

A nonzero integer stays an integer while its negative is in the signed range.
Zero and the integers beyond become floats, so that the sign is kept: the
negative of `0` is `-0.0`. -/
def negated (n : Number) : Number :=
  let viaFloat := (n.toBinary64?.map fun x => Number.float x.neg).getD n
  match n.toInt64? with
  | some i => if i ≠ 0 && -i ≤ maxInt64 then .int (-i) else viaFloat
  | none => viaFloat

/-- The number's text: an integer in full, a float by its shortest numeral. -/
def text : Number → String
  | .int n => if n < 0 then "-" ++ n.natAbs.repr else n.natAbs.repr
  | .float x => x.text

end Number

end DocumentFilter
