/-
The shortest decimal numeral of a binary64 number: the one with the fewest
digits among those that read back as the number, of these the nearest to
it, of two equally near ones the even one.

The reals that read back as `x` form an interval around it, the midpoints to
its two neighbours included exactly when the significand of `x` is even. On
the grid of `k`-digit numerals only the two neighbours of `x` need a look:
if any point of the grid lies in the interval, so does one of them. All
comparisons are between natural numbers.
-/
import DocumentFilter.Number.Decimal

namespace DocumentFilter.Binary64

/-- Magnitudes are compared as multiples of `10^-gridFloor` times `2^-1076`, fine enough for every grid. -/
def gridFloor : Nat := 400

/-- The magnitude of `x` in quarters of a unit. -/
def quarters (x : Binary64) : Nat := 4 * x.units

/-- The midpoint to the next smaller number, in quarters of a unit. -/
def lowerMidpoint (x : Binary64) : Nat :=
  if x.significand = twoPow 52 && x.scale != 0 then x.quarters - twoPow x.scale
  else x.quarters - 2 * twoPow x.scale

/-- The midpoint to the next larger number, in quarters of a unit. -/
def upperMidpoint (x : Binary64) : Nat := x.quarters + 2 * twoPow x.scale

/-- `n * 10^exponent` reads back as the magnitude of `x`. -/
def readsBack (x : Binary64) (d : Decimal) : Bool :=
  let point := d.digits * tenPow (d.exponent + gridFloor).toNat * (4 * unitsInOne)
  let lower := x.lowerMidpoint * tenPow gridFloor
  let upper := x.upperMidpoint * tenPow gridFloor
  if x.significand % 2 == 0 then lower ≤ point && point ≤ upper
  else lower < point && point < upper

/-- One more than the power of ten of the leading digit of `x`. -/
def pointPosition (x : Binary64) : Int :=
  (Decimal.digitCount (x.quarters * tenPow gridFloor / (4 * unitsInOne)) : Int) - gridFloor

/-- The numeral of `k` digits nearest to `x`, if one of `k` digits reads back. -/
def candidate? (x : Binary64) (k : Nat) : Option Decimal :=
  let exponent := x.pointPosition - k
  let num := x.quarters * tenPow gridFloor
  let den := 4 * unitsInOne * tenPow (exponent + gridFloor).toNat
  let below : Decimal := ⟨num / den, exponent⟩
  let above : Decimal := ⟨num / den + 1, exponent⟩
  match x.readsBack below, x.readsBack above with
  | true, true => some ⟨roundHalfEven num den, exponent⟩
  | true, false => some below
  | false, true => some above
  | false, false => none

/-- Seventeen digits always suffice. -/
def maxDigits : Nat := 17

/-- The shortest numeral that reads back as the magnitude of `x`, without trailing zeros. -/
def shortest (x : Binary64) : Decimal :=
  if x.significand = 0 then ⟨0, 0⟩
  else
    match (List.range maxDigits).findSome? fun i => x.candidate? (i + 1) with
    | some d => d.trim maxDigits
    | none => ⟨x.wholePart, 0⟩

/-- Numbers from `0.00001` to below `10^16` are written positionally. -/
def layout : Decimal.Layout := ⟨-5, 15⟩

/-- The number's text: its sign, zero's too, and its shortest numeral. -/
def text (x : Binary64) : String :=
  let magnitude := x.shortest.text layout
  String.ofList (if x.negative then '-' :: magnitude else magnitude)

end DocumentFilter.Binary64
