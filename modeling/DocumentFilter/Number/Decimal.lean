/-
Decimal numerals `digits * 10^exponent`: reading one as the nearest binary64
number, and writing one in positional or in exponent notation.
-/
import DocumentFilter.Number.Binary64

namespace DocumentFilter

/-- The magnitude `digits * 10^exponent`. -/
structure Decimal where
  digits : Nat
  exponent : Int
  deriving DecidableEq, Repr

namespace Decimal

/-- The number of decimal digits of `n`, one for zero. -/
def digitCount (n : Nat) : Nat := (Nat.toDigits 10 n).length

/-- The power of ten of the leading digit. -/
def leadingExponent (d : Decimal) : Int := d.exponent + digitCount d.digits - 1

/-! ## Reading -/

/-- Numerals whose leading digit stands at `10^310` or above are beyond the format. -/
def overflowExponent : Int := 310

/-- Numerals whose leading digit stands at `10^-326` or below are nearer to zero than to any other number. -/
def underflowExponent : Int := -326

/-- The nearest binary64 number, a tie to the even significand; `none` where only infinity is near. -/
def toBinary64? (negative : Bool) (d : Decimal) : Option Binary64 :=
  if d.digits = 0 || d.leadingExponent ≤ underflowExponent then
    some (Binary64.zero negative)
  else if overflowExponent ≤ d.leadingExponent then
    none
  else if 0 ≤ d.exponent then
    Binary64.nearest? negative (d.digits * tenPow d.exponent.toNat * Binary64.unitsInOne) 1
  else
    Binary64.nearest? negative (d.digits * Binary64.unitsInOne) (tenPow (-d.exponent).toNat)

/-! ## Writing -/

/-- Removes trailing zeros; `fuel` bounds their number. -/
def trim : Nat → Decimal → Decimal
  | 0, d => d
  | fuel + 1, d =>
    if d.digits ≠ 0 && d.digits % 10 == 0 then trim fuel ⟨d.digits / 10, d.exponent + 1⟩ else d

/-- Where positional notation ends: it is used for leading digits from `10^least` to `10^greatest`. -/
structure Layout where
  least : Int
  greatest : Int

/-- `n` zeros. -/
def zeros (n : Int) : List Char := List.replicate n.toNat '0'

/-- Positional notation, always with a point and a digit on both sides of it. -/
def positional (d : Decimal) : List Char :=
  let digits := Nat.toDigits 10 d.digits
  let whole := d.leadingExponent + 1
  if 0 ≤ d.exponent then digits ++ zeros d.exponent ++ ['.', '0']
  else if 0 < whole then digits.take whole.toNat ++ '.' :: digits.drop whole.toNat
  else '0' :: '.' :: zeros (-whole) ++ digits

/-- Exponent notation: one digit, the others behind a point if there are any, and a signed exponent. -/
def scientific (d : Decimal) : List Char :=
  let mantissa :=
    match Nat.toDigits 10 d.digits with
    | first :: second :: rest => first :: '.' :: second :: rest
    | short => short
  let sign := if d.leadingExponent < 0 then '-' else '+'
  mantissa ++ 'e' :: sign :: Nat.toDigits 10 d.leadingExponent.natAbs

/-- The numeral in the notation its layout asks for. -/
def text (layout : Layout) (d : Decimal) : List Char :=
  if layout.least ≤ d.leadingExponent && d.leadingExponent ≤ layout.greatest then d.positional
  else d.scientific

end Decimal

end DocumentFilter
