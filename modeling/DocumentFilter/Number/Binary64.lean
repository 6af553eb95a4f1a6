/-
Finite binary64 numbers as exact integers.

Every finite binary64 number is a whole number of units of `2^-1074`. So a
number is kept as a sign, a significand below `2^53` and a scale, and its
magnitude is `significand * 2^scale` units; comparing, truncating and
rounding are then arithmetic on `Nat`. `nearest?` rounds any fraction of
units to the nearest number, a tie to the even significand, and gives
`none` from `2^1024 - 2^970` on, where the format has only infinity.
-/
import DocumentFilter.Number.Power

namespace DocumentFilter

/-- A finite binary64 number: `significand * 2^scale` units of `2^-1074`, with a sign that zero keeps too. -/
structure Binary64 where
  negative : Bool
  significand : Nat
  scale : Nat
  significand_lt : significand < twoPow 53
  scale_le : scale ≤ 2045
  canonical : twoPow 52 ≤ significand ∨ scale = 0
  deriving DecidableEq

namespace Binary64

/-- The number of units in one. -/
def unitsInOne : Nat := twoPow 1074

/-- The magnitude in units. -/
def units (x : Binary64) : Nat := x.significand * twoPow x.scale

/-- The number with the given fields, if they are within the format. -/
def ofFields? (negative : Bool) (significand scale : Nat) : Option Binary64 :=
  if h : significand < twoPow 53 ∧ scale ≤ 2045 ∧ (twoPow 52 ≤ significand ∨ scale = 0) then
    some ⟨negative, significand, scale, h.1, h.2.1, h.2.2⟩
  else
    none

/-- Zero, which has a sign. -/
def zero (negative : Bool) : Binary64 := ⟨negative, 0, 0, by decide, by decide, .inr rfl⟩

/-- The number of the same magnitude and the other sign. -/
def neg (x : Binary64) : Binary64 := { x with negative := !x.negative }

@[simp]
theorem neg_neg (x : Binary64) : x.neg.neg = x := by simp [neg]

@[simp]
theorem units_neg (x : Binary64) : x.neg.units = x.units := rfl

/-! ## Whole numbers -/

/-- The number has no fractional part. -/
def isIntegral (x : Binary64) : Bool := x.units % unitsInOne == 0

/-- The whole part of the magnitude. -/
def wholePart (x : Binary64) : Nat := x.units / unitsInOne

/-- The magnitude lies below `2^63`. -/
def fitsInt64 (x : Binary64) : Bool := x.wholePart < twoPow 63

/-- Zero is not below zero, whatever its sign. -/
def isBelowZero (x : Binary64) : Bool := x.negative && x.units != 0

/-- The whole part with its sign. -/
def truncate (x : Binary64) : Int := if x.negative then -(x.wholePart : Int) else x.wholePart

/-! ## Rounding -/

/-- The whole number nearest to `num / den`; a half goes to the even neighbour. -/
def roundHalfEven (num den : Nat) : Nat :=
  let q := num / den
  let twice := 2 * (num % den)
  if twice < den || (twice == den && q % 2 == 0) then q else q + 1

/-- The number nearest to `num / den` units, a tie to the even significand; `none` is infinity. -/
def nearest? (negative : Bool) (num den : Nat) : Option Binary64 :=
  let scale := (num / den).log2 - 52
  let significand := roundHalfEven num (den * twoPow scale)
  if significand = twoPow 53 then
    ofFields? negative (twoPow 52) (scale + 1)
  else
    ofFields? negative significand scale

/-- The number nearest to an integer. -/
def ofInt? (n : Int) : Option Binary64 := nearest? (decide (n < 0)) (n.natAbs * unitsInOne) 1

end Binary64

end DocumentFilter
