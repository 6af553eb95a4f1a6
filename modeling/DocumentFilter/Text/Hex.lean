/-
Hexadecimal digits: read in either case, written in lower case.
-/

namespace DocumentFilter.Text.Hex

/-- The value of a hexadecimal digit of either case. -/
def value? (c : Char) : Option Nat :=
  if '0' ≤ c && c ≤ '9' then some (c.toNat - '0'.toNat)
  else if 'a' ≤ c && c ≤ 'f' then some (c.toNat - 'a'.toNat + 10)
  else if 'A' ≤ c && c ≤ 'F' then some (c.toNat - 'A'.toNat + 10)
  else none

/-- The number written by hexadecimal digits, most significant first; `none` at any other character. -/
def read? (cs : List Char) : Option Nat :=
  cs.foldl (fun n c => do return 16 * (← n) + (← value? c)) (some 0)

/-- `n` in lower-case digits, without leading zeros. -/
def write (n : Nat) : List Char := Nat.toDigits 16 n

/-- `n` in lower-case digits, with leading zeros up to `width` digits. -/
def writePadded (width n : Nat) : List Char :=
  let digits := write n
  List.replicate (width - digits.length) '0' ++ digits

end DocumentFilter.Text.Hex
