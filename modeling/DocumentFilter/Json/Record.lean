/-
Decoding records from JSON.

A record is written as an object, where unknown keys are ignored, or as an
array of its fields in order, where trailing fields may be left out. What a
missing field means is decided per field: `required` or `defaulted`.
-/
import DocumentFilter.Json.Basic

namespace DocumentFilter.Json

/-- The values given for the named fields, in the order of the names. -/
def fields? (names : List String) : Json → Option (List (Option Json))
  | .object entries => some (names.map (lookup? · entries))
  | .array items =>
    if items.length ≤ names.length then
      some (items.map some ++ List.replicate (names.length - items.length) none)
    else
      none
  | _ => none

/-- A field that has to be given. -/
def required {α : Type} (decode? : Json → Option α) (field : Option Json) : Option α :=
  field.bind decode?

/-- A field that may be missing. -/
def defaulted {α : Type} (default : α) (decode? : Json → Option α) : Option Json → Option α
  | none => some default
  | some value => decode? value

/-- A string. -/
def string? : Json → Option String
  | .string s => some s
  | _ => none

/-- A boolean. -/
def bool? : Json → Option Bool
  | .bool b => some b
  | _ => none

/-- An integer from zero to below the bound. -/
def natBelow? (bound : Nat) : Json → Option Nat
  | .number (.int n) => if 0 ≤ n && n < bound then some n.toNat else none
  | _ => none

/-- A list. -/
def list? {α : Type} (decode? : Json → Option α) : Json → Option (List α)
  | .array items => items.mapM decode?
  | _ => none

/-- A value, where null stands for none. -/
def optional? {α : Type} (decode? : Json → Option α) : Json → Option (Option α)
  | .null => some none
  | value => (decode? value).map some

end DocumentFilter.Json
