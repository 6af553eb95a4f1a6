/-
Limits on filters: how many values a membership test may list, and how many
primitives a resolved filter may hold.
-/
import DocumentFilter.Json.Record

namespace DocumentFilter

/-- The limits that apply while a filter is compiled. -/
structure Limits where
  maxInValues : Nat := 100
  maxFilters : Nat := 64
  deriving DecidableEq, Repr

namespace Limits

/-- The limits that JSON describes; what is left out has its usual value. -/
def ofJson? (json : Json) : Option Limits := do
  match ← json.fields? ["max_in_operator_value_size", "max_filter_object_properties"] with
  | [values, filters] =>
    let usual : Limits := {}
    return {
      maxInValues := ← Json.defaulted usual.maxInValues (Json.natBelow? (twoPow 64)) values
      maxFilters := ← Json.defaulted usual.maxFilters (Json.natBelow? (twoPow 64)) filters }
  | _ => none

/-- The limits as JSON. -/
def toJson (limits : Limits) : Json :=
  .object [("max_in_operator_value_size", Json.ofNat limits.maxInValues),
    ("max_filter_object_properties", Json.ofNat limits.maxFilters)]

end Limits

end DocumentFilter
