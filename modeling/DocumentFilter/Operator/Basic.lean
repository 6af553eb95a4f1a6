/-
Filter operators: the twelve `$` keys that a condition may use.

`negated` gives the operator that selects the complement; `$exists` and
`$size` stay as they are, because negation changes their operand instead.
-/
import DocumentFilter.Json.Basic

namespace DocumentFilter

/-- What a condition asks of a field. -/
inductive Operator where
  | eq
  | ne
  | gt
  | gte
  | lt
  | lte
  | isIn
  | notIn
  | present
  | all
  | size
  | notAny
  deriving DecidableEq, Repr

namespace Operator

/-- The key that names the operator in a filter. -/
def key : Operator → String
  | .eq => "$eq"
  | .ne => "$ne"
  | .gt => "$gt"
  | .gte => "$gte"
  | .lt => "$lt"
  | .lte => "$lte"
  | .isIn => "$in"
  | .notIn => "$nin"
  | .present => "$exists"
  | .all => "$all"
  | .size => "$size"
  | .notAny => "$notany"

/-- The operator that a key names. -/
def ofKey? : String → Option Operator
  | "$eq" => some .eq
  | "$ne" => some .ne
  | "$gt" => some .gt
  | "$gte" => some .gte
  | "$lt" => some .lt
  | "$lte" => some .lte
  | "$in" => some .isIn
  | "$nin" => some .notIn
  | "$exists" => some .present
  | "$all" => some .all
  | "$size" => some .size
  | "$notany" => some .notAny
  | _ => none

theorem ofKey?_key (op : Operator) : ofKey? op.key = some op := by cases op <;> rfl

/-- The operator that selects the complement. -/
def negated : Operator → Operator
  | .eq => .ne
  | .ne => .eq
  | .gt => .lte
  | .gte => .lt
  | .lt => .gte
  | .lte => .gt
  | .isIn => .notIn
  | .notIn => .isIn
  | .present => .present
  | .all => .notAny
  | .size => .size
  | .notAny => .all

@[simp]
theorem negated_negated (op : Operator) : op.negated.negated = op := by cases op <;> rfl

/-- The operators that may be used on a document's identity. -/
def isEqualityOrMembership (op : Operator) : Bool := op matches .eq | .ne | .isIn | .notIn

/-- The operators that look at the elements of a container column. -/
def isContainerTest (op : Operator) : Bool := op matches .isIn | .notIn | .all | .notAny

/-- The operator as JSON: its family and its name there. -/
def toJson : Operator → Json
  | .eq => value "eq"
  | .ne => value "ne"
  | .gt => value "gt"
  | .gte => value "gte"
  | .lt => value "lt"
  | .lte => value "lte"
  | .isIn => value "in"
  | .notIn => value "nin"
  | .present => .object [("element", .string "exists")]
  | .all => array "all"
  | .size => array "size"
  | .notAny => array "not_any"
where
  value (name : String) : Json := .object [("value", .string name)]
  array (name : String) : Json := .object [("array", .string name)]

end Operator

end DocumentFilter
