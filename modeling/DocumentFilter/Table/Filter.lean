/-
The primitives of a filter over a table.
-/
import DocumentFilter.Operator.Test

namespace DocumentFilter

/-- A primitive condition on rows. -/
inductive TableFilter where
  | native (column : String) (type : ColumnType) (test : ComparisonTest) (value : Literal)
  | isNull (column : String) (test : EqualityTest)
  | isIn (column : String) (type : ColumnType) (test : MembershipTest) (values : List Literal)
  | elements (column : String) (component : Component) (test : ContainerTest) (values : List Literal)
  | entries (column : String) (test : ContainerTest) (pairs : List (Literal × Literal))
  deriving DecidableEq

namespace TableFilter

/-- The primitive's tag in JSON. -/
def tag : TableFilter → String
  | .native .. => "native"
  | .isNull .. => "is_null"
  | .isIn .. => "in"
  | .elements .. => "map_set_list"
  | .entries .. => "map_entries"

/-- The column that the primitive looks at. -/
def column : TableFilter → String
  | .native column .. | .isNull column .. | .isIn column .. | .elements column .. | .entries column .. =>
    column

/-- The primitive's fields in JSON. -/
def fields : TableFilter → List (String × Json)
  | .native column type test value =>
    [("column", .string column), ("column_type", type.toJson), ("operator", .string test.code),
      ("value", value.toJson)]
  | .isNull column test => [("column", .string column), ("operator", .string test.code)]
  | .isIn column type test values =>
    [("column", .string column), ("column_type", type.toJson), ("operator", .string test.code),
      ("values", .array (Literal.toJsons values))]
  | .elements column component test values =>
    [("column", .string column), ("component", .string component.code), ("operator", .string test.code),
      ("values", .array (Literal.toJsons values))]
  | .entries column test pairs =>
    [("column", .string column), ("operator", .string test.code),
      ("entries", .array (pairs.map fun (key, value) => .array [key.toJson, value.toJson]))]

/-- The primitive as JSON, its tag first. -/
def toJson (filter : TableFilter) : Json := .object (("filter", .string filter.tag) :: filter.fields)

end TableFilter

end DocumentFilter
