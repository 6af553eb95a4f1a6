/-
The primitives of a filter over a document collection.
-/
import DocumentFilter.Operator.Test

namespace DocumentFilter

/-- A primitive condition on documents. -/
inductive CollectionFilter where
  | id (test : EqualityTest) (id : DocumentId)
  | idIn (test : MembershipTest) (ids : List DocumentId)
  | isIn (path : String) (test : MembershipTest) (values : List Literal)
  | number (path : String) (test : ComparisonTest) (value : Number)
  | text (path : String) (test : EqualityTest) (value : String)
  | bool (path : String) (test : EqualityTest) (value : Bool)
  | isNull (path : String) (test : EqualityTest)
  | date (path : String) (test : ComparisonTest) (value : Instant)
  | presence (path : String) (present : Bool)
  | all (path : String) (values : List Literal) (negated : Bool)
  | size (path : String) (length : Nat) (negated : Bool)
  | arrayEquals (path : String) (test : EqualityTest) (values : List Literal)
  | subDocumentEquals (path : String) (test : EqualityTest) (value : List (String × Json))
  deriving DecidableEq

namespace CollectionFilter

/-- The primitive's tag in JSON. -/
def tag : CollectionFilter → String
  | .id .. => "id"
  | .idIn .. => "id_in"
  | .isIn .. => "in"
  | .number .. => "number"
  | .text .. => "text"
  | .bool .. => "bool"
  | .isNull .. => "is_null"
  | .date .. => "date"
  | .presence .. => "exists"
  | .all .. => "all"
  | .size .. => "size"
  | .arrayEquals .. => "array_equals"
  | .subDocumentEquals .. => "sub_doc_equals"

/-- The path that the primitive looks at; those on the identity name none. -/
def path? : CollectionFilter → Option String
  | .id .. | .idIn .. => none
  | .isIn path .. | .number path .. | .text path .. | .bool path .. | .isNull path .. | .date path ..
  | .presence path .. | .all path .. | .size path .. | .arrayEquals path .. | .subDocumentEquals path .. =>
    some path

/-- The primitive's fields in JSON. -/
def fields : CollectionFilter → List (String × Json)
  | .id test value => [("operator", .string test.code), ("id", value.toJson)]
  | .idIn test ids => [("operator", .string test.code), ("ids", .array (ids.map DocumentId.toJson))]
  | .isIn path test values =>
    [("path", .string path), ("operator", .string test.code), ("values", .array (Literal.toJsons values))]
  | .number path test value =>
    [("path", .string path), ("operator", .string test.code), ("value", .number value)]
  | .text path test value =>
    [("path", .string path), ("operator", .string test.code), ("value", .string value)]
  | .bool path test value => [("path", .string path), ("operator", .string test.code), ("value", .bool value)]
  | .isNull path test => [("path", .string path), ("operator", .string test.code)]
  | .date path test value =>
    [("path", .string path), ("operator", .string test.code), ("value", value.toJson)]
  | .presence path present => [("path", .string path), ("exists", .bool present)]
  | .all path values negated =>
    [("path", .string path), ("values", .array (Literal.toJsons values)), ("negated", .bool negated)]
  | .size path length negated =>
    [("path", .string path), ("size", Json.ofNat length), ("negated", .bool negated)]
  | .arrayEquals path test values =>
    [("path", .string path), ("operator", .string test.code), ("values", .array (Literal.toJsons values))]
  | .subDocumentEquals path test value =>
    [("path", .string path), ("operator", .string test.code), ("value", .object value)]

/-- The primitive as JSON, its tag first. -/
def toJson (filter : CollectionFilter) : Json := .object (("filter", .string filter.tag) :: filter.fields)

end CollectionFilter

end DocumentFilter
