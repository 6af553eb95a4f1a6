/-
What a filter is written for: a collection or a table, and what either
decides about the paths of a filter.
-/
import DocumentFilter.Schema.Collection
import DocumentFilter.Schema.Table

namespace DocumentFilter

/-- The target of a filter. -/
inductive Schema where
  | collection (schema : CollectionSchema)
  | table (schema : TableSchema)
  deriving DecidableEq

namespace Schema

/-- The path that identifies a document, where there is one. -/
def identityPath? : Schema → Option String
  | .collection _ => some CollectionSchema.identityPath
  | .table _ => none

/-- Dollar keys that name fields instead of operators. -/
def isReserved : Schema → String → Bool
  | .collection _, key => (ReservedField.ofKey? key).isSome
  | .table _, _ => false

/-- The path or column is indexed. -/
def isIndexed : Schema → String → Bool
  | .collection schema, path => schema.indexing.isIndexed path
  | .table schema, column => schema.isIndexed column

/-- The declared column of a path. -/
def column? : Schema → String → Option Column
  | .collection _, _ => none
  | .table schema, path => schema.column? path

/-- The container shape of a path. -/
def containerKind? (schema : Schema) (path : String) : Option ContainerKind :=
  (schema.column? path).bind (·.type.containerKind?)

/-- Accepts or refuses a comparison, perhaps with a warning. -/
def check : Schema → Comparison → Except FilterError (Option Warning)
  | .collection schema, c => (schema.check c).map fun _ => none
  | .table schema, c => schema.check c

/-- The target as JSON. -/
def toJson : Schema → Json
  | .collection schema => schema.toJson
  | .table schema => schema.toJson

end Schema

end DocumentFilter
