/-
Tables: declared columns with types, some of them indexed.
-/
import DocumentFilter.Error.Message

namespace DocumentFilter

/-- A declared column. -/
structure Column where
  name : String
  type : ColumnType
  deriving DecidableEq

/-- A table with its columns, primary key and indexes. -/
structure TableSchema where
  name : String
  columns : List Column
  primaryKey : List String := []
  indexes : List String := []
  deriving DecidableEq

/-- What a filter may want to know without being refused: a column that only a scan can search. -/
inductive Warning where
  | missingIndex (table column : String)
  deriving DecidableEq, Repr

namespace Warning

/-- The warning in words. -/
def message : Warning → String
  | .missingIndex table column =>
    "column " ++ Text.inQuotes column ++ " of table " ++ Text.inQuotes table ++
      " is not indexed, the filter needs a scan"

/-- The warning as JSON. -/
def toJson : Warning → Json
  | .missingIndex table column =>
    .object [("missing_index", .object [("table", .string table), ("column", .string column)])]

end Warning

namespace Column

/-- The column that JSON describes. -/
def ofJson? (json : Json) : Option Column := do
  match ← json.fields? ["name", "type"] with
  | [name, type] =>
    return { name := ← Json.required Json.string? name, type := ← Json.required ColumnType.ofJson? type }
  | _ => none

/-- The column as JSON. -/
def toJson (column : Column) : Json :=
  .object [("name", .string column.name), ("type", column.type.toJson)]

end Column

namespace TableSchema

/-- The declared column of a name; of two, the first. -/
def column? (table : TableSchema) (name : String) : Option Column := table.columns.find? (·.name == name)

/-- The column is part of the primary key or has an index. -/
def isIndexed (table : TableSchema) (column : String) : Bool :=
  table.primaryKey.contains column || table.indexes.contains column

/-- The type of a declared column. -/
def columnType (table : TableSchema) (name : String) : Except FilterError ColumnType :=
  match table.column? name with
  | some column => .ok column.type
  | none => .error (.unknownColumn table.name name)

/-- Accepts a comparison on a declared column that holds no vectors; one without index gives a warning. -/
def check (table : TableSchema) (c : Comparison) : Except FilterError (Option Warning) := do
  let type ← table.columnType c.path
  if type.isVector then throw (.unsupportedColumn c.path (.vector type))
  return if table.isIndexed c.path then none else some (.missingIndex table.name c.path)

/-- The table that JSON describes. -/
def ofJson? (json : Json) : Option TableSchema := do
  match ← json.fields? ["name", "columns", "primary_key", "indexes"] with
  | [name, columns, primaryKey, indexes] =>
    return {
      name := ← Json.required Json.string? name
      columns := ← Json.required (Json.list? Column.ofJson?) columns
      primaryKey := ← Json.defaulted [] (Json.list? Json.string?) primaryKey
      indexes := ← Json.defaulted [] (Json.list? Json.string?) indexes }
  | _ => none

/-- The table as JSON. -/
def toJson (table : TableSchema) : Json :=
  .object [("name", .string table.name), ("columns", .array (table.columns.map Column.toJson)),
    ("primary_key", .array (table.primaryKey.map .string)), ("indexes", .array (table.indexes.map .string))]

end TableSchema

end DocumentFilter
