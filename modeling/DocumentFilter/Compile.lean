/-
Compiling filters: parsing and resolving in one step.
-/
import DocumentFilter.Clause.Contents
import DocumentFilter.Collection.Rules
import DocumentFilter.Table.Rules

namespace DocumentFilter

/-- Compiles a filter over a collection. -/
def CollectionFilter.compile (schema : CollectionSchema) (limits : Limits) (filter : Option Json) :
    Except FilterError (Resolved CollectionFilter) := do
  let clause ← Clause.parse (.collection schema) limits filter
  resolve limits clause

/-- Compiles a filter over a table. -/
def TableFilter.compile (table : TableSchema) (limits : Limits) (filter : Option Json) :
    Except FilterError (Resolved TableFilter) := do
  let clause ← Clause.parse (.table table) limits filter
  resolve table limits clause

end DocumentFilter
