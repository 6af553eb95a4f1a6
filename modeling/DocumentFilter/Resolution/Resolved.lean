/-
Resolved filters: a filter tree within the limit, with the warnings of the
clause it was made from.
-/
import DocumentFilter.Clause.Basic
import DocumentFilter.Limits
import DocumentFilter.Resolution.FilterTree

namespace DocumentFilter

/-- A filter tree with warnings. -/
structure Resolved (F : Type) where
  tree : FilterTree F
  warnings : List Warning

namespace Resolved

variable {F : Type}

/-- The resolved filter, if the tree's primitives are within the limit. -/
def ofTree (limits : Limits) (clause : Clause) (tree : FilterTree F) : Except FilterError (Resolved F) :=
  if tree.count ≤ limits.maxFilters then .ok ⟨tree, clause.warnings⟩
  else .error (.tooManyFilters limits.maxFilters tree.count)

/-- The resolved filter as JSON. -/
def toJson (encode : F → Json) (resolved : Resolved F) : Json :=
  .object [("expression", resolved.tree.toJson encode),
    ("warnings", .array (resolved.warnings.map Warning.toJson))]

end Resolved

end DocumentFilter
