/-
Filter trees: resolved filters, made of a backend's primitives.

`build` makes one node for each node of a capture tree, children first, and
fails at the first group that cannot be made into primitives. `filters` lists
the primitives, a node's own before those of its children.
-/
import DocumentFilter.Capture.Tree
import DocumentFilter.Error.Message

namespace DocumentFilter

/-- A node of primitives. -/
structure FilterTree (F : Type) where
  operator : Junction
  own : List F
  children : List (FilterTree F)

namespace FilterTree

variable {F : Type}

/-- The conjunction of nothing. -/
def empty : FilterTree F := ⟨.and, [], []⟩

/-- The node holds nothing. -/
def isEmpty (tree : FilterTree F) : Bool := tree.own.isEmpty && tree.children.isEmpty

mutual
/-- The number of primitives in the tree. -/
def count : FilterTree F → Nat
  | ⟨_, own, children⟩ => own.length + countAll children

/-- The number of primitives in the trees. -/
def countAll : List (FilterTree F) → Nat
  | [] => 0
  | tree :: trees => tree.count + countAll trees
end

mutual
/-- The primitives of the tree, a node's own before those of its children. -/
def filters : FilterTree F → List F
  | ⟨_, own, children⟩ => own ++ filtersAll children

/-- The primitives of the trees. -/
def filtersAll : List (FilterTree F) → List F
  | [] => []
  | tree :: trees => tree.filters ++ filtersAll trees
end

mutual
@[simp]
theorem length_filters : ∀ tree : FilterTree F, tree.filters.length = tree.count
  | ⟨_, own, children⟩ => by
    simp only [filters, count, List.length_append, length_filtersAll children]

@[simp]
theorem length_filtersAll : ∀ trees : List (FilterTree F), (filtersAll trees).length = countAll trees
  | [] => rfl
  | tree :: trees => by
    simp only [filtersAll, countAll, List.length_append, length_filters tree, length_filtersAll trees]
end

section Build

variable {M : Type} (primitives : CaptureGroup M → Except FilterError (List F))

mutual
/-- The tree of the primitives of a capture tree's groups. -/
def build : CaptureTree M → Except FilterError (FilterTree F)
  | ⟨operator, groups, children⟩ => do
    let children ← buildAll children
    let own ← groups.mapM primitives
    return ⟨operator, own.flatten, children⟩

/-- The trees of the primitives of the groups of capture trees. -/
def buildAll : List (CaptureTree M) → Except FilterError (List (FilterTree F))
  | [] => .ok []
  | tree :: trees => do
    let first ← build tree
    let others ← buildAll trees
    return first :: others
end

end Build

section Encode

variable (encode : F → Json)

mutual
/-- The tree as JSON. -/
def toJson : FilterTree F → Json
  | ⟨operator, own, children⟩ =>
    .object [("operator", .string operator.code), ("filters", .array (own.map encode)),
      ("children", .array (toJsonAll children))]

/-- The trees as JSON. -/
def toJsonAll : List (FilterTree F) → List Json
  | [] => []
  | tree :: trees => tree.toJson :: toJsonAll trees
end

end Encode

end FilterTree

end DocumentFilter
