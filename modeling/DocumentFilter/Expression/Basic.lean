/-
Filter expressions: trees of comparisons joined by AND, OR and NOT.

A node holds child nodes and comparisons of its own, both in source order.
`total` counts comparisons and `isNormalized` says that no NOT is left. There
are two orders of all comparisons: `flatten`, a node's own before those of its
children, and `childrenFirst`, the other way round.
-/
import DocumentFilter.Literal.Text
import DocumentFilter.Operator.Basic

namespace DocumentFilter

/-- One operator applied to one operand. -/
structure Operation where
  operator : Operator
  operand : Literal
  deriving DecidableEq

/-- The part of a list, set or map column that a comparison looks at. -/
inductive Component where
  | listValue
  | setValue
  | mapKey
  | mapValue
  | mapEntry
  deriving DecidableEq, Repr

/-- A field path with the operations applied to it. -/
structure Comparison where
  path : String
  operations : List Operation
  component : Option Component := none
  deriving DecidableEq

/-- The part of a map column that a selector key picks. -/
inductive Selector where
  | keys
  | values
  deriving DecidableEq, Repr

/-- How a node joins what it holds. -/
inductive Connective where
  | and
  | or
  | not
  deriving DecidableEq, Repr

/-- How a node joins what it holds, where nothing is negated. -/
inductive Junction where
  | and
  | or
  deriving DecidableEq, Repr

/-- A node of a filter. -/
structure Expression where
  operator : Connective
  children : List Expression
  comparisons : List Comparison

namespace Component

/-- The component's code in JSON. -/
def code : Component → String
  | .listValue => "list_value"
  | .setValue => "set_value"
  | .mapKey => "map_key"
  | .mapValue => "map_value"
  | .mapEntry => "map_entry"

/-- The component that a code stands for. -/
def ofCode? (code : String) : Option Component :=
  [listValue, setValue, mapKey, mapValue, mapEntry].find? (·.code == code)

/-- The component's name in messages. -/
def name : Component → String
  | .listValue => "ListValue"
  | .setValue => "SetValue"
  | .mapKey => "MapKey"
  | .mapValue => "MapValue"
  | .mapEntry => "MapEntry"

end Component

namespace Selector

/-- The selector's key in a condition. -/
def key : Selector → String
  | .keys => "$keys"
  | .values => "$values"

/-- The selector of a key. -/
def ofKey? : String → Option Selector
  | "$keys" => some .keys
  | "$values" => some .values
  | _ => none

/-- The component that a selector picks. -/
def component : Selector → Component
  | .keys => .mapKey
  | .values => .mapValue

end Selector

namespace Operation

/-- The operation as JSON. -/
def toJson (op : Operation) : Json :=
  .object [("operator", op.operator.toJson), ("operand", op.operand.toJson)]

end Operation

namespace Comparison

/-- The comparison with a single operation. -/
def single (path : String) (operator : Operator) (operand : Literal) (component : Option Component := none) :
    Comparison :=
  ⟨path, [⟨operator, operand⟩], component⟩

/-- The comparison in a message: its path, then each operator with the kind of its operand. -/
def text (c : Comparison) : String :=
  c.operations.foldl (fun s op => s ++ " " ++ op.operator.key ++ " " ++ op.operand.kind.name)
    (Text.inQuotes c.path)

/-- The comparison as JSON. -/
def toJson (c : Comparison) : Json :=
  .object [("path", .string c.path), ("operations", .array (c.operations.map Operation.toJson)),
    ("component", Json.ofOption (c.component.map fun part => .string part.code))]

end Comparison

namespace Connective

/-- The connective's code in JSON. -/
def code : Connective → String
  | .and => "and"
  | .or => "or"
  | .not => "not"

/-- The connective that a code stands for. -/
def ofCode? (code : String) : Option Connective := [and, or, not].find? (·.code == code)

/-- The junction that a connective is, unless it negates. -/
def junction? : Connective → Option Junction
  | .and => some .and
  | .or => some .or
  | .not => none

end Connective

namespace Junction

/-- The junction's code in JSON. -/
def code : Junction → String
  | .and => "and"
  | .or => "or"

/-- The key that joins filters by the junction. -/
def key : Junction → String
  | .and => "$and"
  | .or => "$or"

/-- The connective that a junction is. -/
def connective : Junction → Connective
  | .and => .and
  | .or => .or

@[simp]
theorem junction?_connective (j : Junction) : j.connective.junction? = some j := by cases j <;> rfl

end Junction

namespace Expression

/-- The conjunction of nothing. -/
def empty : Expression := ⟨.and, [], []⟩

/-- The node holds nothing. -/
def isEmpty (e : Expression) : Bool := e.children.isEmpty && e.comparisons.isEmpty

mutual
/-- The number of comparisons in the tree. -/
def total : Expression → Nat
  | ⟨_, children, comparisons⟩ => comparisons.length + totals children

/-- The number of comparisons in a list of trees. -/
def totals : List Expression → Nat
  | [] => 0
  | e :: es => e.total + totals es
end

mutual
/-- No node of the tree is a NOT. -/
def isNormalized : Expression → Bool
  | ⟨operator, children, _⟩ => operator != .not && areNormalized children

/-- No node of the trees is a NOT. -/
def areNormalized : List Expression → Bool
  | [] => true
  | e :: es => e.isNormalized && areNormalized es
end

mutual
/-- Every comparison of the tree with the connective of its node, a node's own before its children's. -/
def attributed : Expression → List (Connective × Comparison)
  | ⟨operator, children, comparisons⟩ => comparisons.map (operator, ·) ++ attributedAll children

/-- Every comparison of the trees with the connective of its node. -/
def attributedAll : List Expression → List (Connective × Comparison)
  | [] => []
  | e :: es => e.attributed ++ attributedAll es
end

/-- Every comparison of the tree, a node's own before its children's. -/
def flatten (e : Expression) : List Comparison := e.attributed.map (·.2)

mutual
theorem length_attributed : ∀ e : Expression, e.attributed.length = e.total
  | ⟨_, children, comparisons⟩ => by
    simp only [attributed, total, List.length_append, List.length_map, length_attributedAll children]

theorem length_attributedAll : ∀ es : List Expression, (attributedAll es).length = totals es
  | [] => rfl
  | e :: es => by
    simp only [attributedAll, totals, List.length_append, length_attributed e, length_attributedAll es]
end

@[simp]
theorem length_flatten (e : Expression) : e.flatten.length = e.total := by
  rw [flatten, List.length_map, length_attributed]

mutual
/-- Every comparison of the tree, those of a node's children before its own. -/
def childrenFirst : Expression → List Comparison
  | ⟨_, children, comparisons⟩ => childrenFirstAll children ++ comparisons

/-- Every comparison of the trees, those of a node's children before its own. -/
def childrenFirstAll : List Expression → List Comparison
  | [] => []
  | e :: es => e.childrenFirst ++ childrenFirstAll es
end

mutual
@[simp]
theorem length_childrenFirst : ∀ e : Expression, e.childrenFirst.length = e.total
  | ⟨_, children, comparisons⟩ => by
    simp only [childrenFirst, total, List.length_append, length_childrenFirstAll children, Nat.add_comm]

@[simp]
theorem length_childrenFirstAll : ∀ es : List Expression, (childrenFirstAll es).length = totals es
  | [] => rfl
  | e :: es => by
    simp only [childrenFirstAll, totals, List.length_append, length_childrenFirst e,
      length_childrenFirstAll es]
end

mutual
/-- The tree as JSON. -/
def toJson : Expression → Json
  | ⟨operator, children, comparisons⟩ =>
    .object [("operator", .string operator.code), ("children", .array (toJsons children)),
      ("comparisons", .array (comparisons.map Comparison.toJson))]

/-- The trees as JSON. -/
def toJsons : List Expression → List Json
  | [] => []
  | e :: es => e.toJson :: toJsons es
end

/-! ## Equality -/

mutual
/-- Equality as a test. -/
def same : Expression → Expression → Bool
  | ⟨op, as, cs⟩, ⟨op', bs, ds⟩ => decide (op = op') && sameAll as bs && decide (cs = ds)

/-- `same` on lists of trees. -/
def sameAll : List Expression → List Expression → Bool
  | [], [] => true
  | a :: as, b :: bs => same a b && sameAll as bs
  | _, _ => false
end

mutual
theorem same_self : ∀ a : Expression, same a a = true
  | ⟨_, as, _⟩ => by simp only [same, sameAll_self as, decide_true, Bool.and_self]

theorem sameAll_self : ∀ as : List Expression, sameAll as as = true
  | [] => rfl
  | a :: as => by simp only [sameAll, same_self a, sameAll_self as, Bool.and_self]
end

mutual
theorem eq_of_same : ∀ {a b : Expression}, same a b = true → a = b
  | ⟨_, _, _⟩, ⟨_, _, _⟩, h => by
    simp only [same, Bool.and_eq_true, decide_eq_true_eq] at h
    rw [h.1.1, eq_of_sameAll h.1.2, h.2]

theorem eq_of_sameAll : ∀ {as bs : List Expression}, sameAll as bs = true → as = bs
  | [], [], _ => rfl
  | [], _ :: _, h => by simp [sameAll] at h
  | _ :: _, [], h => by simp [sameAll] at h
  | a :: as, b :: bs, h => by
    simp only [sameAll, Bool.and_eq_true] at h
    rw [eq_of_same h.1, eq_of_sameAll h.2]
end

theorem same_iff {a b : Expression} : same a b = true ↔ a = b :=
  ⟨eq_of_same, fun h => h ▸ same_self a⟩

instance : DecidableEq Expression := fun _ _ => decidable_of_iff _ same_iff

end Expression

end DocumentFilter
