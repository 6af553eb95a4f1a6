/-
Removing NOT: `normalized` pushes every negation down to the comparisons, so
that only AND and OR nodes are left.

The negation of an AND is the OR of its negated parts and the other way
round; a part that stands alone stays an AND, which is the same condition. A
comparison with several operations is negated into one comparison for each.
-/
import DocumentFilter.Expression.Basic

namespace DocumentFilter

/-- The operation that selects the complement.

`$exists` flips its boolean and `$size` the sign of its count; every other
operator is replaced by its opposite and keeps the operand. -/
def Operation.negated (op : Operation) : Operation :=
  let operand :=
    match op.operator, op.operand with
    | .present, .boolean b => .boolean (!b)
    | .size, .number n => .number n.negated
    | _, operand => operand
  ⟨op.operator.negated, operand⟩

/-- One comparison for each operation, negated; together they are joined by OR. -/
def Comparison.negated (c : Comparison) : List Comparison :=
  c.operations.map fun op => { c with operations := [op.negated] }

/-- The dual connective of AND and OR. -/
def Connective.dual : Connective → Connective
  | .and => .or
  | .or => .and
  | .not => .not

@[simp]
theorem Connective.dual_dual (c : Connective) : c.dual.dual = c := by cases c <;> rfl

namespace Expression

/-- A negated node: a single part stays an AND. -/
def negatedNode (operator : Connective) (children : List Expression) (comparisons : List Comparison) :
    Expression :=
  ⟨if 1 < children.length + comparisons.length then operator.dual else .and, children, comparisons⟩

mutual
/-- The tree without NOT. A NOT stands for its first child negated, without a child for the empty AND. -/
def normalized : Expression → Expression
  | ⟨.not, inner :: _, _⟩ => inner.negated
  | ⟨.not, [], _⟩ => empty
  | ⟨.and, children, comparisons⟩ => ⟨.and, normalizedAll children, comparisons⟩
  | ⟨.or, children, comparisons⟩ => ⟨.or, normalizedAll children, comparisons⟩

/-- The negation of the tree, without NOT. -/
def negated : Expression → Expression
  | ⟨.not, inner :: _, _⟩ => inner.normalized
  | ⟨.not, [], _⟩ => empty
  | ⟨.and, children, comparisons⟩ =>
    negatedNode .and (negatedAll children) (comparisons.flatMap Comparison.negated)
  | ⟨.or, children, comparisons⟩ =>
    negatedNode .or (negatedAll children) (comparisons.flatMap Comparison.negated)

/-- The trees without NOT. -/
def normalizedAll : List Expression → List Expression
  | [] => []
  | e :: es => e.normalized :: normalizedAll es

/-- The negations of the trees, without NOT. -/
def negatedAll : List Expression → List Expression
  | [] => []
  | e :: es => e.negated :: negatedAll es
end

end Expression

end DocumentFilter
