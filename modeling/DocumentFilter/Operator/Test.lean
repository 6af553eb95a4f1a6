/-
The operator vocabularies of backends: each takes only some of the filter
operators.
-/
import DocumentFilter.Error.Message

namespace DocumentFilter

/-- Equal or not. -/
inductive EqualityTest where
  | eq
  | ne
  deriving DecidableEq, Repr

/-- Equality or order. -/
inductive ComparisonTest where
  | eq
  | ne
  | gt
  | gte
  | lt
  | lte
  deriving DecidableEq, Repr

/-- Among the values or not. -/
inductive MembershipTest where
  | isIn
  | notIn
  deriving DecidableEq, Repr

/-- What a container holds of the values. -/
inductive ContainerTest where
  | containsAny
  | containsNone
  | containsAll
  | notContainsAll
  deriving DecidableEq, Repr

/-- The error of an operator outside a vocabulary. -/
def OperatorUse.refuse {α : Type} (use : OperatorUse) (operator : Operator) : Except FilterError α :=
  .error (.unresolvable (.operatorUse operator use))

namespace EqualityTest

/-- The test's code in JSON. -/
def code : EqualityTest → String
  | .eq => "eq"
  | .ne => "ne"

/-- The equality that an operator is. -/
def ofOperator : Operator → Except FilterError EqualityTest
  | .eq => .ok .eq
  | .ne => .ok .ne
  | operator => OperatorUse.equality.refuse operator

end EqualityTest

namespace ComparisonTest

/-- The test's code in JSON. -/
def code : ComparisonTest → String
  | .eq => "eq"
  | .ne => "ne"
  | .gt => "gt"
  | .gte => "gte"
  | .lt => "lt"
  | .lte => "lte"

/-- The comparison that an operator is. -/
def ofOperator : Operator → Except FilterError ComparisonTest
  | .eq => .ok .eq
  | .ne => .ok .ne
  | .gt => .ok .gt
  | .gte => .ok .gte
  | .lt => .ok .lt
  | .lte => .ok .lte
  | operator => OperatorUse.comparison.refuse operator

end ComparisonTest

namespace MembershipTest

/-- The test's code in JSON. -/
def code : MembershipTest → String
  | .isIn => "in"
  | .notIn => "not_in"

/-- The membership test that an operator is. -/
def ofOperator : Operator → Except FilterError MembershipTest
  | .isIn => .ok .isIn
  | .notIn => .ok .notIn
  | operator => OperatorUse.membership.refuse operator

end MembershipTest

namespace ContainerTest

/-- The test's code in JSON. -/
def code : ContainerTest → String
  | .containsAny => "contains_any"
  | .containsNone => "contains_none"
  | .containsAll => "contains_all"
  | .notContainsAll => "not_contains_all"

/-- The container test that an operator is. -/
def ofOperator : Operator → Except FilterError ContainerTest
  | .isIn => .ok .containsAny
  | .notIn => .ok .containsNone
  | .all => .ok .containsAll
  | .notAny => .ok .notContainsAll
  | operator => OperatorUse.containerTest.refuse operator

end ContainerTest

end DocumentFilter
