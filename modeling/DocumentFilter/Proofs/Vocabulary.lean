/-
The operator vocabularies of backends, read backwards: the filter operator
that each test is, and that a test is made from that operator only.
-/
import DocumentFilter.Operator.Test

namespace DocumentFilter

/-- The operator that the test is. -/
def EqualityTest.operator : EqualityTest → Operator
  | .eq => .eq
  | .ne => .ne

/-- The operator that the test is. -/
def ComparisonTest.operator : ComparisonTest → Operator
  | .eq => .eq
  | .ne => .ne
  | .gt => .gt
  | .gte => .gte
  | .lt => .lt
  | .lte => .lte

/-- The operator that the test is. -/
def MembershipTest.operator : MembershipTest → Operator
  | .isIn => .isIn
  | .notIn => .notIn

/-- The operator that the test is. -/
def ContainerTest.operator : ContainerTest → Operator
  | .containsAny => .isIn
  | .containsNone => .notIn
  | .containsAll => .all
  | .notContainsAll => .notAny

theorem EqualityTest.ofOperator_eq_ok {op : Operator} {test : EqualityTest} :
    ofOperator op = .ok test ↔ op = test.operator := by
  cases op <;> cases test <;> simp [ofOperator, operator, OperatorUse.refuse]

theorem ComparisonTest.ofOperator_eq_ok {op : Operator} {test : ComparisonTest} :
    ofOperator op = .ok test ↔ op = test.operator := by
  cases op <;> cases test <;> simp [ofOperator, operator, OperatorUse.refuse]

theorem MembershipTest.ofOperator_eq_ok {op : Operator} {test : MembershipTest} :
    ofOperator op = .ok test ↔ op = test.operator := by
  cases op <;> cases test <;> simp [ofOperator, operator, OperatorUse.refuse]

theorem ContainerTest.ofOperator_eq_ok {op : Operator} {test : ContainerTest} :
    ofOperator op = .ok test ↔ op = test.operator := by
  cases op <;> cases test <;> simp [ofOperator, operator, OperatorUse.refuse]

/-! ## Which operators are tests -/

theorem EqualityTest.exists_of_mem {op : Operator} (h : op ∈ [Operator.eq, .ne]) :
    ∃ test, ofOperator op = .ok test := by
  simp only [List.mem_cons, List.not_mem_nil, or_false] at h
  rcases h with rfl | rfl <;> exact ⟨_, rfl⟩

theorem ComparisonTest.exists_of_mem {op : Operator} (h : op ∈ [Operator.eq, .ne, .gt, .gte, .lt, .lte]) :
    ∃ test, ofOperator op = .ok test := by
  simp only [List.mem_cons, List.not_mem_nil, or_false] at h
  rcases h with rfl | rfl | rfl | rfl | rfl | rfl <;> exact ⟨_, rfl⟩

theorem MembershipTest.exists_of_mem {op : Operator} (h : op ∈ [Operator.isIn, .notIn]) :
    ∃ test, ofOperator op = .ok test := by
  simp only [List.mem_cons, List.not_mem_nil, or_false] at h
  rcases h with rfl | rfl <;> exact ⟨_, rfl⟩

theorem ContainerTest.exists_of_mem {op : Operator} (h : op ∈ [Operator.isIn, .notIn, .all, .notAny]) :
    ∃ test, ofOperator op = .ok test := by
  simp only [List.mem_cons, List.not_mem_nil, or_false] at h
  rcases h with rfl | rfl | rfl | rfl <;> exact ⟨_, rfl⟩

end DocumentFilter
