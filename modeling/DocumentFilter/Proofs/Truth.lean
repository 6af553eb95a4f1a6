/-
What filters mean: the truth of an expression, and of a resolved tree, under
an assignment of truth values to the single things that a filter asks.

An AND holds if all its children and comparisons hold, an OR if some of them
does, a NOT if what it holds does not hold together; a comparison holds if
all its operations do. Assignments are free otherwise: `Complementary` says
the little that negation needs, that an operation with a valid operand and
its negation have opposite values.
-/
import DocumentFilter.Clause.Operand
import DocumentFilter.Expression.Normal
import DocumentFilter.Resolution.FilterTree

namespace DocumentFilter

/-- One thing that a filter asks: an operation on what stands at a path, or on a component of it. -/
structure Atom where
  path : String
  component : Option Component
  operation : Operation
  deriving DecidableEq

/-- The complement, asked of the same thing. -/
def Atom.negated (a : Atom) : Atom := { a with operation := a.operation.negated }

/-- Truth values for everything that can be asked. -/
abbrev Assignment := Atom → Bool

/-- Operations with valid operands and their negations have opposite values. -/
def Assignment.Complementary (limits : Limits) (v : Assignment) : Prop :=
  ∀ a : Atom, a.operation.check limits = .ok () → v a.negated = !v a

namespace Comparison

/-- What the comparison asks, one atom for each operation. -/
def atoms (c : Comparison) : List Atom := c.operations.map fun op => ⟨c.path, c.component, op⟩

/-- All operations of the comparison hold. -/
def holds (v : Assignment) (c : Comparison) : Bool := c.atoms.all v

theorem mem_atoms {c : Comparison} {a : Atom} :
    a ∈ c.atoms ↔ a.path = c.path ∧ a.component = c.component ∧ a.operation ∈ c.operations := by
  obtain ⟨path, component, op⟩ := a
  simp only [atoms, List.mem_map, Atom.mk.injEq]
  constructor
  · rintro ⟨op', hop, rfl, rfl, rfl⟩
    exact ⟨rfl, rfl, hop⟩
  · rintro ⟨rfl, rfl, hop⟩
    exact ⟨op, hop, rfl, rfl, rfl⟩

@[simp]
theorem atoms_single (path : String) (operator : Operator) (operand : Literal) (component : Option Component) :
    (single path operator operand component).atoms = [⟨path, component, ⟨operator, operand⟩⟩] := rfl

@[simp]
theorem holds_single (v : Assignment) (path : String) (operator : Operator) (operand : Literal)
    (component : Option Component) :
    (single path operator operand component).holds v = v ⟨path, component, ⟨operator, operand⟩⟩ := by
  rw [holds, atoms_single, List.all_cons, List.all_nil, Bool.and_true]

end Comparison

namespace Expression

mutual
/-- The truth of a tree. -/
def holds (v : Assignment) : Expression → Bool
  | ⟨.and, children, comparisons⟩ => allHold v children && comparisons.all (·.holds v)
  | ⟨.or, children, comparisons⟩ => someHolds v children || comparisons.any (·.holds v)
  | ⟨.not, children, comparisons⟩ => !(allHold v children && comparisons.all (·.holds v))

/-- All trees hold. -/
def allHold (v : Assignment) : List Expression → Bool
  | [] => true
  | e :: es => e.holds v && allHold v es

/-- Some tree holds. -/
def someHolds (v : Assignment) : List Expression → Bool
  | [] => false
  | e :: es => e.holds v || someHolds v es
end

theorem allHold_eq_all (v : Assignment) (es : List Expression) : allHold v es = es.all (·.holds v) := by
  induction es with
  | nil => rfl
  | cons e es ih => rw [allHold, ih, List.all_cons]

theorem someHolds_eq_any (v : Assignment) (es : List Expression) : someHolds v es = es.any (·.holds v) := by
  induction es with
  | nil => rfl
  | cons e es ih => rw [someHolds, ih, List.any_cons]

section Nodes

variable (v : Assignment) (children : List Expression) (comparisons : List Comparison)

@[simp]
theorem holds_and : holds v ⟨.and, children, comparisons⟩ =
    (children.all (·.holds v) && comparisons.all (·.holds v)) := by
  rw [holds, allHold_eq_all]

@[simp]
theorem holds_or : holds v ⟨.or, children, comparisons⟩ =
    (children.any (·.holds v) || comparisons.any (·.holds v)) := by
  rw [holds, someHolds_eq_any]

@[simp]
theorem holds_not : holds v ⟨.not, children, comparisons⟩ =
    !(children.all (·.holds v) && comparisons.all (·.holds v)) := by
  rw [holds, allHold_eq_all]

end Nodes

mutual
/-- Induction on trees, with the statement for every child at hand. -/
@[induction_eliminator]
theorem nodeInduction {motive : Expression → Prop}
    (node : ∀ operator children comparisons, (∀ e ∈ children, motive e) →
      motive ⟨operator, children, comparisons⟩) : ∀ e, motive e
  | ⟨operator, children, comparisons⟩ => node operator children comparisons (nodesInduction node children)

theorem nodesInduction {motive : Expression → Prop}
    (node : ∀ operator children comparisons, (∀ e ∈ children, motive e) →
      motive ⟨operator, children, comparisons⟩) : ∀ es : List Expression, ∀ e ∈ es, motive e
  | [] => List.forall_mem_nil _
  | e :: es => List.forall_mem_cons.mpr ⟨nodeInduction node e, nodesInduction node es⟩
end

end Expression

namespace FilterTree

variable {F : Type}

mutual
/-- The truth of a resolved tree, given that of its primitives. -/
def holds (v : F → Bool) : FilterTree F → Bool
  | ⟨.and, own, children⟩ => own.all v && allHold v children
  | ⟨.or, own, children⟩ => own.any v || someHolds v children

/-- All trees hold. -/
def allHold (v : F → Bool) : List (FilterTree F) → Bool
  | [] => true
  | tree :: trees => tree.holds v && allHold v trees

/-- Some tree holds. -/
def someHolds (v : F → Bool) : List (FilterTree F) → Bool
  | [] => false
  | tree :: trees => tree.holds v || someHolds v trees
end

end FilterTree

end DocumentFilter
