/-
Captures: patterns for comparisons, by path, operators and kind of operand.

A marker names the use that a captured comparison is put to; several captures
may share one.
-/
import DocumentFilter.Expression.Basic
import DocumentFilter.Path

namespace DocumentFilter

/-- A pattern for comparisons, tagged with a marker. -/
structure Capture (M : Type) where
  marker : M
  path : String
  operators : List Operator
  kind : Kind

/-- The path fits, and every operation has one of the operators and an operand of the kind. -/
def Capture.accepts {M : Type} (capture : Capture M) (c : Comparison) : Bool :=
  (capture.path == Path.wildcard || capture.path == c.path) &&
    c.operations.all fun op => capture.operators.contains op.operator && op.operand.kind == capture.kind

end DocumentFilter
