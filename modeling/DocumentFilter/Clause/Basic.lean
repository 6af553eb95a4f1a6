/-
Clauses: parsed filters without NOT, ready to be resolved.

`validate` applies the rules on a document's identity: at most one comparison
on its path, an equality or a membership test, and not directly below an OR.
An AND below an OR may hold it, since that branch is a conjunction again.
-/
import DocumentFilter.Expression.Normal
import DocumentFilter.Schema.Basic

namespace DocumentFilter

/-- A parsed filter. -/
structure Clause where
  expression : Expression
  identityPath : Option String
  warnings : List Warning
  validated : Bool
  deriving DecidableEq

/-- The rules on comparisons with the identity path, in the order of the tree; the first fault wins. -/
def Expression.checkIdentity (path : String) (e : Expression) : Except FilterError Unit :=
  match e.attributed.filter (·.2.path == path) with
  | [] => .ok ()
  | (operator, c) :: others =>
    if operator = .or then .error (.idUnderOr path)
    else
      match c.operations.find? (!·.operator.isEqualityOrMembership) with
      | some op => .error (.idOperator path op.operator)
      | none => if others.isEmpty then .ok () else .error (.multipleIds path)

namespace Clause

/-- The clause of no filter. -/
def empty : Clause := ⟨.empty, none, [], true⟩

/-- The clause of an expression, not yet validated. -/
def ofExpression (e : Expression) (identityPath : Option String) (warnings : List Warning) : Clause :=
  ⟨e.normalized, identityPath, warnings, false⟩

/-- The clause holds no condition. -/
def isEmpty (clause : Clause) : Bool := clause.expression.isEmpty

/-- The clause, validated; a validated clause is left as it is. -/
def validate (clause : Clause) : Except FilterError Clause :=
  if clause.validated then .ok clause
  else
    match clause.identityPath with
    | none => .ok { clause with validated := true }
    | some path => (clause.expression.checkIdentity path).map fun _ => { clause with validated := true }

end Clause

end DocumentFilter
