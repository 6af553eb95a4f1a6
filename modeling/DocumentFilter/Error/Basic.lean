/-
Everything that can be wrong with a filter, as causes.

`FilterError` has one constructor for each kind of error; where a kind covers
several faults, they are a type of their own. The wording is in
`Error.Message`.
-/
import DocumentFilter.Expression.Basic
import DocumentFilter.Path
import DocumentFilter.Schema.ColumnType

namespace DocumentFilter

/-- A fault in the shape of a filter. -/
inductive ExpressionProblem where
  | notAnArray (junction : Junction)
  | emptyArray (junction : Junction)
  | badElement (junction : Junction)
  | badNegation
  | selectorOperand (selector : Selector) (path : String)
  | mixedKeys (path : String)
  | badPath (path : String) (problem : PathProblem)
  | fieldDisabled (field collection : String)
  | onlyPresence (field : String)
  deriving DecidableEq

/-- A fault in an operator's operand. -/
inductive OperandProblem where
  | notAnArray
  | notABoolean
  | notANonEmptyArray
  | tooLarge
  | notACount
  | notPairs
  | notASize (count : Number)
  deriving DecidableEq

/-- A value that does not identify a document. -/
inductive DocumentIdProblem where
  | subDocument (value : Json)
  | array (value : Json)
  | literal (value : Literal)
  deriving DecidableEq

/-- A fault in what an extended JSON tag stands before. -/
inductive ExtendedJsonProblem where
  | notMillis (found : Json)
  | notAString (tag : ExtendedTag) (found : Json)
  | malformed (tag : ExtendedTag) (text : String)
  deriving DecidableEq

/-- A condition that a column's type does not allow. -/
inductive ColumnProblem where
  | vector (type : ColumnType)
  | selectorOnOther (selector : Selector) (kind : ContainerKind)
  | operatorWithSelector (operator : Operator) (selector : Selector)
  | needsContainer (operator : Operator) (type : ColumnType)
  | componentMismatch (operator : Operator) (component : Component) (type : ColumnType)
  | wholeColumn (operator : Operator) (type : ColumnType)
  | valueMismatch (kind : Kind) (type : ColumnType)
  | operandMismatch (operator : Operator) (kind : Kind)
  deriving DecidableEq

/-- The uses that only some operators have in a backend. -/
inductive OperatorUse where
  | equality
  | comparison
  | membership
  | containerTest
  deriving DecidableEq, Repr

/-- Why a matcher refused a filter. -/
structure MatchFailure where
  unmatchedCaptures : Nat
  unmatchedComparisons : Nat
  firstUnclaimed? : Option Comparison
  deriving DecidableEq

/-- Why a filter has no form in a backend. -/
inductive ResolutionProblem where
  | unmatched (failure : MatchFailure)
  | operatorUse (operator : Operator) (use : OperatorUse)
  | misfit (path : String) (operator : Operator) (kind : Kind) (marker : String)
  | other (reason : String)
  deriving DecidableEq

/-- Why a filter is refused. -/
inductive FilterError where
  | notAnObject (found : Json)
  | invalidExpression (problem : ExpressionProblem)
  | unsupportedOperator (key : String)
  | invalidOperand (operator : Operator) (problem : OperandProblem)
  | tooManyValues (operator : Operator) (max actual : Nat)
  | multipleIds (path : String)
  | idUnderOr (path : String)
  | idOperator (path : String) (operator : Operator)
  | invalidDocumentId (problem : DocumentIdProblem)
  | invalidExtendedJson (problem : ExtendedJsonProblem)
  | reservedFieldArray (field : String)
  | unindexedPath (path : String)
  | idNotIndexed (path : String)
  | unknownColumn (table column : String)
  | unsupportedColumn (column : String) (problem : ColumnProblem)
  | unresolvable (problem : ResolutionProblem)
  | tooManyFilters (max actual : Nat)
  deriving DecidableEq

end DocumentFilter
