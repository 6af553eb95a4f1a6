/-
The codes and texts of errors.
-/
import DocumentFilter.Error.Basic

namespace DocumentFilter

open Text (inQuotes)

/-- The fault of a path in words. -/
def PathProblem.message (path : String) : PathProblem → String
  | .empty => "filter path must not be empty"
  | .badEscape => "filter path " ++ inQuotes path ++ " has an invalid '&' escape"
  | .emptySegment => "filter path " ++ inQuotes path ++ " has an empty segment"

/-- The fault of a filter's shape in words. -/
def ExpressionProblem.message : ExpressionProblem → String
  | .notAnArray junction => inQuotes junction.key ++ " value must be an array"
  | .emptyArray junction => inQuotes junction.key ++ " array must not be empty"
  | .badElement junction => inQuotes junction.key ++ " array elements must be non-empty objects"
  | .badNegation => "'$not' value must be a non-empty object"
  | .selectorOperand selector path =>
    inQuotes selector.key ++ " on " ++ inQuotes path ++ " requires an operator object"
  | .mixedKeys path => "cannot mix operators and field names in the condition for " ++ inQuotes path
  | .badPath path problem => problem.message path
  | .fieldDisabled field collection =>
    inQuotes field ++ " is not enabled for collection " ++ inQuotes collection
  | .onlyPresence field => "only '$exists' can be used on " ++ inQuotes field

/-- The fault of an operand in words. -/
def OperandProblem.message : OperandProblem → String
  | .notAnArray => "operand must be an array"
  | .notABoolean => "operand must be a boolean"
  | .notANonEmptyArray => "operand must be a non-empty array"
  | .tooLarge => "operand is too large"
  | .notACount => "operand must be a non-negative integer"
  | .notPairs => "map entries must be [key, value] pairs"
  | .notASize count => count.text ++ " is not a valid size"

/-- The fault of a document id in words. -/
def DocumentIdProblem.message : DocumentIdProblem → String
  | .subDocument value => "sub-document is not a valid id: " ++ value.compact
  | .array value => "array is not a valid id: " ++ value.compact
  | .literal value => value.text

/-- The fault of extended JSON in words. -/
def ExtendedJsonProblem.message : ExtendedJsonProblem → String
  | .notMillis found =>
    inQuotes ExtendedTag.date.key ++ " requires an integral epoch milliseconds number, got " ++ found.compact
  | .notAString tag found => inQuotes tag.key ++ " requires a string, got " ++ found.compact
  | .malformed tag text => inQuotes tag.key ++ " value " ++ Text.quoted text ++ " is invalid"

/-- The fault of a column condition in words. -/
def ColumnProblem.message : ColumnProblem → String
  | .vector type => type.text ++ " columns cannot be filtered"
  | .selectorOnOther selector kind =>
    inQuotes selector.key ++ " can only be used on map columns, not " ++ kind.name
  | .operatorWithSelector operator selector =>
    inQuotes operator.key ++ " cannot be used with " ++ inQuotes selector.key
  | .needsContainer operator type =>
    inQuotes operator.key ++ " needs a list, set or map column, not " ++ type.text
  | .componentMismatch operator component type =>
    inQuotes operator.key ++ " cannot be applied to " ++ component.name ++ " of a " ++ type.text ++ " column"
  | .wholeColumn operator type =>
    inQuotes operator.key ++ " cannot compare a whole " ++ type.text ++ " column"
  | .valueMismatch kind type => kind.name ++ " value cannot be compared with a " ++ type.text ++ " column"
  | .operandMismatch operator kind => inQuotes operator.key ++ " cannot take a " ++ kind.name ++ " operand"

/-- The use in words. -/
def OperatorUse.name : OperatorUse → String
  | .equality => "an equality"
  | .comparison => "a comparison"
  | .membership => "a membership test"
  | .containerTest => "a container test"

/-- The failure in words: the first comparison without a capture, else the captures without a comparison. -/
def MatchFailure.message (failure : MatchFailure) : String :=
  match failure.firstUnclaimed? with
  | some comparison => "no supported filter for " ++ comparison.text
  | none =>
    if 0 < failure.unmatchedCaptures then
      failure.unmatchedCaptures.repr ++ " expected comparison(s) missing"
    else
      "filter shape is not supported"

/-- Why there is no backend form, in words. -/
def ResolutionProblem.message : ResolutionProblem → String
  | .unmatched failure => failure.message
  | .operatorUse operator use => inQuotes operator.key ++ " cannot be used as " ++ use.name
  | .misfit path operator kind marker =>
    inQuotes path ++ " " ++ operator.key ++ " " ++ kind.name ++ " does not fit " ++ marker
  | .other reason => reason

namespace FilterError

/-- The stable code of the kind of error. -/
def code : FilterError → String
  | .notAnObject _ => "FILTER_NOT_OBJECT"
  | .invalidExpression _ => "INVALID_FILTER_EXPRESSION"
  | .unsupportedOperator _ => "UNSUPPORTED_FILTER_OPERATION"
  | .invalidOperand _ _ => "INVALID_FILTER_OPERAND"
  | .tooManyValues _ _ _ => "FILTER_IN_VALUES_TOO_MANY"
  | .multipleIds _ => "FILTER_MULTIPLE_ID_FILTER"
  | .idUnderOr _ => "FILTER_ID_UNDER_OR"
  | .idOperator _ _ => "FILTER_INVALID_ID_OPERATOR"
  | .invalidDocumentId _ => "INVALID_DOCUMENT_ID"
  | .invalidExtendedJson _ => "INVALID_EXTENDED_JSON"
  | .reservedFieldArray _ => "FILTER_RESERVED_FIELD_ARRAY"
  | .unindexedPath _ => "UNINDEXED_FILTER_PATH"
  | .idNotIndexed _ => "ID_NOT_INDEXED"
  | .unknownColumn _ _ => "UNKNOWN_TABLE_COLUMN"
  | .unsupportedColumn _ _ => "UNSUPPORTED_COLUMN_FILTER"
  | .unresolvable _ => "FILTER_UNRESOLVABLE"
  | .tooManyFilters _ _ => "FILTER_TOO_MANY_PROPERTIES"

/-- The error in words. -/
def message : FilterError → String
  | .notAnObject found => "filter clause must be a JSON object or null, got " ++ found.kindName
  | .invalidExpression problem => "invalid filter expression: " ++ problem.message
  | .unsupportedOperator key => "unsupported filter operator " ++ inQuotes key
  | .invalidOperand operator problem =>
    "invalid operand for " ++ inQuotes operator.key ++ ": " ++ problem.message
  | .tooManyValues operator max actual =>
    inQuotes operator.key ++ " has " ++ actual.repr ++ " values, the maximum allowed is " ++ max.repr
  | .multipleIds path => "filter may contain at most one comparison on " ++ inQuotes path
  | .idUnderOr path => "comparison on " ++ inQuotes path ++ " is not allowed directly inside '$or'"
  | .idOperator path operator =>
    "operator " ++ inQuotes operator.key ++ " is not supported on " ++ inQuotes path ++
      ", use $eq, $ne, $in or $nin"
  | .invalidDocumentId problem => "invalid document id: " ++ problem.message
  | .invalidExtendedJson problem => "invalid extended JSON value: " ++ problem.message
  | .reservedFieldArray field => "cannot filter on reserved field " ++ inQuotes field ++ " by array value"
  | .unindexedPath path => "filter path " ++ inQuotes path ++ " is not indexed"
  | .idNotIndexed path => inQuotes path ++ " is not indexed, filtering on it is not allowed"
  | .unknownColumn table column => "table " ++ inQuotes table ++ " has no column " ++ inQuotes column
  | .unsupportedColumn column problem =>
    "unsupported filter on column " ++ inQuotes column ++ ": " ++ problem.message
  | .unresolvable problem => "filter cannot be resolved: " ++ problem.message
  | .tooManyFilters max actual =>
    "filter has " ++ actual.repr ++ " comparisons, the maximum allowed is " ++ max.repr

/-- The error as JSON: its code and its words. -/
def toJson (e : FilterError) : Json := .object [("error", .string e.code), ("message", .string e.message)]

end FilterError

end DocumentFilter
