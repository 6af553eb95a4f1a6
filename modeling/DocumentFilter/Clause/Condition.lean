/-
Field conditions: what stands behind a field's path in a filter.

A plain value is an equality. An object with a dollar key, unless it is
extended JSON, is a list of operators with their operands, one comparison
each. On list, set and map columns the membership and element operators look
at the elements, for maps at the entries or, below `$keys` and `$values`, at
the keys or values.
-/
import DocumentFilter.Literal.Decode
import DocumentFilter.Schema.Basic

namespace DocumentFilter

/-- The component that an operator without selector looks at. -/
def ContainerKind.component : ContainerKind → Component
  | .list => .listValue
  | .set => .setValue
  | .map => .mapEntry

namespace Condition

/-- The object is a list of operators. -/
def isOperatorObject (entries : List (String × Json)) : Bool :=
  (ExtendedValue.wrapper? entries).isNone && entries.any (isDollarKey ·.1)

/-- The operator of a key in the condition of a path. -/
def operatorOf (path key : String) : Except FilterError Operator :=
  if isDollarKey key then
    match Operator.ofKey? key with
    | some operator => .ok operator
    | none => .error (.unsupportedOperator key)
  else
    .error (.invalidExpression (.mixedKeys path))

/-- An operand as a document id. -/
def idOperand (value : Json) : Except FilterError Literal := (DocumentId.ofJson value).map .documentId

/-- The operand of an operator; on the identity path, equality and membership take document ids. -/
def operand (schema : Schema) (path : String) (operator : Operator) (value : Json) :
    Except FilterError Literal :=
  if schema.identityPath? = some path then
    match operator, value with
    | .eq, value | .ne, value => idOperand value
    | .isIn, .array items | .notIn, .array items => (items.mapM idOperand).map .array
    | _, value => Literal.ofJson value
  else
    Literal.ofJson value

/-- The comparison that one operator and its operand write. -/
def comparison (schema : Schema) (path key : String) (value : Json) : Except FilterError Comparison := do
  let operator ← operatorOf path key
  let literal ← operand schema path operator value
  return .single path operator literal

/-- Map entries are pairs; an operand that is no array is left to the operand rules. -/
def checkEntries (operator : Operator) : Json → Except FilterError Unit
  | .array entries =>
    if entries.all (· matches .array [_, _]) then .ok () else .error (.invalidOperand operator .notPairs)
  | _ => .ok ()

/-- The comparison that one operator and its operand write on a container column. -/
def containerComparison (schema : Schema) (path : String) (kind : ContainerKind) (key : String)
    (value : Json) : Except FilterError Comparison := do
  let operator ← operatorOf path key
  if operator.isContainerTest then
    if kind = .map then checkEntries operator value
    let literal ← Literal.ofJson value
    return .single path operator literal (some kind.component)
  else
    let literal ← operand schema path operator value
    return .single path operator literal

/-- The comparison that one operator and its operand write below a selector. -/
def selectedComparison (path : String) (selector : Selector) (key : String) (value : Json) :
    Except FilterError Comparison := do
  let operator ← operatorOf path key
  if operator.isContainerTest then
    let literal ← Literal.ofJson value
    return .single path operator literal (some selector.component)
  else
    throw (.unsupportedColumn path (.operatorWithSelector operator selector))

/-- The comparisons that an entry of a container condition writes: one, or those below a selector. -/
def containerEntry (schema : Schema) (path : String) (kind : ContainerKind) (key : String) (value : Json) :
    Except FilterError (List Comparison) :=
  match Selector.ofKey? key with
  | none => (containerComparison schema path kind key value).map fun c => [c]
  | some selector =>
    if kind ≠ .map then .error (.unsupportedColumn path (.selectorOnOther selector kind))
    else
      match value with
      | .object (entry :: entries) =>
        (entry :: entries).mapM fun (key, value) => selectedComparison path selector key value
      | _ => .error (.invalidExpression (.selectorOperand selector path))

/-- The comparisons that an operator object writes. -/
def operatorObject (schema : Schema) (path : String) (entries : List (String × Json)) :
    Except FilterError (List Comparison) :=
  match schema.containerKind? path with
  | none => entries.mapM fun (key, value) => comparison schema path key value
  | some kind =>
    (entries.mapM fun (key, value) => containerEntry schema path kind key value).map List.flatten

/-- The equality that a plain value writes. -/
def equality (schema : Schema) (path : String) (value : Json) : Except FilterError (List Comparison) := do
  let literal ← operand schema path .eq value
  return [.single path .eq literal]

/-- The comparisons that a condition writes. -/
def comparisons (schema : Schema) (path : String) (value : Json) : Except FilterError (List Comparison) :=
  match value with
  | .object entries =>
    if isOperatorObject entries then operatorObject schema path entries else equality schema path value
  | value => equality schema path value

/-- The path may stand before the value: a reserved field before no array, or a well-formed path. -/
def checkPath (schema : Schema) (path : String) (value : Json) : Except FilterError Unit :=
  if schema.isReserved path then
    if value matches .array _ then .error (.reservedFieldArray path) else .ok ()
  else
    match Path.segments? path with
    | .ok _ => .ok ()
    | .error problem => .error (.invalidExpression (.badPath path problem))

end Condition

end DocumentFilter
