/-
The rules that resolve a filter over a table.

Captures sort comparisons by operator and kind of operand; the column then
decides what each becomes: scalars are compared and listed, the elements,
keys, values or entries of containers are tested, and every value must be of
a kind that the type accepts.
-/
import DocumentFilter.Resolution.RuleTable
import DocumentFilter.Resolution.Resolved
import DocumentFilter.Schema.Table
import DocumentFilter.Table.Filter

namespace DocumentFilter

/-- The uses of comparisons over a table. -/
inductive TableMarker where
  | text
  | number
  | boolean
  | date
  | null
  | membership
  | contains
  deriving DecidableEq, Repr

namespace TableFilter

/-! ## Primitives of captures -/

/-- The type of what a component selects from a container column. -/
def elementType? : ColumnType → Component → Option ColumnType
  | .list element, .listValue => some element
  | .set element, .setValue => some element
  | .map key _, .mapKey => some key
  | .map _ value, .mapValue => some value
  | _, _ => none

/-- Accepts values that can be bound to the type; the first other one is named. -/
def checkValues (column : String) (type : ColumnType) (values : List Literal) : Except FilterError Unit :=
  match values.find? (!type.accepts ·.kind) with
  | some value => .error (.unsupportedColumn column (.valueMismatch value.kind type))
  | none => .ok ()

/-- Accepts a column of single values. -/
def checkScalar (column : String) (type : ColumnType) (operator : Operator) : Except FilterError Unit :=
  if type.isScalar then .ok () else .error (.unsupportedColumn column (.wholeColumn operator type))

/-- The values of an operand that is a list. -/
def listOperand (column : String) (op : Operation) : Except FilterError (List Literal) :=
  match op.operand with
  | .array values => .ok values
  | operand => .error (.unsupportedColumn column (.operandMismatch op.operator operand.kind))

/-- An entry of a map: a pair whose halves can be bound to the key type and the value type. -/
def entry (column : String) (keyType valueType : ColumnType) (operator : Operator) :
    Literal → Except FilterError (Literal × Literal)
  | .array [key, value] => do
    checkValues column keyType [key]
    checkValues column valueType [value]
    return (key, value)
  | _ => .error (.invalidOperand operator .notPairs)

/-- The primitive of a test on the elements of a container column. -/
def ofElements (column : String) (type : ColumnType) (component : Component) (op : Operation) :
    Except FilterError TableFilter := do
  let values ← listOperand column op
  let test ← ContainerTest.ofOperator op.operator
  match component, type with
  | .mapEntry, .map keyType valueType =>
    let entries ← values.mapM (entry column keyType valueType op.operator)
    return .entries column test entries
  | component, type =>
    match elementType? type component with
    | some element =>
      checkValues column element values
      return .elements column component test values
    | none => throw (.unsupportedColumn column (.componentMismatch op.operator component type))

/-- The primitive of a membership test on a scalar column. -/
def ofMembership (column : String) (type : ColumnType) (op : Operation) : Except FilterError TableFilter := do
  checkScalar column type op.operator
  let values ← listOperand column op
  checkValues column type values
  let test ← MembershipTest.ofOperator op.operator
  return .isIn column type test values

/-- The primitive of a comparison of a scalar column with one value. -/
def ofValue (column : String) (type : ColumnType) (op : Operation) : Except FilterError TableFilter := do
  checkScalar column type op.operator
  checkValues column type [op.operand]
  let test ← ComparisonTest.ofOperator op.operator
  return .native column type test op.operand

/-- The primitive of an operation captured under a marker. -/
def ofOperation (marker : TableMarker) (column : String) (type : ColumnType) (component : Option Component)
    (op : Operation) : Except FilterError TableFilter :=
  match marker, component with
  | .membership, some component | .contains, some component => ofElements column type component op
  | .contains, none => .error (.unsupportedColumn column (.needsContainer op.operator type))
  | _, some component =>
    .error (.unsupportedColumn column (.componentMismatch op.operator component type))
  | .membership, none => ofMembership column type op
  | .null, none => (EqualityTest.ofOperator op.operator).map (.isNull column ·)
  | .text, none | .number, none | .boolean, none | .date, none => ofValue column type op

/-- The primitives of the operations captured on one column. -/
def ofSite (table : TableSchema) (marker : TableMarker) (site : CaptureSite) :
    Except FilterError (List TableFilter) := do
  let type ← table.columnType site.path
  site.operations.mapM (ofOperation marker site.path type site.component)

/-- The primitives of a capture group, site by site. -/
def ofGroup (table : TableSchema) (group : CaptureGroup TableMarker) :
    Except FilterError (List TableFilter) :=
  (group.sites.mapM (ofSite table group.marker)).map List.flatten

/-! ## Rules -/

/-- The operators of equality and order. -/
def range : List Operator := [.eq, .ne, .gt, .gte, .lt, .lte]

/-- The captures that take every comparison that some column may allow. -/
def captures : List (Capture TableMarker) := [
  ⟨.text, Path.wildcard, range, .string⟩,
  ⟨.number, Path.wildcard, range, .number⟩,
  ⟨.boolean, Path.wildcard, range, .boolean⟩,
  ⟨.date, Path.wildcard, range, .date⟩,
  ⟨.null, Path.wildcard, [.eq, .ne], .null⟩,
  ⟨.membership, Path.wildcard, [.isIn, .notIn], .array⟩,
  ⟨.contains, Path.wildcard, [.all, .notAny], .array⟩]

/-- The rule for the filter without conditions. -/
def emptyRule : Rule TableMarker TableFilter := ⟨⟨.empty, []⟩, fun _ => .ok .empty⟩

/-- The rule for all filters that have primitives. -/
def generalRule (table : TableSchema) : Rule TableMarker TableFilter :=
  ⟨⟨.greedy, captures⟩, FilterTree.build (ofGroup table)⟩

/-- The rules in order. -/
def rules (table : TableSchema) : RuleTable TableMarker TableFilter :=
  ⟨"table", emptyRule, [generalRule table]⟩

/-- Resolves a clause over a table. -/
def resolve (table : TableSchema) (limits : Limits) (clause : Clause) :
    Except FilterError (Resolved TableFilter) := do
  let tree ← (rules table).apply clause.expression
  Resolved.ofTree limits clause tree

end TableFilter

end DocumentFilter
