/-
The rules that resolve a filter over a document collection.

The filter without conditions and the filter of a single identity condition
have rules of their own; the last rule takes every filter whose comparisons
each fit one of its captures. The captures on the identity come first, so a
comparison on it never counts as one on an ordinary path.
-/
import DocumentFilter.Collection.Filter
import DocumentFilter.Resolution.RuleTable
import DocumentFilter.Resolution.Resolved
import DocumentFilter.Schema.Collection

namespace DocumentFilter

/-- The uses of comparisons over a collection. -/
inductive CollectionMarker where
  | id
  | idIn
  | membership
  | number
  | text
  | bool
  | null
  | date
  | presence
  | array
  | size
  | arrayEquals
  | subDocumentEquals
  deriving DecidableEq, Repr

/-- The marker's name in messages. -/
def CollectionMarker.name : CollectionMarker → String
  | .id => "Id"
  | .idIn => "IdIn"
  | .membership => "Membership"
  | .number => "Number"
  | .text => "Text"
  | .bool => "Bool"
  | .null => "Null"
  | .date => "Date"
  | .presence => "Exists"
  | .array => "Array"
  | .size => "Size"
  | .arrayEquals => "ArrayEquals"
  | .subDocumentEquals => "SubDocEquals"

namespace CollectionFilter

/-! ## Primitives of captures -/

/-- The document ids that literals are. -/
def documentIds (values : List Literal) : Except FilterError (List DocumentId) :=
  values.mapM fun value =>
    match value with
    | .documentId docId => .ok docId
    | value => .error (.invalidDocumentId (.literal value))

/-- The primitive of a size; a negative count, `-0.0` included, asks for any other size. -/
def ofCount (path : String) (count : Number) : Except FilterError CollectionFilter :=
  match count.toBinary64? with
  | some x =>
    if x.isIntegral && x.fitsInt64 then .ok (.size path x.wholePart x.negative)
    else .error (.invalidOperand .size (.notASize count))
  | none => .error (.invalidOperand .size (.notASize count))

/-- The primitive of an operation captured under a marker. -/
def ofOperation (marker : CollectionMarker) (path : String) (op : Operation) :
    Except FilterError CollectionFilter :=
  match marker, op.operand with
  | .id, .documentId docId => (EqualityTest.ofOperator op.operator).map (.id · docId)
  | .idIn, .array values => do
    let test ← MembershipTest.ofOperator op.operator
    let ids ← documentIds values
    return .idIn test ids
  | .membership, .array values => (MembershipTest.ofOperator op.operator).map (.isIn path · values)
  | .number, .number value => (ComparisonTest.ofOperator op.operator).map (.number path · value)
  | .text, .string value => (EqualityTest.ofOperator op.operator).map (.text path · value)
  | .bool, .boolean value => (EqualityTest.ofOperator op.operator).map (.bool path · value)
  | .null, .null => (EqualityTest.ofOperator op.operator).map (.isNull path ·)
  | .date, .date value => (ComparisonTest.ofOperator op.operator).map (.date path · value)
  | .presence, .boolean present => .ok (.presence path present)
  | .array, .array values => .ok (.all path values (op.operator == .notAny))
  | .size, .number count => ofCount path count
  | .arrayEquals, .array values => (EqualityTest.ofOperator op.operator).map (.arrayEquals path · values)
  | .subDocumentEquals, .subDocument value =>
    (EqualityTest.ofOperator op.operator).map (.subDocumentEquals path · value)
  | marker, operand => .error (.unresolvable (.misfit path op.operator operand.kind marker.name))

/-- The primitives of the operations captured on one path. -/
def ofSite (marker : CollectionMarker) (site : CaptureSite) : Except FilterError (List CollectionFilter) :=
  site.operations.mapM (ofOperation marker site.path)

/-- The primitives of a capture group, site by site. -/
def ofGroup (group : CaptureGroup CollectionMarker) : Except FilterError (List CollectionFilter) :=
  (group.sites.mapM (ofSite group.marker)).map List.flatten

/-! ## Rules -/

/-- The operators of equality. -/
def equality : List Operator := [.eq, .ne]

/-- The operators of membership. -/
def membership : List Operator := [.isIn, .notIn]

/-- The operators of equality and order. -/
def range : List Operator := [.eq, .ne, .gt, .gte, .lt, .lte]

/-- The captures that take every comparison with a primitive. -/
def captures : List (Capture CollectionMarker) := [
  ⟨.id, CollectionSchema.identityPath, equality, .documentId⟩,
  ⟨.idIn, CollectionSchema.identityPath, membership, .array⟩,
  ⟨.membership, Path.wildcard, membership, .array⟩,
  ⟨.number, Path.wildcard, range, .number⟩,
  ⟨.text, Path.wildcard, equality, .string⟩,
  ⟨.bool, Path.wildcard, equality, .boolean⟩,
  ⟨.null, Path.wildcard, equality, .null⟩,
  ⟨.date, Path.wildcard, range, .date⟩,
  ⟨.presence, Path.wildcard, [.present], .boolean⟩,
  ⟨.array, Path.wildcard, [.all, .notAny], .array⟩,
  ⟨.size, Path.wildcard, [.size], .number⟩,
  ⟨.arrayEquals, Path.wildcard, equality, .array⟩,
  ⟨.subDocumentEquals, Path.wildcard, equality, .subDocument⟩]

/-- The rule for the filter without conditions. -/
def emptyRule : Rule CollectionMarker CollectionFilter := ⟨⟨.empty, []⟩, fun _ => .ok .empty⟩

/-- The rule for a single equality with an identity. -/
def idRule : Rule CollectionMarker CollectionFilter :=
  ⟨⟨.strict, [⟨.id, CollectionSchema.identityPath, [.eq], .documentId⟩]⟩, FilterTree.build ofGroup⟩

/-- The rule for a single list of identities. -/
def idInRule : Rule CollectionMarker CollectionFilter :=
  ⟨⟨.strict, [⟨.idIn, CollectionSchema.identityPath, [.isIn], .array⟩]⟩, FilterTree.build ofGroup⟩

/-- The rule for all filters that have primitives. -/
def generalRule : Rule CollectionMarker CollectionFilter :=
  ⟨⟨.greedy, captures⟩, FilterTree.build ofGroup⟩

/-- The rules in order. -/
def rules : RuleTable CollectionMarker CollectionFilter :=
  ⟨"collection", emptyRule, [idRule, idInRule, generalRule]⟩

/-- Resolves a clause over a collection. -/
def resolve (limits : Limits) (clause : Clause) : Except FilterError (Resolved CollectionFilter) := do
  let tree ← rules.apply clause.expression
  Resolved.ofTree limits clause tree

end CollectionFilter

end DocumentFilter
