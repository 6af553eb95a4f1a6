/-
Filter documents: objects whose entries join filters, negate one, or put a
condition on a field.

`Contents` is what a part of a document adds to the node it stands in. Parts
are read in source order and the first fault wins. `Clause.parse` reads a
whole filter, checks its operands, removes NOT and validates the result.
-/
import DocumentFilter.Clause.Basic
import DocumentFilter.Clause.Condition
import DocumentFilter.Clause.Operand

namespace DocumentFilter

/-- The nodes, comparisons and warnings that a part of a document adds. -/
structure Contents where
  children : List Expression := []
  comparisons : List Comparison := []
  warnings : List Warning := []

/-- What the key of an entry says about it. -/
inductive EntryKind where
  | junction (junction : Junction)
  | negation
  | unknown
  | field
  deriving DecidableEq, Repr

/-- What a key says: a dollar key that is neither reserved nor a connective is unknown. -/
def EntryKind.ofKey (schema : Schema) (key : String) : EntryKind :=
  match key with
  | "$and" => .junction .and
  | "$or" => .junction .or
  | "$not" => .negation
  | key => if isDollarKey key && !schema.isReserved key then .unknown else .field

namespace Contents

/-- One part after the other. -/
def append (a b : Contents) : Contents :=
  ⟨a.children ++ b.children, a.comparisons ++ b.comparisons, a.warnings ++ b.warnings⟩

instance : Append Contents := ⟨append⟩

/-- The contents as a node of their own. -/
def conjunction (c : Contents) : Expression := ⟨.and, c.children, c.comparisons⟩

/-- A single node with the warnings of what it holds. -/
def ofNode (node : Expression) (warnings : List Warning) : Contents := { children := [node], warnings }

/-- An element of a junction: a single comparison joins the junction's node, all else is a node below it. -/
def element (c : Contents) : Contents :=
  match c.children, c.comparisons with
  | [], [_] => c
  | _, _ => ofNode c.conjunction c.warnings

/-- The contents of a field and its condition. -/
def ofField (schema : Schema) (path : String) (value : Json) : Except FilterError Contents := do
  Condition.checkPath schema path value
  let comparisons ← Condition.comparisons schema path value
  let warnings ← comparisons.mapM schema.check
  return { comparisons, warnings := warnings.filterMap id }

mutual
/-- The contents of an entry. -/
def ofEntry (schema : Schema) (key : String) (value : Json) : Except FilterError Contents :=
  match EntryKind.ofKey schema key, value with
  | .junction junction, .array items =>
    if items.isEmpty then .error (.invalidExpression (.emptyArray junction))
    else
      (ofElements schema junction items).map fun c =>
        ofNode ⟨junction.connective, c.children, c.comparisons⟩ c.warnings
  | .junction junction, _ => .error (.invalidExpression (.notAnArray junction))
  | .negation, .object entries =>
    if entries.isEmpty then .error (.invalidExpression .badNegation)
    else (ofEntries schema entries).map fun c => ofNode ⟨.not, [c.conjunction], []⟩ c.warnings
  | .negation, _ => .error (.invalidExpression .badNegation)
  | .unknown, _ => .error (.unsupportedOperator key)
  | .field, value => ofField schema key value

/-- The contents of a list of entries. -/
def ofEntries (schema : Schema) : List (String × Json) → Except FilterError Contents
  | [] => .ok {}
  | (key, value) :: entries => do
    let first ← ofEntry schema key value
    let others ← ofEntries schema entries
    return first ++ others

/-- The contents of the elements of a junction, each a non-empty object. -/
def ofElements (schema : Schema) (junction : Junction) : List Json → Except FilterError Contents
  | [] => .ok {}
  | .object entries :: items => do
    if entries.isEmpty then throw (.invalidExpression (.badElement junction))
    let first ← ofEntries schema entries
    let others ← ofElements schema junction items
    return first.element ++ others
  | _ :: _ => .error (.invalidExpression (.badElement junction))
end

end Contents

/-- The validated clause of a filter; null and no filter at all are the empty clause. -/
def Clause.parse (schema : Schema) (limits : Limits) (filter : Option Json) : Except FilterError Clause :=
  match filter with
  | none | some .null => .ok .empty
  | some (.object entries) => do
    let contents ← Contents.ofEntries schema entries
    let expression := contents.conjunction
    expression.checkOperands limits
    (Clause.ofExpression expression schema.identityPath? contents.warnings.eraseDups).validate
  | some found => .error (.notAnObject found)

end DocumentFilter
