/-
Document collections: schemaless, with rules on which paths are indexed and
with reserved fields that may be switched on.
-/
import DocumentFilter.Error.Message

namespace DocumentFilter

/-- Which paths are indexed: those that `allow` covers if it is given, else those that `deny` does not. -/
structure Indexing where
  allow : Option (List String) := none
  deny : Option (List String) := none
  deriving DecidableEq, Repr

/-- Fields that a collection itself defines. -/
inductive ReservedField where
  | vector
  | vectorize
  | lexical
  deriving DecidableEq, Repr

/-- A collection of documents. -/
structure CollectionSchema where
  name : String
  indexing : Indexing := {}
  vectorEnabled : Bool := false
  lexicalEnabled : Bool := false
  deriving DecidableEq, Repr

namespace Indexing

/-- The path is indexed. -/
def isIndexed (indexing : Indexing) (path : String) : Bool :=
  match indexing.allow, indexing.deny with
  | some rules, _ => rules.any (Path.covers · path)
  | none, some rules => !rules.any (Path.covers · path)
  | none, none => true

/-- The rules that JSON describes; null stands for no list. -/
def ofJson? (json : Json) : Option Indexing := do
  match ← json.fields? ["allow", "deny"] with
  | [allow, deny] =>
    let rules := Json.defaulted none (Json.optional? (Json.list? Json.string?))
    return { allow := ← rules allow, deny := ← rules deny }
  | _ => none

/-- The rules as JSON. -/
def toJson (indexing : Indexing) : Json :=
  let rules (list : Option (List String)) := Json.ofOption (list.map fun rules => .array (rules.map .string))
  .object [("allow", rules indexing.allow), ("deny", rules indexing.deny)]

end Indexing

/-- The field of a reserved key. -/
def ReservedField.ofKey? : String → Option ReservedField
  | "$vector" => some .vector
  | "$vectorize" => some .vectorize
  | "$lexical" => some .lexical
  | _ => none

namespace CollectionSchema

/-- The path of a document's identity. -/
def identityPath : String := "_id"

/-- The reserved field is switched on. -/
def isEnabled (schema : CollectionSchema) : ReservedField → Bool
  | .vector | .vectorize => schema.vectorEnabled
  | .lexical => schema.lexicalEnabled

/-- Accepts a comparison on an enabled reserved field that only asks for presence, or on an indexed path. -/
def check (schema : CollectionSchema) (c : Comparison) : Except FilterError Unit :=
  match ReservedField.ofKey? c.path with
  | some field =>
    if !schema.isEnabled field then .error (.invalidExpression (.fieldDisabled c.path schema.name))
    else if c.operations.any (·.operator != .present) then .error (.invalidExpression (.onlyPresence c.path))
    else .ok ()
  | none =>
    if schema.indexing.isIndexed c.path then .ok ()
    else if c.path = identityPath then .error (.idNotIndexed c.path)
    else .error (.unindexedPath c.path)

/-- The collection that JSON describes. -/
def ofJson? (json : Json) : Option CollectionSchema := do
  match ← json.fields? ["name", "indexing", "vector_enabled", "lexical_enabled"] with
  | [name, indexing, vector, lexical] =>
    return {
      name := ← Json.required Json.string? name
      indexing := ← Json.defaulted {} Indexing.ofJson? indexing
      vectorEnabled := ← Json.defaulted false Json.bool? vector
      lexicalEnabled := ← Json.defaulted false Json.bool? lexical }
  | _ => none

/-- The collection as JSON. -/
def toJson (schema : CollectionSchema) : Json :=
  .object [("name", .string schema.name), ("indexing", schema.indexing.toJson),
    ("vector_enabled", .bool schema.vectorEnabled), ("lexical_enabled", .bool schema.lexicalEnabled)]

end CollectionSchema

end DocumentFilter
