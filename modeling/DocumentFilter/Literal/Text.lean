/-
How literals are written: as text inside messages, and as JSON in answers,
where every value is tagged with its kind.
-/
import DocumentFilter.Json.Compact
import DocumentFilter.Literal.Basic
import DocumentFilter.Text.Quoted

namespace DocumentFilter

/-! ## As text -/

/-- A date as an object in a message. -/
def Instant.text (t : Instant) : String := "\x7b\"$date\":" ++ (Number.int t.millis).text ++ "\x7d"

/-- The id in a message. -/
def DocumentId.text : DocumentId → String
  | .string s => Text.quoted s
  | .number n => n.text
  | .boolean b => if b then "true" else "false"
  | .null => "null"
  | .date t => t.text
  | .uuid id => "\x7b\"$uuid\":\"" ++ id.text ++ "\"\x7d"
  | .objectId id => "\x7b\"$objectId\":\"" ++ id.text ++ "\"\x7d"

mutual
/-- The literal in a message. -/
def Literal.text : Literal → String
  | .number n => n.text
  | .string s => Text.quoted s
  | .boolean b => if b then "true" else "false"
  | .null => "null"
  | .date t => t.text
  | .array items => "[" ++ ",".intercalate (Literal.texts items) ++ "]"
  | .subDocument entries => (Json.object entries).compact
  | .documentId id => id.text

/-- The texts of an array's items. -/
def Literal.texts : List Literal → List String
  | [] => []
  | item :: items => item.text :: Literal.texts items
end

/-! ## As JSON -/

/-- A date as extended JSON, its milliseconds as a string. -/
def Instant.toJson (t : Instant) : Json :=
  .object [("$date", .object [("$numberLong", .string (Number.int t.millis).text)])]

/-- The id with its kind. -/
def DocumentId.toJson : DocumentId → Json
  | .string s => .object [("string", .string s)]
  | .number n => .object [("number", .number n)]
  | .boolean b => .object [("boolean", .bool b)]
  | .null => .string "null"
  | .date t => .object [("date", t.toJson)]
  | .uuid id => .object [("uuid", .string id.text)]
  | .objectId id => .object [("object_id", .object [("$oid", .string id.text)])]

mutual
/-- The literal with its kind. -/
def Literal.toJson : Literal → Json
  | .number n => .object [("number", .number n)]
  | .string s => .object [("string", .string s)]
  | .boolean b => .object [("boolean", .bool b)]
  | .null => .string "null"
  | .date t => .object [("date", t.toJson)]
  | .array items => .object [("array", .array (Literal.toJsons items))]
  | .subDocument entries => .object [("sub_doc", .object entries)]
  | .documentId id => .object [("document_id", id.toJson)]

/-- The items of an array as JSON. -/
def Literal.toJsons : List Literal → List Json
  | [] => []
  | item :: items => item.toJson :: Literal.toJsons items
end

end DocumentFilter
