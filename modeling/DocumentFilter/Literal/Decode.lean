/-
Decoding operands from JSON.

Extended JSON becomes a date or an id. Where no document id is asked for, a
UUID or an object id becomes the string of its canonical form. Objects inside
a sub-document are not decoded.
-/
import DocumentFilter.Literal.ExtendedJson

namespace DocumentFilter

/-- The literal that an extended JSON value is. -/
def ExtendedValue.toLiteral : ExtendedValue → Literal
  | .date t => .date t
  | .uuid id => .string id.text
  | .objectId id => .string id.text

/-- The document id that an extended JSON value is. -/
def ExtendedValue.toDocumentId : ExtendedValue → DocumentId
  | .date t => .date t
  | .uuid id => .uuid id
  | .objectId id => .objectId id

mutual
/-- The literal that a JSON value writes. -/
def Literal.ofJson : Json → Except FilterError Literal
  | .null => .ok .null
  | .bool b => .ok (.boolean b)
  | .number n => .ok (.number n)
  | .string s => .ok (.string s)
  | .array items => (Literal.ofJsons items).map .array
  | .object entries =>
    match ExtendedValue.wrapper? entries with
    | some (tag, payload) => (ExtendedValue.decode tag payload).map ExtendedValue.toLiteral
    | none => .ok (.subDocument entries)

/-- The literals of an array's items; the first error wins. -/
def Literal.ofJsons : List Json → Except FilterError (List Literal)
  | [] => .ok []
  | value :: values => do
    let item ← Literal.ofJson value
    let items ← Literal.ofJsons values
    return item :: items
end

/-- The document id that a JSON value writes. -/
def DocumentId.ofJson : Json → Except FilterError DocumentId
  | .null => .ok .null
  | .bool b => .ok (.boolean b)
  | .number n => .ok (.number n)
  | .string s => .ok (.string s)
  | .array items => .error (.invalidDocumentId (.array (.array items)))
  | .object entries =>
    match ExtendedValue.wrapper? entries with
    | some (tag, payload) => (ExtendedValue.decode tag payload).map ExtendedValue.toDocumentId
    | none => .error (.invalidDocumentId (.subDocument (.object entries)))

end DocumentFilter
