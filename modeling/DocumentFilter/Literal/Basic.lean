/-
Operands of filter conditions.

A literal is a decoded JSON value: dates are told apart from the objects that
write them, and a value that identifies a document is a document id. Objects
that are not extended JSON stay as they are, as sub-documents.
-/
import DocumentFilter.Identifier.ObjectId
import DocumentFilter.Identifier.Uuid
import DocumentFilter.Json.Basic

namespace DocumentFilter

/-- A point in time, in milliseconds since the start of 1970. -/
structure Instant where
  millis : Int
  deriving DecidableEq

/-- The kind of a literal, by which operands are matched. -/
inductive Kind where
  | number
  | string
  | boolean
  | null
  | date
  | array
  | subDocument
  | documentId
  deriving DecidableEq, Repr

/-- A value that may identify a document. -/
inductive DocumentId where
  | string (s : String)
  | number (n : Number)
  | boolean (b : Bool)
  | null
  | date (t : Instant)
  | uuid (id : Uuid)
  | objectId (id : ObjectId)
  deriving DecidableEq

/-- A decoded operand. -/
inductive Literal where
  | number (n : Number)
  | string (s : String)
  | boolean (b : Bool)
  | null
  | date (t : Instant)
  | array (items : List Literal)
  | subDocument (entries : List (String × Json))
  | documentId (id : DocumentId)
  deriving Inhabited

/-- The object keys that mark extended JSON. -/
inductive ExtendedTag where
  | date
  | uuid
  | objectId
  deriving DecidableEq, Repr

namespace ExtendedTag

/-- The tag as an object key. -/
def key : ExtendedTag → String
  | .date => "$date"
  | .uuid => "$uuid"
  | .objectId => "$objectId"

/-- The tag that an object key is. -/
def ofKey? : String → Option ExtendedTag
  | "$date" => some .date
  | "$uuid" => some .uuid
  | "$objectId" => some .objectId
  | _ => none

end ExtendedTag

namespace Kind

/-- The kind's name in messages. -/
def name : Kind → String
  | .number => "number"
  | .string => "string"
  | .boolean => "boolean"
  | .null => "null"
  | .date => "date"
  | .array => "array"
  | .subDocument => "sub-document"
  | .documentId => "document id"

/-- The kind's code in JSON. -/
def code : Kind → String
  | .subDocument => "sub_doc"
  | .documentId => "document_id"
  | kind => kind.name

/-- The kind that a code stands for. -/
def ofCode? (code : String) : Option Kind :=
  [number, string, boolean, null, date, array, subDocument, documentId].find? (·.code == code)

end Kind

namespace Literal

/-- The kind of a literal. -/
def kind : Literal → Kind
  | .number _ => .number
  | .string _ => .string
  | .boolean _ => .boolean
  | .null => .null
  | .date _ => .date
  | .array _ => .array
  | .subDocument _ => .subDocument
  | .documentId _ => .documentId

/-! ## Equality -/

mutual
/-- Equality as a test. -/
def same : Literal → Literal → Bool
  | .number a, .number b => decide (a = b)
  | .string a, .string b => a == b
  | .boolean a, .boolean b => a == b
  | .null, .null => true
  | .date a, .date b => decide (a = b)
  | .array as, .array bs => sameItems as bs
  | .subDocument as, .subDocument bs => decide (as = bs)
  | .documentId a, .documentId b => decide (a = b)
  | _, _ => false

/-- `same` on the items of arrays. -/
def sameItems : List Literal → List Literal → Bool
  | [], [] => true
  | a :: as, b :: bs => same a b && sameItems as bs
  | _, _ => false
end

mutual
theorem same_self : ∀ a : Literal, same a a = true
  | .number _ => by simp only [same, decide_true]
  | .string _ => by simp only [same, beq_self_eq_true]
  | .boolean _ => by simp only [same, beq_self_eq_true]
  | .null => rfl
  | .date _ => by simp only [same, decide_true]
  | .array as => by simp only [same, sameItems_self as]
  | .subDocument _ => by simp only [same, decide_true]
  | .documentId _ => by simp only [same, decide_true]

theorem sameItems_self : ∀ as : List Literal, sameItems as as = true
  | [] => rfl
  | a :: as => by simp only [sameItems, same_self a, sameItems_self as, Bool.and_self]
end

mutual
theorem eq_of_same : ∀ {a b : Literal}, same a b = true → a = b
  | .number _, b, h => by cases b <;> simp [same] at h ⊢; exact h
  | .string _, b, h => by cases b <;> simp [same] at h ⊢; exact h
  | .boolean _, b, h => by cases b <;> simp [same] at h ⊢; exact h
  | .null, b, h => by cases b <;> simp [same] at h ⊢
  | .date _, b, h => by cases b <;> simp [same] at h ⊢; exact h
  | .array _, b, h => by cases b <;> simp [same] at h ⊢; exact eq_of_sameItems h
  | .subDocument _, b, h => by cases b <;> simp [same] at h ⊢; exact h
  | .documentId _, b, h => by cases b <;> simp [same] at h ⊢; exact h

theorem eq_of_sameItems : ∀ {as bs : List Literal}, sameItems as bs = true → as = bs
  | [], [], _ => rfl
  | [], _ :: _, h => by simp [sameItems] at h
  | _ :: _, [], h => by simp [sameItems] at h
  | a :: as, b :: bs, h => by
    simp only [sameItems, Bool.and_eq_true] at h
    rw [eq_of_same h.1, eq_of_sameItems h.2]
end

theorem same_iff {a b : Literal} : same a b = true ↔ a = b :=
  ⟨eq_of_same, fun h => h ▸ same_self a⟩

instance : DecidableEq Literal := fun _ _ => decidable_of_iff _ same_iff

end Literal

end DocumentFilter
