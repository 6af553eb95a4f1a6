/-
JSON values. Objects keep their entries in source order, so a filter's
conditions stay in the order in which they were written.
-/
import DocumentFilter.Number.Basic

namespace DocumentFilter

/-- A JSON value; the entries of an object are in source order. -/
inductive Json where
  | null
  | bool (b : Bool)
  | number (n : Number)
  | string (s : String)
  | array (items : List Json)
  | object (entries : List (String × Json))
  deriving Inhabited

namespace Json

/-- The name of the value's kind. -/
def kindName : Json → String
  | .null => "null"
  | .bool _ => "boolean"
  | .number _ => "number"
  | .string _ => "string"
  | .array _ => "array"
  | .object _ => "object"

/-- A natural number as JSON. -/
def ofNat (n : Nat) : Json := .number (.int n)

/-- A value, or null for none. -/
def ofOption (x : Option Json) : Json := x.getD .null

/-- The value of the first entry with the key. -/
def lookup? (key : String) (entries : List (String × Json)) : Option Json :=
  (entries.find? (·.1 == key)).map (·.2)

/-! ## Equality -/

mutual
/-- Equality as a test, entry by entry in order. -/
def same : Json → Json → Bool
  | .null, .null => true
  | .bool a, .bool b => a == b
  | .number a, .number b => decide (a = b)
  | .string a, .string b => a == b
  | .array as, .array bs => sameItems as bs
  | .object as, .object bs => sameEntries as bs
  | _, _ => false

/-- `same` on the items of arrays. -/
def sameItems : List Json → List Json → Bool
  | [], [] => true
  | a :: as, b :: bs => same a b && sameItems as bs
  | _, _ => false

/-- `same` on the entries of objects. -/
def sameEntries : List (String × Json) → List (String × Json) → Bool
  | [], [] => true
  | (k, a) :: as, (l, b) :: bs => k == l && same a b && sameEntries as bs
  | _, _ => false
end

mutual
theorem same_self : ∀ a : Json, same a a = true
  | .null => rfl
  | .bool b => by cases b <;> rfl
  | .number n => by simp only [same, decide_true]
  | .string s => by simp only [same, beq_self_eq_true]
  | .array as => by simp only [same, sameItems_self as]
  | .object as => by simp only [same, sameEntries_self as]

theorem sameItems_self : ∀ as : List Json, sameItems as as = true
  | [] => rfl
  | a :: as => by simp only [sameItems, same_self a, sameItems_self as, Bool.and_self]

theorem sameEntries_self : ∀ as : List (String × Json), sameEntries as as = true
  | [] => rfl
  | (k, a) :: as => by
    simp only [sameEntries, beq_self_eq_true, same_self a, sameEntries_self as, Bool.and_self]
end

mutual
theorem eq_of_same : ∀ {a b : Json}, same a b = true → a = b
  | .null, b, h => by cases b <;> simp [same] at h ⊢
  | .bool _, b, h => by cases b <;> simp [same] at h ⊢; exact h
  | .number _, b, h => by cases b <;> simp [same] at h ⊢; exact h
  | .string _, b, h => by cases b <;> simp [same] at h ⊢; exact h
  | .array _, b, h => by cases b <;> simp [same] at h ⊢; exact eq_of_sameItems h
  | .object _, b, h => by cases b <;> simp [same] at h ⊢; exact eq_of_sameEntries h

theorem eq_of_sameItems : ∀ {as bs : List Json}, sameItems as bs = true → as = bs
  | [], [], _ => rfl
  | [], _ :: _, h => by simp [sameItems] at h
  | _ :: _, [], h => by simp [sameItems] at h
  | a :: as, b :: bs, h => by
    simp only [sameItems, Bool.and_eq_true] at h
    rw [eq_of_same h.1, eq_of_sameItems h.2]

theorem eq_of_sameEntries : ∀ {as bs : List (String × Json)}, sameEntries as bs = true → as = bs
  | [], [], _ => rfl
  | [], _ :: _, h => by simp [sameEntries] at h
  | _ :: _, [], h => by simp [sameEntries] at h
  | (k, a) :: as, (l, b) :: bs, h => by
    simp only [sameEntries, Bool.and_eq_true, beq_iff_eq] at h
    rw [h.1.1, eq_of_same h.1.2, eq_of_sameEntries h.2]
end

theorem same_iff {a b : Json} : same a b = true ↔ a = b :=
  ⟨eq_of_same, fun h => h ▸ same_self a⟩

instance : DecidableEq Json := fun _ _ => decidable_of_iff _ same_iff

end Json

end DocumentFilter
