/-
A bare value is an equality.

A value that is no list of operators says the same as the list whose one
operator is `$eq` with that value. Documents that differ in nothing but which
of the two they write, at any depth, are read with the same contents or
refused for the same reason (`ofEntries_of_respelled`), whatever the target:
on the identity, on reserved fields, on container columns and for extended
JSON that is no literal, too.
-/
import DocumentFilter.Proofs.Grammar

namespace DocumentFilter

/-! ## Conditions -/

/-- The value is no list of operators: no object, an object without dollar keys, or a lone tag of extended JSON. -/
def Json.IsBare (value : Json) : Prop :=
  ∀ entries, value = .object entries → (∀ entry ∈ entries, isDollarKey entry.1 = false) ∨
    ∃ tag payload, entries = [(ExtendedTag.key tag, payload)]

theorem ExtendedTag.ofKey?_key (tag : ExtendedTag) : ofKey? tag.key = some tag := by cases tag <;> rfl

theorem Json.IsBare.isPlain {value : Json} (h : value.IsBare) : Condition.IsPlain value := by
  intro entries hvalue
  rcases h entries hvalue with hfields | ⟨tag, payload, rfl⟩
  · have hany : entries.any (isDollarKey ·.1) = false := by simpa using hfields
    rw [Condition.isOperatorObject, hany, Bool.and_false]
  · simp [Condition.isOperatorObject, ExtendedValue.wrapper?, ExtendedTag.ofKey?_key]

namespace Condition

variable {schema : Schema} {path : String} {op : Operator} {value : Json}

theorem operatorOf_key : operatorOf path op.key = .ok op := operatorOf_eq_ok.mpr rfl

theorem comparison_key :
    comparison schema path op.key value = (operand schema path op value).map (Comparison.single path op) := by
  rw [comparison, operatorOf_key]
  show (operand schema path op value >>= fun literal => pure (Comparison.single path op literal)) = _
  cases operand schema path op value <;> rfl

/-- On a container, too, an operator that is no test of elements looks at the whole value. -/
theorem containerEntry_key {kind : ContainerKind} (h : op.isContainerTest = false) :
    containerEntry schema path kind op.key value =
      (operand schema path op value).map fun literal => [Comparison.single path op literal] := by
  have hcomparison : containerComparison schema path kind op.key value =
      (operand schema path op value).map (Comparison.single path op) := by
    rw [containerComparison, operatorOf_key]
    simp only [bind, Except.bind, h]
    cases operand schema path op value <;> rfl
  rw [containerEntry, op.selector_key, hcomparison]
  cases operand schema path op value <;> rfl

/-- The operator object of an equality writes what the bare value writes, also on a container column. -/
theorem operatorObject_eqOperator : operatorObject schema path [("$eq", value)] = equality schema path value := by
  have hkey : "$eq" = Operator.eq.key := rfl
  unfold operatorObject equality
  split
  · simp only [List.mapM_cons, hkey, comparison_key]
    cases operand schema path .eq value <;> rfl
  · have hplain : Operator.eq.isContainerTest = false := rfl
    simp only [List.mapM_cons, hkey, containerEntry_key hplain]
    cases operand schema path .eq value <;> rfl

theorem comparisons_eqOperator (h : IsPlain value) :
    comparisons schema path (.object [("$eq", value)]) = comparisons schema path value := by
  have hoperators : isOperatorObject [("$eq", value)] = true :=
    isOperatorObject_of_mem List.mem_cons_self (by decide) rfl
  rw [comparisons_of_operators hoperators, comparisons_of_isPlain h, operatorObject_eqOperator]

end Condition

/-! ## Documents -/

namespace Document

mutual
/-- Entries that write some bare values of others behind `$eq`, here and further down. -/
inductive Respelled (schema : Schema) : List (String × Json) → List (String × Json) → Prop
  | nil : Respelled schema [] []
  | kept {key value entries entries'} : Respelled schema entries entries' →
      Respelled schema ((key, value) :: entries) ((key, value) :: entries')
  /-- A reserved field refuses an array before it looks at it, so an array stays as it is there. -/
  | equality {path value entries entries'} : IsFieldKey path → value.IsBare →
      (schema.isReserved path = true → ∀ items, value ≠ .array items) → Respelled schema entries entries' →
      Respelled schema ((path, value) :: entries) ((path, .object [("$eq", value)]) :: entries')
  | junction (j) {items items' entries entries'} : ElementsRespelled schema items items' →
      Respelled schema entries entries' →
      Respelled schema ((Junction.key j, .array items) :: entries) ((Junction.key j, .array items') :: entries')
  | negation {inner inner' entries entries'} : Respelled schema inner inner' → Respelled schema entries entries' →
      Respelled schema (("$not", .object inner) :: entries) (("$not", .object inner') :: entries')

/-- Elements of junctions that write some bare values of others behind `$eq`. -/
inductive ElementsRespelled (schema : Schema) : List Json → List Json → Prop
  | nil : ElementsRespelled schema [] []
  | kept (item) {items items'} : ElementsRespelled schema items items' →
      ElementsRespelled schema (item :: items) (item :: items')
  | element {entries entries' items items'} : Respelled schema entries entries' →
      ElementsRespelled schema items items' →
      ElementsRespelled schema (.object entries :: items) (.object entries' :: items')
end

variable {schema : Schema}

theorem Respelled.isEmpty_eq {entries entries' : List (String × Json)} (h : Respelled schema entries entries') :
    entries'.isEmpty = entries.isEmpty := by
  cases h <;> rfl

theorem ElementsRespelled.isEmpty_eq {items items' : List Json} (h : ElementsRespelled schema items items') :
    items'.isEmpty = items.isEmpty := by
  cases h <;> rfl

end Document

namespace Contents

variable {schema : Schema}

/-- A field is read as its equality is. -/
theorem ofEntry_eqOperator {path : String} {value : Json} (hpath : IsFieldKey path) (hbare : value.IsBare)
    (harray : schema.isReserved path = true → ∀ items, value ≠ .array items) :
    ofEntry schema path (.object [("$eq", value)]) = ofEntry schema path value := by
  have hcheck : Condition.checkPath schema path (.object [("$eq", value)]) = Condition.checkPath schema path value := by
    unfold Condition.checkPath
    split
    · rename_i hreserved
      cases value with
      | array items => exact absurd rfl (harray hreserved items)
      | _ => rfl
    · rfl
  simp only [ofEntry_of_isFieldKey hpath, ofField, hcheck, Condition.comparisons_eqOperator hbare.isPlain]

mutual
/-- **Respelled documents are read alike**, with the same contents or the same error. -/
theorem ofEntries_of_respelled : ∀ {entries entries' : List (String × Json)},
    Document.Respelled schema entries entries' → ofEntries schema entries' = ofEntries schema entries
  | _, _, .nil => rfl
  | _, _, .kept h => by
    simp only [ofEntries, ofEntries_of_respelled h]
  | _, _, .equality hpath hbare harray h => by
    simp only [ofEntries, ofEntry_eqOperator hpath hbare harray, ofEntries_of_respelled h]
  | _, _, .junction j hitems h => by
    simp only [ofEntries, ofEntry_junction, hitems.isEmpty_eq, ofElements_of_respelled hitems,
      ofEntries_of_respelled h]
  | _, _, .negation hinner h => by
    simp only [ofEntries, ofEntry_negation, hinner.isEmpty_eq, ofEntries_of_respelled hinner,
      ofEntries_of_respelled h]

theorem ofElements_of_respelled {j : Junction} : ∀ {items items' : List Json},
    Document.ElementsRespelled schema items items' → ofElements schema j items' = ofElements schema j items
  | _, _, .nil => rfl
  | _, _, .kept item h => by
    cases item with
    | object entries => simp only [ofElements, ofElements_of_respelled h]
    | _ => rfl
  | _, _, .element hentries h => by
    simp only [ofElements, hentries.isEmpty_eq, ofEntries_of_respelled hentries, ofElements_of_respelled h]
end

end Contents

/-- **A bare value is exactly `$eq`**: documents of which one writes behind `$eq` what the other writes bare parse to
the same clause, with the same warnings, or are refused for the same reason. -/
theorem parse_respelled {schema : Schema} {entries entries' : List (String × Json)}
    (h : Document.Respelled schema entries entries') (limits : Limits) :
    Clause.parse schema limits (some (.object entries')) = Clause.parse schema limits (some (.object entries)) := by
  simp only [Clause.parse, Contents.ofEntries_of_respelled h]

/-- Users with another identity that were not made at the epoch, and who live in Austin. -/
def bareUsers : List (String × Json) :=
  [("$not", .object [("$or", .array [
      .object [("_id", .object [("$uuid", .string "6ba7b810-9dad-11d1-80b4-00c04fd430c8")])],
      .object [("made", .object [("$date", .number (.int 0))])]])]),
    ("address", .object [("city", .string "Austin")])]

/-- The same users; the equalities on the identity and on the address are spelled out. -/
def spelledUsers : List (String × Json) :=
  [("$not", .object [("$or", .array [
      .object [("_id", .object [("$eq", .object [("$uuid", .string "6ba7b810-9dad-11d1-80b4-00c04fd430c8")])])],
      .object [("made", .object [("$date", .number (.int 0))])]])]),
    ("address", .object [("$eq", .object [("city", .string "Austin")])])]

theorem respelled_users (schema : CollectionSchema) :
    Document.Respelled (.collection schema) bareUsers spelledUsers := by
  have huuid : Json.IsBare (.object [("$uuid", .string "6ba7b810-9dad-11d1-80b4-00c04fd430c8")]) := by
    intro entries heq
    cases heq
    exact .inr ⟨.uuid, _, rfl⟩
  have haddress : Json.IsBare (.object [("city", .string "Austin")]) := by
    intro entries heq
    cases heq
    exact .inl (by decide)
  refine .negation (.junction .or (.element ?_ (.kept _ .nil)) .nil) (.equality (by decide) haddress ?_ .nil)
  · exact .equality (by decide) huuid (fun _ _ heq => by cases heq) .nil
  · exact fun _ _ heq => by cases heq

theorem parse_respelled_users : Document.Respelled (.collection { name := "users" }) bareUsers spelledUsers ∧
    ∃ clause, Clause.parse (.collection { name := "users" }) {} (some (.object bareUsers)) = .ok clause ∧
      Clause.parse (.collection { name := "users" }) {} (some (.object spelledUsers)) = .ok clause ∧
      clause.expression.childrenFirst.map (·.path) = ["_id", "made", "address"] := by
  have hrespelled := respelled_users { name := "users" }
  have hpaths : (Clause.parse (.collection { name := "users" }) {} (some (.object bareUsers))).map
      (·.expression.childrenFirst.map (·.path)) = .ok ["_id", "made", "address"] := by decide +kernel
  obtain ⟨clause, hclause, hpaths⟩ := map_eq_ok.mp hpaths
  exact ⟨hrespelled, clause, hclause, (parse_respelled hrespelled {}).trans hclause, hpaths⟩

end DocumentFilter
