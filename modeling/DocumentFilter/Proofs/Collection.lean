/-
What clauses over a collection ask, and what the rules capture of it.

Collections have no components, and document ids are decoded for the identity
path only; `OverCollection` says so of an atom, and negation keeps it. The
captures of all rules come to one list of what may stand under each marker
(`Captured`).
-/
import DocumentFilter.Collection.Rules
import DocumentFilter.Proofs.Clause
import DocumentFilter.Proofs.Resolution
import DocumentFilter.Proofs.Vocabulary

namespace DocumentFilter

/-! ## Operands of a collection -/

/-- A plainly decoded value is no document id, and an array only if it was written as one. -/
theorem Literal.kind_of_ofJson {value : Json} {literal : Literal} (h : ofJson value = .ok literal) :
    literal.kind ≠ .documentId ∧ (literal.kind = .array → ∃ items, value = .array items) := by
  cases value with
  | null | bool b | number n | string s =>
    cases h
    exact ⟨by simp [kind], fun hkind => by cases hkind⟩
  | array items =>
    obtain ⟨_, -, rfl⟩ := map_eq_ok.mp h
    exact ⟨by simp [kind], fun _ => ⟨items, rfl⟩⟩
  | object entries =>
    unfold ofJson at h
    split at h
    · obtain ⟨extended, -, rfl⟩ := map_eq_ok.mp h
      cases extended <;> exact ⟨by simp [ExtendedValue.toLiteral, kind], fun hkind => by cases hkind⟩
    · cases h
      exact ⟨by simp [kind], fun hkind => by cases hkind⟩

/-- The literal identifies a document. -/
def Literal.IsId (literal : Literal) : Prop := ∃ id, literal = .documentId id

namespace Condition

theorem isId_of_idOperand {value : Json} {literal : Literal} (h : idOperand value = .ok literal) :
    literal.IsId := by
  obtain ⟨id, -, rfl⟩ := map_eq_ok.mp h
  exact ⟨id, rfl⟩

/-- The ways of decoding an operand over a collection: an id, a list of ids, or a plain value. -/
theorem operand_cases {schema : CollectionSchema} {path : String} {op : Operator} {value : Json}
    {literal : Literal} (h : operand (.collection schema) path op value = .ok literal) :
    (path = CollectionSchema.identityPath ∧ (op = .eq ∨ op = .ne) ∧ literal.IsId) ∨
      (path = CollectionSchema.identityPath ∧ (op = .isIn ∨ op = .notIn) ∧
        ∃ ids, literal = .array ids ∧ ∀ id ∈ ids, id.IsId) ∨
      (literal.kind ≠ .documentId ∧
        (path = CollectionSchema.identityPath → op = .isIn ∨ op = .notIn → literal.kind ≠ .array)) := by
  have members {items : List Json} (h : (items.mapM idOperand).map Literal.array = .ok literal) :
      ∃ ids, literal = .array ids ∧ ∀ id ∈ ids, id.IsId := by
    obtain ⟨ids, hids, rfl⟩ := map_eq_ok.mp h
    refine ⟨ids, rfl, fun id hid => ?_⟩
    obtain ⟨item, -, hitem⟩ := exists_left_of_forall₂ (mapM_eq_ok.mp hids) id hid
    exact isId_of_idOperand hitem
  unfold operand at h
  split at h
  · rename_i hpath
    have hpath : path = CollectionSchema.identityPath := (Option.some.inj hpath).symm
    split at h
    · exact .inl ⟨hpath, .inl rfl, isId_of_idOperand h⟩
    · exact .inl ⟨hpath, .inr rfl, isId_of_idOperand h⟩
    · exact .inr (.inl ⟨hpath, .inl rfl, members h⟩)
    · exact .inr (.inl ⟨hpath, .inr rfl, members h⟩)
    · rename_i hisIn hnotIn
      obtain ⟨hid, harray⟩ := Literal.kind_of_ofJson h
      refine .inr (.inr ⟨hid, fun _ hop hkind => ?_⟩)
      obtain ⟨items, rfl⟩ := harray hkind
      rcases hop with rfl | rfl
      · exact hisIn items rfl rfl
      · exact hnotIn items rfl rfl
  · rename_i hpath
    refine .inr (.inr ⟨(Literal.kind_of_ofJson h).1, fun heq => ?_⟩)
    exact absurd (heq ▸ rfl) hpath

end Condition

/-! ## Atoms of a clause -/

/-- What a clause over a collection may ask: nothing of a component, operands by the rules, and ids where the
identity is compared and nowhere else. -/
structure Atom.OverCollection (a : Atom) : Prop where
  whole : a.component = none
  admissible : a.operation.Admissible
  members : a.path = CollectionSchema.identityPath → a.operation.operator = .isIn ∨ a.operation.operator = .notIn →
    ∃ ids, a.operation.operand = .array ids ∧ ∀ id ∈ ids, id.IsId
  elsewhere : a.operation.operand.kind = .documentId →
    a.path = CollectionSchema.identityPath ∧ (a.operation.operator = .eq ∨ a.operation.operator = .ne)

theorem Atom.OverCollection.negated {a : Atom} (h : a.OverCollection) : a.negated.OverCollection where
  whole := h.whole
  admissible := h.admissible.negated
  members := by
    intro hpath hop
    have hop : a.operation.operator = .isIn ∨ a.operation.operator = .notIn := by
      revert hop
      simp only [Atom.negated, Operation.operator_negated]
      cases a.operation.operator <;> simp [Operator.negated]
    have hoperand : a.operation.negated.operand = a.operation.operand :=
      Operation.operand_negated (by rcases hop with hop | hop <;> simp [hop])
    rw [Atom.negated, hoperand]
    exact h.members hpath hop
  elsewhere := by
    intro hkind
    rw [Atom.negated, Operation.kind_negated] at hkind
    obtain ⟨hpath, hop⟩ := h.elsewhere hkind
    refine ⟨hpath, ?_⟩
    rcases hop with hop | hop <;> simp [Atom.negated, hop, Operator.negated]

theorem overCollection_of_written {schema : CollectionSchema} {limits : Limits} {path : String} {op : Operation}
    {component : Option Component} (h : Condition.Written (.collection schema) ⟨path, [op], component⟩)
    (hcheck : op.check limits = .ok ()) : Atom.OverCollection ⟨path, component, op⟩ := by
  have hadmissible := Operation.admissible_of_check hcheck
  cases h with
  | element hkind => cases hkind
  | whole _ hoperand =>
    rcases Condition.operand_cases hoperand with ⟨hpath, hop, id, rfl⟩ | ⟨hpath, hop, ids, rfl, hids⟩ | ⟨hid, harray⟩
    · refine ⟨rfl, hadmissible, fun _ hmember => ?_, fun _ => ⟨hpath, hop⟩⟩
      rcases hop with rfl | rfl <;> rcases hmember with hmember | hmember <;> cases hmember
    · exact ⟨rfl, hadmissible, fun _ _ => ⟨ids, rfl, hids⟩, fun hkind => by cases hkind⟩
    · refine ⟨rfl, hadmissible, fun hpath hmember => ?_, fun hkind => absurd hkind hid⟩
      obtain ⟨values, hvalues⟩ := hadmissible.list (by rcases hmember with hop | hop <;> cases hop <;> rfl)
      exact absurd (congrArg Literal.kind hvalues) (harray hpath hmember)

theorem overCollection_of_stems {schema : CollectionSchema} {limits : Limits} {c : Comparison}
    (h : Stems (.collection schema) limits c) : ∀ a ∈ c.atoms, a.OverCollection := by
  cases h with
  | kept haccepted hcheck =>
    rw [Comparison.atoms, List.map_singleton, List.forall_mem_singleton]
    exact overCollection_of_written haccepted.written hcheck
  | negated haccepted hcheck =>
    rw [Comparison.atoms, List.map_singleton, List.forall_mem_singleton]
    exact (overCollection_of_written haccepted.written hcheck).negated

namespace CollectionFilter

/-! ## Captures -/

/-- What may be captured under each marker. -/
inductive Captured : CollectionMarker → Atom → Prop
  | id {component op id} : op ∈ equality →
      Captured .id ⟨CollectionSchema.identityPath, component, ⟨op, .documentId id⟩⟩
  | idIn {component op values} : op ∈ CollectionFilter.membership →
      Captured .idIn ⟨CollectionSchema.identityPath, component, ⟨op, .array values⟩⟩
  | membership {path component op values} : op ∈ CollectionFilter.membership →
      Captured .membership ⟨path, component, ⟨op, .array values⟩⟩
  | number {path component op n} : op ∈ range → Captured .number ⟨path, component, ⟨op, .number n⟩⟩
  | text {path component op s} : op ∈ equality → Captured .text ⟨path, component, ⟨op, .string s⟩⟩
  | bool {path component op b} : op ∈ equality → Captured .bool ⟨path, component, ⟨op, .boolean b⟩⟩
  | null {path component op} : op ∈ equality → Captured .null ⟨path, component, ⟨op, .null⟩⟩
  | date {path component op t} : op ∈ range → Captured .date ⟨path, component, ⟨op, .date t⟩⟩
  | presence {path component b} : Captured .presence ⟨path, component, ⟨.present, .boolean b⟩⟩
  | all {path component values} : Captured .array ⟨path, component, ⟨.all, .array values⟩⟩
  | notAny {path component values} : Captured .array ⟨path, component, ⟨.notAny, .array values⟩⟩
  | size {path component n} : Captured .size ⟨path, component, ⟨.size, .number n⟩⟩
  | arrayEquals {path component op values} : op ∈ equality →
      Captured .arrayEquals ⟨path, component, ⟨op, .array values⟩⟩
  | subDocumentEquals {path component op value} : op ∈ equality →
      Captured .subDocumentEquals ⟨path, component, ⟨op, .subDocument value⟩⟩

theorem identityPath_ne_wildcard : CollectionSchema.identityPath ≠ Path.wildcard := by decide

theorem captured_of_captures {capture : Capture CollectionMarker} (h : capture ∈ captures) {a : Atom}
    (hcovers : capture.Covers a) : Captured capture.marker a := by
  obtain ⟨path, component, op, operand⟩ := a
  obtain ⟨hpath, hop, hkind⟩ := hcovers
  simp only [captures, List.mem_cons, List.not_mem_nil, or_false] at h
  rcases h with rfl | rfl | rfl | rfl | rfl | rfl | rfl | rfl | rfl | rfl | rfl | rfl | rfl <;>
    cases operand <;> cases hkind
  · obtain rfl := hpath.resolve_left identityPath_ne_wildcard
    exact .id hop
  · obtain rfl := hpath.resolve_left identityPath_ne_wildcard
    exact .idIn hop
  · exact .membership hop
  · exact .number hop
  · exact .text hop
  · exact .bool hop
  · exact .null hop
  · exact .date hop
  · obtain rfl := List.mem_singleton.mp hop
    exact .presence
  · simp only [List.mem_cons, List.not_mem_nil, or_false] at hop
    rcases hop with rfl | rfl
    · exact .all
    · exact .notAny
  · obtain rfl := List.mem_singleton.mp hop
    exact .size
  · exact .arrayEquals hop
  · exact .subDocumentEquals hop

/-- The rules for a single identity condition have captures of the last rule, for fewer operators. -/
theorem captured_of_rules {rule : Rule CollectionMarker CollectionFilter} (hrule : rule ∈ rules.rules)
    {capture : Capture CollectionMarker} (h : capture ∈ rule.matcher.captures) {a : Atom}
    (hcovers : capture.Covers a) : Captured capture.marker a := by
  have hid : (⟨.id, CollectionSchema.identityPath, equality, .documentId⟩ : Capture _) ∈ captures := by
    simp [captures]
  have hidIn :
      (⟨.idIn, CollectionSchema.identityPath, CollectionFilter.membership, .array⟩ : Capture _) ∈ captures := by
    simp [captures]
  simp only [rules, RuleTable.rules, List.mem_cons, List.not_mem_nil, or_false] at hrule
  rcases hrule with rfl | rfl | rfl | rfl
  · cases h
  · obtain rfl := List.mem_singleton.mp h
    have heq := List.mem_singleton.mp hcovers.operator
    exact captured_of_captures hid ⟨hcovers.path, by simp [heq, equality], hcovers.kind⟩
  · obtain rfl := List.mem_singleton.mp h
    have hisIn := List.mem_singleton.mp hcovers.operator
    exact captured_of_captures hidIn ⟨hcovers.path, by simp [hisIn, CollectionFilter.membership], hcovers.kind⟩
  · exact captured_of_captures h hcovers

end CollectionFilter

end DocumentFilter
