/-
The invariant of parsed clauses.

Operands are checked on the tree as it was written, so each fact about them
has to survive negation: `Operation.Obeys` is what is left of the operand
rules. That no node of a clause is empty is a fact of the written tree, too
(`Expression.Proper`), which removing NOT keeps in either polarity. Document
ids are decoded in one place, so an operand that holds one (`Literal.HoldsId`)
was written on the identity path.
-/
import DocumentFilter.Proofs.Clause

namespace DocumentFilter

/-! ## Operands after negation -/

/-- The operand rules as far as negation keeps them: the lengths of lists, too, but not the sign of a count. -/
structure Operation.Obeys (limits : Limits) (op : Operation) : Prop extends op.Admissible where
  members : op.operator = .isIn ∨ op.operator = .notIn →
    ∃ values, op.operand = .array values ∧ values.length ≤ limits.maxInValues
  elements : op.operator = .all ∨ op.operator = .notAny → ∃ values, op.operand = .array values ∧ values ≠ []

namespace Operation

variable {limits : Limits} {op : Operation}

theorem obeys_of_check (h : op.check limits = .ok ()) : op.Obeys limits where
  toAdmissible := admissible_of_check h
  members := by
    rintro (hop | hop) <;> simp only [check, hop] at h <;> exact checkMembership_eq_ok.mp h
  elements := by
    rintro (hop | hop) <;> simp only [check, hop] at h <;> exact checkElements_eq_ok.mp h

/-- An operator and its negation come from each other, with the operand left alone unless it is turned around. -/
theorem of_negated_pair {a b : Operator} (hab : a.negated = b) (ha : a ≠ .present ∧ a ≠ .size)
    (hb : b ≠ .present ∧ b ≠ .size) (h : op.negated.operator = a ∨ op.negated.operator = b) :
    (op.operator = a ∨ op.operator = b) ∧ op.negated.operand = op.operand := by
  have hop : op.operator = a ∨ op.operator = b := by
    rw [operator_negated] at h
    rcases h with ha | hb
    · exact .inr (by rw [← hab, ← ha, Operator.negated_negated])
    · exact .inl (by rw [← Operator.negated_negated a, hab, ← hb, Operator.negated_negated])
  exact ⟨hop, operand_negated (by rcases hop with hop | hop <;> rwa [hop])⟩

theorem Obeys.negated (h : op.Obeys limits) : op.negated.Obeys limits where
  toAdmissible := h.toAdmissible.negated
  members := by
    intro hnegated
    obtain ⟨hop, hoperand⟩ := of_negated_pair rfl (by simp) (by simp [Operator.negated]) hnegated
    rw [hoperand]
    exact h.members hop
  elements := by
    intro hnegated
    obtain ⟨hop, hoperand⟩ := of_negated_pair rfl (by simp) (by simp [Operator.negated]) hnegated
    rw [hoperand]
    exact h.elements hop

end Operation

theorem Stems.obeys {schema : Schema} {limits : Limits} {c : Comparison} (h : Stems schema limits c) :
    ∀ op ∈ c.operations, op.Obeys limits := by
  cases h with
  | kept _ hcheck => simpa using Operation.obeys_of_check hcheck
  | negated _ hcheck => simpa using (Operation.obeys_of_check hcheck).negated

/-! ## Nodes that hold something -/

namespace Expression

/-- Every node of the tree holds a child or a comparison. -/
inductive Filled : Expression → Prop
  | node {operator children comparisons} : (children ≠ [] ∨ comparisons ≠ []) → (∀ e ∈ children, Filled e) →
      Filled ⟨operator, children, comparisons⟩

/-- Removing NOT from a tree as it is written empties no node, by either function. -/
theorem Proper.filled {e : Expression} (h : e.Proper) : e.normalized.Filled ∧ e.negated.Filled := by
  induction h with
  | @junction operator children comparisons hop hne _ hsingle ih =>
    have hpos : Filled ⟨operator, children.map normalized, comparisons⟩ :=
      .node (hne.imp_left (by simp)) (List.forall_mem_map.mpr fun e he => (ih e he).1)
    have hneg : Filled (negatedNode operator (children.map negated) (comparisons.flatMap Comparison.negated)) := by
      refine .node (hne.imp (by simp) fun hcs => ?_) (List.forall_mem_map.mpr fun e he => (ih e he).2)
      obtain ⟨c, cs, rfl⟩ := List.exists_cons_of_ne_nil hcs
      obtain ⟨op, hsingle⟩ := hsingle c List.mem_cons_self
      rw [List.flatMap_cons]
      exact List.append_ne_nil_of_left_ne_nil (negated_ne_nil (by simp [hsingle])) _
    cases operator with
    | and | or =>
      rw [normalized, negated, normalizedAll_eq_map, negatedAll_eq_map]
      exact ⟨hpos, hneg⟩
    | not => exact absurd rfl hop
  | negation _ ih => exact ih.symm

end Expression

/-! ## Document ids -/

/-- The literal is a document id, or an array that holds one, at any depth. -/
inductive Literal.HoldsId : Literal → Prop
  | id (id : DocumentId) : HoldsId (.documentId id)
  | member {values : List Literal} {value : Literal} : value ∈ values → HoldsId value → HoldsId (.array values)

namespace Literal

mutual
/-- What is decoded plainly holds no id. -/
theorem not_holdsId_of_ofJson : ∀ {value : Json} {literal : Literal}, ofJson value = .ok literal → ¬literal.HoldsId
  | .null, _, h | .bool _, _, h | .number _, _, h | .string _, _, h => by
    cases h
    rintro ⟨⟩
  | .array items, _, h => by
    obtain ⟨values, hvalues, rfl⟩ := map_eq_ok.mp h
    rintro (_ | ⟨hmem, hid⟩)
    exact not_holdsId_of_ofJsons hvalues _ hmem hid
  | .object entries, _, h => by
    unfold ofJson at h
    split at h
    · obtain ⟨extended, -, rfl⟩ := map_eq_ok.mp h
      cases extended <;> rintro ⟨⟩
    · cases h
      rintro ⟨⟩

theorem not_holdsId_of_ofJsons : ∀ {items : List Json} {values : List Literal}, ofJsons items = .ok values →
    ∀ value ∈ values, ¬value.HoldsId
  | [], _, h => by
    cases h
    exact List.forall_mem_nil _
  | item :: items, _, h => by
    simp only [ofJsons, bind_eq_ok, pure_eq_ok] at h
    obtain ⟨first, hfirst, others, hothers, rfl⟩ := h
    exact List.forall_mem_cons.mpr ⟨not_holdsId_of_ofJson hfirst, not_holdsId_of_ofJsons hothers⟩
end

end Literal

/-- Negation changes no operand that holds an id. -/
theorem Operation.holdsId_of_negated {op : Operation} (h : op.negated.operand.HoldsId) : op.operand.HoldsId := by
  obtain ⟨operator, operand⟩ := op
  cases operator <;> cases operand <;> first | exact h | cases h

namespace Condition

variable {schema : Schema}

theorem identityPath_of_operand {path : String} {op : Operator} {value : Json} {literal : Literal}
    (h : operand schema path op value = .ok literal) (hid : literal.HoldsId) : schema.identityPath? = some path := by
  unfold operand at h
  split at h
  · assumption
  · exact absurd hid (Literal.not_holdsId_of_ofJson h)

/-- A comparison with an id is written on the identity path. -/
theorem Written.identityPath {c : Comparison} (h : Written schema c) :
    ∀ op ∈ c.operations, op.operand.HoldsId → schema.identityPath? = some c.path := by
  cases h with
  | whole _ hoperand =>
    rw [Comparison.single, List.forall_mem_singleton]
    exact identityPath_of_operand hoperand
  | element _ _ _ hoperand =>
    rw [Comparison.single, List.forall_mem_singleton]
    exact fun hid => absurd hid (Literal.not_holdsId_of_ofJson hoperand)

end Condition

theorem Stems.identityPath {schema : Schema} {limits : Limits} {c : Comparison} (h : Stems schema limits c) :
    ∀ op ∈ c.operations, op.operand.HoldsId → schema.identityPath? = some c.path := by
  cases h with
  | kept haccepted _ => exact haccepted.written.identityPath
  | negated haccepted _ =>
    have hwritten := haccepted.written.identityPath
    rw [List.forall_mem_singleton] at hwritten ⊢
    exact fun hid => hwritten (Operation.holdsId_of_negated hid)

theorem Schema.eq_of_identityPath {schema : Schema} {path : String} (h : schema.identityPath? = some path) :
    (∃ collection, schema = .collection collection) ∧ path = CollectionSchema.identityPath := by
  cases schema with
  | collection collection => exact ⟨⟨collection, rfl⟩, (Option.some.inj h).symm⟩
  | table => cases h

/-! ## Validation -/

/-- The clause, validated so many times. -/
def Clause.revalidate (clause : Clause) : Nat → Except FilterError Clause
  | 0 => .ok clause
  | n + 1 => clause.revalidate n >>= Clause.validate

theorem Clause.revalidate_of_validated {clause : Clause} (h : clause.validated = true) (n : Nat) :
    clause.revalidate n = .ok clause := by
  induction n with
  | zero => rfl
  | succ n ih =>
    rw [revalidate, ih]
    exact if_pos h

/-! ## The invariant -/

/-- What holds of every parsed clause. -/
structure Clause.Invariant (schema : Schema) (limits : Limits) (clause : Clause) : Prop where
  root : clause.expression.operator = .and
  normalized : clause.expression.isNormalized = true
  filled : ∀ e ∈ clause.expression.children, e.Filled
  single : ∀ c ∈ clause.expression.childrenFirst, ∃ op, c.operations = [op]
  operands : ∀ c ∈ clause.expression.childrenFirst, ∀ op ∈ c.operations, op.Obeys limits
  ids : ∀ c ∈ clause.expression.childrenFirst, ∀ op ∈ c.operations, op.operand.HoldsId →
    (∃ collection, schema = .collection collection) ∧ c.path = CollectionSchema.identityPath
  validated : clause.validated = true
  stable : ∀ n, clause.revalidate n = .ok clause

section Parse

variable {schema : Schema} {limits : Limits} {filter : Option Json} {clause : Clause}

theorem filled_of_parse (h : Clause.parse schema limits filter = .ok clause) :
    ∀ e ∈ clause.expression.children, e.Filled := by
  rcases parse_cases h with ⟨-, rfl⟩ | ⟨entries, contents, -, hparsed⟩
  · exact List.forall_mem_nil _
  · have hproper := (Contents.keptByReading_proper.ofEntries entries hparsed.read).1
    rw [hparsed.clause, Contents.conjunction, Expression.normalized, Expression.normalizedAll_eq_map]
    exact List.forall_mem_map.mpr fun e he => (hproper.children e he).filled.1

theorem validated_of_parse (h : Clause.parse schema limits filter = .ok clause) : clause.validated = true := by
  rcases parse_cases h with ⟨-, rfl⟩ | ⟨entries, contents, -, hparsed⟩
  · rfl
  · rw [hparsed.clause]

/-- **Every parsed clause has the invariant.** -/
theorem parse_invariant (h : Clause.parse schema limits filter = .ok clause) : clause.Invariant schema limits where
  root := (parse_shape h).1
  normalized := (parse_shape h).2
  filled := filled_of_parse h
  single := fun c hc => (stems_of_parse h c hc).single
  operands := fun c hc => (stems_of_parse h c hc).obeys
  ids := fun c hc op hop hid => Schema.eq_of_identityPath ((stems_of_parse h c hc).identityPath op hop hid)
  validated := validated_of_parse h
  stable := Clause.revalidate_of_validated (validated_of_parse h)

end Parse

/-- A negated choice of identities to be left out and of tests on a list, its count and its presence. -/
def neitherTagged : Json :=
  .object [("$not", .object [("$or", .array [
    .object [("_id", .object [("$nin", .array [.string "a", .number (.int 3)])])],
    .object [("tags", .object [("$size", .number (.int 2)), ("$all", .array [.string "x"])])],
    .object [("seen", .object [("$exists", .bool false)])]])])]

theorem parse_invariant_neitherTagged :
    let schema : Schema := .collection { name := "users" }
    let limits : Limits := { maxInValues := 2 }
    let tags : Expression := ⟨.or, [], [.single "tags" .size (.number (.int (-2))),
      .single "tags" .notAny (.array [.string "x"])]⟩
    let clause : Clause :=
      ⟨⟨.and, [⟨.and, [⟨.and, [tags], [
        .single "_id" .isIn (.array [.documentId (.string "a"), .documentId (.number (.int 3))]),
        .single "seen" .present (.boolean true)]⟩], []⟩], []⟩, some "_id", [], true⟩
    Clause.parse schema limits (some neitherTagged) = .ok clause ∧ clause.Invariant schema limits :=
  have hparse : _ = Except.ok _ := by decide +kernel
  ⟨hparse, parse_invariant hparse⟩

end DocumentFilter
