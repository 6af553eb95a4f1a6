/-
The comparisons of parsed clauses, and what holds of every one of them.

Removing NOT keeps a comparison or takes it apart into its negations, so a
comparison of a clause is one operation that a condition wrote and that was
checked, or the negation of one (`Stems`). Later stages may rely on what
conditions write, operands are checked for and negation keeps; `Admissible`
is that part of the operand rules.
-/
import DocumentFilter.Proofs.Count
import DocumentFilter.Proofs.Operand
import DocumentFilter.Proofs.Polarity
import DocumentFilter.Proofs.Reading

namespace DocumentFilter

namespace Expression

/-! ## Removing NOT -/

/-- The comparison is one of the tree's, or one of the negations of one. -/
def Origin (e : Expression) (c : Comparison) : Prop := ∃ d ∈ e.childrenFirst, c = d ∨ c ∈ d.negated

variable {operator : Connective} {children : List Expression} {comparisons : List Comparison} {c : Comparison}

theorem Origin.child {e : Expression} (he : e ∈ children) (h : e.Origin c) :
    Origin ⟨operator, children, comparisons⟩ c := by
  obtain ⟨d, hd, hc⟩ := h
  exact ⟨d, mem_childrenFirst.mpr (.inl ⟨e, he, hd⟩), hc⟩

theorem origin_kept (h : c ∈ comparisons) : Origin ⟨operator, children, comparisons⟩ c :=
  ⟨c, mem_childrenFirst.mpr (.inr h), .inl rfl⟩

theorem origin_negated (h : c ∈ comparisons.flatMap Comparison.negated) :
    Origin ⟨operator, children, comparisons⟩ c := by
  obtain ⟨d, hd, hc⟩ := List.mem_flatMap.mp h
  exact ⟨d, mem_childrenFirst.mpr (.inr hd), .inr hc⟩

/-- No comparison comes out of nothing, for both functions at once. -/
theorem origin_normalized_negated (e : Expression) :
    (∀ c ∈ e.normalized.childrenFirst, e.Origin c) ∧ ∀ c ∈ e.negated.childrenFirst, e.Origin c := by
  induction e with | node operator children comparisons ih
  have hpos : ∀ c, (∃ e ∈ children.map normalized, c ∈ e.childrenFirst) ∨ c ∈ comparisons →
      Origin ⟨operator, children, comparisons⟩ c := by
    rintro c (⟨_, hmem, hc⟩ | hc)
    · obtain ⟨e, he, rfl⟩ := List.mem_map.mp hmem
      exact ((ih e he).1 c hc).child he
    · exact origin_kept hc
  have hneg : ∀ c, (∃ e ∈ children.map negated, c ∈ e.childrenFirst) ∨
      c ∈ comparisons.flatMap Comparison.negated → Origin ⟨operator, children, comparisons⟩ c := by
    rintro c (⟨_, hmem, hc⟩ | hc)
    · obtain ⟨e, he, rfl⟩ := List.mem_map.mp hmem
      exact ((ih e he).2 c hc).child he
    · exact origin_negated hc
  cases operator with
  | and | or =>
    simp only [normalized, negated, negatedNode, normalizedAll_eq_map, negatedAll_eq_map, mem_childrenFirst]
    exact ⟨hpos, hneg⟩
  | not =>
    cases children with
    | nil => simp [normalized, negated, empty, mem_childrenFirst]
    | cons inner rest =>
      have hinner : inner ∈ inner :: rest := List.mem_cons_self
      exact ⟨fun c hc => ((ih inner hinner).2 c hc).child hinner,
        fun c hc => ((ih inner hinner).1 c hc).child hinner⟩

theorem areNormalized_iff {es : List Expression} : areNormalized es = true ↔ ∀ e ∈ es, e.isNormalized = true := by
  induction es with
  | nil => simp [areNormalized]
  | cons e es ih => rw [areNormalized, Bool.and_eq_true, List.forall_mem_cons, ih]

/-- No NOT is left, by either function. -/
theorem isNormalized_normalized_negated (e : Expression) :
    e.normalized.isNormalized = true ∧ e.negated.isNormalized = true := by
  induction e with | node operator children comparisons ih
  have hpos : areNormalized (children.map normalized) = true := by
    rw [areNormalized_iff, List.forall_mem_map]
    exact fun e he => (ih e he).1
  have hneg : areNormalized (children.map negated) = true := by
    rw [areNormalized_iff, List.forall_mem_map]
    exact fun e he => (ih e he).2
  cases operator with
  | and | or =>
    simp only [normalized, negated, negatedNode, normalizedAll_eq_map, negatedAll_eq_map, isNormalized, hpos,
      hneg, Connective.dual]
    refine ⟨rfl, ?_⟩
    split <;> rfl
  | not =>
    cases children with
    | nil => exact ⟨rfl, rfl⟩
    | cons inner _ => exact ⟨(ih inner List.mem_cons_self).2, (ih inner List.mem_cons_self).1⟩

end Expression

/-! ## Comparisons of a clause -/

/-- A comparison as a clause has it: a single operation, accepted and checked as it was written, then
perhaps negated. -/
inductive Stems (schema : Schema) (limits : Limits) : Comparison → Prop
  | kept {path op component} : Contents.Accepted schema ⟨path, [op], component⟩ → op.check limits = .ok () →
      Stems schema limits ⟨path, [op], component⟩
  | negated {path op component} : Contents.Accepted schema ⟨path, [op], component⟩ → op.check limits = .ok () →
      Stems schema limits ⟨path, [op.negated], component⟩

section Parse

variable {schema : Schema} {limits : Limits} {filter : Option Json} {clause : Clause}

theorem stems_of_parse (h : Clause.parse schema limits filter = .ok clause) :
    ∀ c ∈ clause.expression.childrenFirst, Stems schema limits c := by
  rcases parse_cases h with ⟨-, rfl⟩ | ⟨entries, contents, -, hparsed⟩
  · rintro c ⟨⟩
  · rw [hparsed.clause]
    intro c hc
    obtain ⟨d, hd, horigin⟩ := (Expression.origin_normalized_negated _).1 c hc
    have haccepted := Contents.keptByReading_allAccepted.ofEntries entries hparsed.read d hd
    have hchecked := forM_eq_ok.mp (forM_eq_ok.mp hparsed.operands d hd)
    obtain ⟨op, hop⟩ := haccepted.written.single
    obtain ⟨path, _, component⟩ := d
    cases hop
    rcases horigin with rfl | hneg
    · exact .kept haccepted (hchecked op List.mem_cons_self)
    · rw [Comparison.negated, List.map_cons, List.map_nil, List.mem_singleton] at hneg
      rw [hneg]
      exact .negated haccepted (hchecked op List.mem_cons_self)

/-- A clause is an AND without NOT below. -/
theorem parse_shape (h : Clause.parse schema limits filter = .ok clause) :
    clause.expression.operator = .and ∧ clause.expression.isNormalized = true := by
  rcases parse_cases h with ⟨-, rfl⟩ | ⟨entries, contents, -, hparsed⟩
  · exact ⟨rfl, rfl⟩
  · rw [hparsed.clause]
    exact ⟨rfl, (Expression.isNormalized_normalized_negated _).1⟩

/-- A clause asks what was read, negated where it stood below an odd number of NOTs. -/
theorem Parsed.atoms {entries : List (String × Json)} {contents : Contents}
    (h : Parsed schema limits entries clause contents) :
    clause.expression.atoms = contents.conjunction.signedAtoms false := by
  have hproper := (Contents.keptByReading_proper.ofEntries entries h.read).1
  have hsingle : contents.conjunction.SingleNot :=
    .junction (by simp) fun e he => (hproper.children e he).singleNot
  rw [h.clause]
  exact Expression.atoms_normalized hsingle

theorem Stems.single {c : Comparison} (h : Stems schema limits c) : ∃ op, c.operations = [op] := by
  cases h <;> exact ⟨_, rfl⟩

theorem operations_ne_nil_of_parse (h : Clause.parse schema limits filter = .ok clause) :
    ∀ c ∈ clause.expression.childrenFirst, c.operations ≠ [] := by
  intro c hc
  obtain ⟨op, hop⟩ := (stems_of_parse h c hc).single
  simp [hop]

end Parse

/-! ## Operands -/

namespace Operation

@[simp]
theorem operator_negated (op : Operation) : op.negated.operator = op.operator.negated := rfl

/-- Negation changes a boolean into a boolean and a count into a count. -/
@[simp]
theorem kind_negated (op : Operation) : op.negated.operand.kind = op.operand.kind := by
  obtain ⟨operator, operand⟩ := op
  cases operator <;> cases operand <;> rfl

theorem operand_negated {op : Operation} (h : op.operator ≠ .present ∧ op.operator ≠ .size) :
    op.negated.operand = op.operand := by
  obtain ⟨operator, operand⟩ := op
  cases operator <;> simp [negated] at h ⊢

/-- The part of the operand rules that negation keeps; the count of a size may have either sign. -/
structure Admissible (op : Operation) : Prop where
  list : op.operator.isContainerTest = true → ∃ values, op.operand = .array values
  presence : op.operator = .present → ∃ b, op.operand = .boolean b
  count : op.operator = .size → ∃ n x, op.operand = .number n ∧ n.toBinary64? = some x ∧
    x.isIntegral = true ∧ x.fitsInt64 = true

theorem admissible_of_check {limits : Limits} {op : Operation} (h : op.check limits = .ok ()) :
    op.Admissible := by
  obtain ⟨operator, operand⟩ := op
  refine ⟨fun hop => ?_, fun hop => ?_, fun hop => ?_⟩
  · cases operand with
    | array values => exact ⟨values, rfl⟩
    | _ => cases operator <;> cases hop <;> cases h
  · cases hop
    cases operand with
    | boolean b => exact ⟨b, rfl⟩
    | _ => cases h
  · cases hop
    obtain ⟨n, x, hn, hx, -, hfits, hintegral⟩ := checkSize_eq_ok.mp h
    exact ⟨n, x, hn, hx, hintegral, hfits⟩

theorem Admissible.negated {op : Operation} (h : op.Admissible) : op.negated.Admissible := by
  obtain ⟨operator, operand⟩ := op
  refine ⟨fun hop => ?_, fun hop => ?_, fun hop => ?_⟩
  · cases operator <;> first | exact h.list rfl | cases hop
  · cases operator <;> cases hop
    obtain ⟨b, rfl⟩ := h.presence rfl
    exact ⟨!b, rfl⟩
  · cases operator <;> cases hop
    obtain ⟨n, x, rfl, hx, hintegral, hfits⟩ := h.count rfl
    exact ⟨n.negated, x.neg, rfl, Number.toBinary64?_negated hx, hintegral, hfits⟩

end Operation

theorem Stems.admissible {schema : Schema} {limits : Limits} {c : Comparison} (h : Stems schema limits c) :
    ∀ op ∈ c.operations, op.Admissible := by
  cases h with
  | kept _ hcheck => simpa using Operation.admissible_of_check hcheck
  | negated _ hcheck => simpa using (Operation.admissible_of_check hcheck).negated

end DocumentFilter
