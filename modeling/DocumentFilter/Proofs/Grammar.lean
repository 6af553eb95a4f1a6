/-
The grammar of filter documents.

`Document.Entry` says which entries an object may have, given what may stand
behind a field. A filter parses exactly if its document has such entries,
every field with a condition that can be read, is accepted by the target and
has valid operands, and its tree without NOT obeys the rule on the identity
(`parse_ok_iff`). What a field may be is worked out for collections and for
tables on their own.
-/
import DocumentFilter.Proofs.DocumentTree
import DocumentFilter.Proofs.Identity
import DocumentFilter.Proofs.Operand
import DocumentFilter.Proofs.Path

namespace DocumentFilter

/-- An entry of a document: a junction of objects, the negation of an object, or a field; no object within is empty. -/
inductive Document.Entry (Field : String → Json → Prop) : String → Json → Prop
  | junction {j : Junction} {elements : List (List (String × Json))} : elements ≠ [] →
      (∀ entries ∈ elements, entries ≠ []) →
      (∀ entries ∈ elements, ∀ entry ∈ entries, Document.Entry Field entry.1 entry.2) →
      Document.Entry Field j.key (.array (elements.map .object))
  | negation {entries : List (String × Json)} : entries ≠ [] →
      (∀ entry ∈ entries, Document.Entry Field entry.1 entry.2) → Document.Entry Field "$not" (.object entries)
  | field {key : String} {value : Json} : Field key value → Document.Entry Field key value

/-- All operands of the tree obey the rules of their operators. -/
def Expression.Checked (limits : Limits) (e : Expression) : Prop :=
  ∀ c ∈ e.childrenFirst, ∀ op ∈ c.operations, op.check limits = .ok ()

theorem Expression.checkOperands_eq_ok {limits : Limits} {e : Expression} :
    e.checkOperands limits = .ok () ↔ e.Checked limits :=
  forM_eq_ok.trans (forall₂_congr fun _ _ => forM_eq_ok)

namespace Contents

open Document

variable {schema : Schema} {limits : Limits}

theorem checked_append {a b : Contents} :
    (a ++ b).conjunction.Checked limits ↔ a.conjunction.Checked limits ∧ b.conjunction.Checked limits := by
  simp only [Expression.Checked, mem_conjunction_append, or_imp, forall_and]

theorem checked_element {c : Contents} : c.element.conjunction.Checked limits ↔ c.conjunction.Checked limits := by
  simp only [Expression.Checked, mem_conjunction_element]

theorem checked_junction {j : Junction} {c : Contents} {warnings : List Warning} :
    (ofNode (c.node j) warnings).conjunction.Checked limits ↔ c.conjunction.Checked limits := by
  simp only [Expression.Checked, mem_conjunction_ofNode, mem_childrenFirst_node]

theorem checked_negation {c : Contents} {warnings : List Warning} :
    (ofNode ⟨.not, [c.conjunction], []⟩ warnings).conjunction.Checked limits ↔ c.conjunction.Checked limits := by
  simp [Expression.Checked, mem_conjunction_ofNode, Expression.childrenFirst, Expression.childrenFirstAll]

theorem checked_empty : Contents.conjunction {} |>.Checked limits := by
  simp [Expression.Checked, mem_conjunction]

/-- The key is that of a field and its condition is read, with valid operands. -/
def ReadsField (schema : Schema) (limits : Limits) (key : String) (value : Json) : Prop :=
  EntryKind.ofKey schema key = .field ∧ ∃ c, ofField schema key value = .ok c ∧ c.conjunction.Checked limits

/-! ## Reading and the grammar -/

/-- Elements as the grammar has them. -/
def ReadsElements (schema : Schema) (limits : Limits) (items : List Json) : Prop :=
  ∃ elements : List (List (String × Json)), items = elements.map .object ∧ (∀ entries ∈ elements, entries ≠ []) ∧
    ∀ entries ∈ elements, ∀ entry ∈ entries, Entry (ReadsField schema limits) entry.1 entry.2

theorem readsElements_cons_object {entries : List (String × Json)} {items : List Json} :
    ReadsElements schema limits (.object entries :: items) ↔ entries ≠ [] ∧
      (∀ entry ∈ entries, Entry (ReadsField schema limits) entry.1 entry.2) ∧ ReadsElements schema limits items := by
  constructor
  · rintro ⟨elements, hitems, hne, hentries⟩
    cases elements with
    | nil => cases hitems
    | cons first others =>
      cases hitems
      rw [List.forall_mem_cons] at hne hentries
      exact ⟨hne.1, hentries.1, others, rfl, hne.2, hentries.2⟩
  · rintro ⟨hne, hentries, others, rfl, hothers, hrest⟩
    exact ⟨entries :: others, rfl, List.forall_mem_cons.mpr ⟨hne, hothers⟩, List.forall_mem_cons.mpr ⟨hentries, hrest⟩⟩

theorem not_readsElements_cons {item : Json} {items : List Json} (h : ∀ entries, item ≠ .object entries) :
    ¬ ReadsElements schema limits (item :: items) := by
  rintro ⟨elements, hitems, -⟩
  cases elements with
  | nil => cases hitems
  | cons first others => exact h first (List.cons.inj hitems).1

/-- An entry is read if it is one of the grammar, given that the same holds of what stands in it. -/
theorem reads_entry_iff_of {key : String} {value : Json}
    (harray : ∀ items, value = .array items → ∀ j,
      (∃ c, ofElements schema j items = .ok c ∧ c.conjunction.Checked limits) ↔ ReadsElements schema limits items)
    (hobject : ∀ entries, value = .object entries →
      ((∃ c, ofEntries schema entries = .ok c ∧ c.conjunction.Checked limits) ↔
        ∀ entry ∈ entries, Entry (ReadsField schema limits) entry.1 entry.2)) :
    (∃ c, ofEntry schema key value = .ok c ∧ c.conjunction.Checked limits) ↔
      Entry (ReadsField schema limits) key value := by
  simp only [ofEntry_eq_ok]
  constructor
  · rintro ⟨c, ⟨j, items, d, rfl, rfl, hne, hd, rfl⟩ | ⟨entries, d, rfl, rfl, hne, hd, rfl⟩ | ⟨hkey, hc⟩, hchecked⟩
    · obtain ⟨elements, rfl, hnonempty, hentries⟩ := (harray items rfl j).mp ⟨d, hd, checked_junction.mp hchecked⟩
      exact .junction (by simpa using hne) hnonempty hentries
    · exact .negation hne ((hobject entries rfl).mp ⟨d, hd, checked_negation.mp hchecked⟩)
    · exact .field ⟨hkey, c, hc, hchecked⟩
  · intro h
    cases h with
    | @junction j elements hne hnonempty hentries =>
      obtain ⟨d, hd, hchecked⟩ := (harray _ rfl j).mpr ⟨elements, rfl, hnonempty, hentries⟩
      exact ⟨_, .inl ⟨j, _, d, rfl, rfl, by simpa using hne, hd, rfl⟩, checked_junction.mpr hchecked⟩
    | negation hne hentries =>
      obtain ⟨d, hd, hchecked⟩ := (hobject _ rfl).mpr hentries
      exact ⟨_, .inr (.inl ⟨_, d, rfl, rfl, hne, hd, rfl⟩), checked_negation.mpr hchecked⟩
    | field h =>
      obtain ⟨hkey, c, hc, hchecked⟩ := h
      exact ⟨c, .inr (.inr ⟨hkey, hc⟩), hchecked⟩

mutual
theorem reads_entry_iff : ∀ (key : String) (value : Json),
    (∃ c, ofEntry schema key value = .ok c ∧ c.conjunction.Checked limits) ↔
      Entry (ReadsField schema limits) key value
  | _, .array items => reads_entry_iff_of (fun _ heq j => Json.array.inj heq ▸ reads_elements_iff j items)
      (fun _ heq => by cases heq)
  | _, .object entries => reads_entry_iff_of (fun _ heq => by cases heq)
      (fun _ heq => Json.object.inj heq ▸ reads_entries_iff entries)
  | _, .null | _, .bool _ | _, .number _ | _, .string _ =>
    reads_entry_iff_of (fun _ heq => by cases heq) (fun _ heq => by cases heq)

theorem reads_entries_iff : ∀ entries : List (String × Json),
    (∃ c, ofEntries schema entries = .ok c ∧ c.conjunction.Checked limits) ↔
      ∀ entry ∈ entries, Entry (ReadsField schema limits) entry.1 entry.2
  | [] => by
    simp [Contents.ofEntries, checked_empty]
  | (key, value) :: rest => by
    rw [List.forall_mem_cons, ← reads_entry_iff key value, ← reads_entries_iff rest]
    simp only [Contents.ofEntries, bind_eq_ok, pure_eq_ok]
    constructor
    · rintro ⟨_, ⟨first, hfirst, others, hothers, rfl⟩, hchecked⟩
      rw [checked_append] at hchecked
      exact ⟨⟨first, hfirst, hchecked.1⟩, others, hothers, hchecked.2⟩
    · rintro ⟨⟨first, hfirst, hchecked⟩, others, hothers, hchecked'⟩
      exact ⟨_, ⟨first, hfirst, others, hothers, rfl⟩, checked_append.mpr ⟨hchecked, hchecked'⟩⟩

theorem reads_elements_iff (j : Junction) : ∀ items : List Json,
    (∃ c, ofElements schema j items = .ok c ∧ c.conjunction.Checked limits) ↔ ReadsElements schema limits items
  | [] => iff_of_true ⟨{}, rfl, checked_empty⟩ ⟨[], rfl, by simp, by simp⟩
  | .object entries :: items => by
    rw [readsElements_cons_object, ← reads_entries_iff entries, ← reads_elements_iff j items]
    simp only [ofElements_cons_object]
    constructor
    · rintro ⟨_, ⟨hne, first, others, hfirst, hothers, rfl⟩, hchecked⟩
      rw [checked_append, checked_element] at hchecked
      exact ⟨hne, ⟨first, hfirst, hchecked.1⟩, others, hothers, hchecked.2⟩
    · rintro ⟨hne, ⟨first, hfirst, hchecked⟩, others, hothers, hchecked'⟩
      exact ⟨_, ⟨hne, first, others, hfirst, hothers, rfl⟩,
        checked_append.mpr ⟨checked_element.mpr hchecked, hchecked'⟩⟩
  | .null :: _ | .bool _ :: _ | .number _ :: _ | .string _ :: _ | .array _ :: _ => by
    refine iff_of_false ?_ (not_readsElements_cons fun _ h => by cases h)
    rintro ⟨c, hc, -⟩
    cases hc
end

end Contents

/-! ## Fields -/

theorem EntryKind.ofKey_eq_field {schema : Schema} {key : String} :
    ofKey schema key = .field ↔ isDollarKey key = false ∨ schema.isReserved key = true := by
  have hconnective : ∀ k ∈ ["$and", "$or", "$not"], isDollarKey k = true ∧ schema.isReserved k = false := by
    cases schema <;> simp [Schema.isReserved, ReservedField.ofKey?] <;> decide
  unfold ofKey
  split
  · simp [hconnective]
  · simp [hconnective]
  · simp [hconnective]
  · cases isDollarKey key <;> cases schema.isReserved key <;> simp

namespace Condition

variable {schema : Schema} {limits : Limits} {path key : String} {value : Json} {entries : List (String × Json)}

/-- A field that is not reserved stands behind a well-formed path that is no dollar key. -/
theorem isField_iff_of_unreserved (h : schema.isReserved path = false) :
    EntryKind.ofKey schema path = .field ∧ checkPath schema path value = .ok () ↔
      isDollarKey path = false ∧ Path.IsWellFormed path := by
  rw [EntryKind.ofKey_eq_field, Path.isWellFormed_iff]
  simp only [checkPath, h, Bool.false_eq_true, or_false, if_false]
  refine and_congr_right fun _ => ?_
  cases Path.segments? path <;> simp

/-- The comparison is accepted by the target and its operands are valid. -/
structure Admits (schema : Schema) (limits : Limits) (c : Comparison) : Prop where
  checked : ∃ warning, schema.check c = .ok warning
  operands : ∀ op ∈ c.operations, op.check limits = .ok ()

theorem admits_single {op : Operator} {literal : Literal} {component : Option Component}
    (h : operand schema path op value = .ok literal) :
    Admits schema limits (.single path op literal component) ↔
      (∃ warning, schema.check (.single path op literal component) = .ok warning) ∧ op.Takes limits value := by
  rw [← check_iff_takes h]
  exact ⟨fun hadmits => ⟨hadmits.checked, hadmits.operands _ List.mem_cons_self⟩,
    fun ⟨hchecked, hcheck⟩ => ⟨hchecked, fun _ hop => List.mem_singleton.mp hop ▸ hcheck⟩⟩

/-- The value is no list of operators. -/
def IsPlain (value : Json) : Prop := ∀ entries, value = .object entries → isOperatorObject entries = false

theorem comparisons_of_isPlain (h : IsPlain value) : comparisons schema path value = equality schema path value := by
  cases value with
  | object entries => simp [comparisons, h entries rfl]
  | _ => rfl

theorem comparisons_of_operators (h : isOperatorObject entries = true) :
    comparisons schema path (.object entries) = operatorObject schema path entries := by
  simp [comparisons, h]

theorem isPlain_or_operators (value : Json) :
    IsPlain value ∨ ∃ entries, value = .object entries ∧ isOperatorObject entries = true := by
  cases value with
  | object entries =>
    cases hoperators : isOperatorObject entries with
    | false => exact .inl fun _ heq => Json.object.inj heq ▸ hoperators
    | true => exact .inr ⟨entries, rfl, hoperators⟩
  | _ => exact .inl fun _ heq => by cases heq

/-- An operator is read and admitted if its operand is. -/
theorem exists_comparison_iff :
    (∃ c, comparison schema path key value = .ok c ∧ Admits schema limits c) ↔
      ∃ op : Operator, key = op.key ∧
        ∃ literal, operand schema path op value = .ok literal ∧ Admits schema limits (.single path op literal) := by
  simp only [comparison_eq_ok]
  constructor
  · rintro ⟨_, ⟨op, literal, hkey, hl, rfl⟩, hadmits⟩
    exact ⟨op, hkey, literal, hl, hadmits⟩
  · rintro ⟨op, hkey, literal, hl, hadmits⟩
    exact ⟨_, ⟨op, literal, hkey, hl, rfl⟩, hadmits⟩

/-- A plain value is read and admitted if equality with it is. -/
theorem exists_equality_iff :
    (∃ cs, equality schema path value = .ok cs ∧ ∀ c ∈ cs, Admits schema limits c) ↔
      ∃ literal, operand schema path .eq value = .ok literal ∧ Admits schema limits (.single path .eq literal) := by
  simp only [equality_eq_ok]
  constructor
  · rintro ⟨_, ⟨literal, hl, rfl⟩, hadmits⟩
    exact ⟨literal, hl, hadmits _ List.mem_cons_self⟩
  · rintro ⟨literal, hl, hadmits⟩
    exact ⟨_, ⟨literal, hl, rfl⟩, by simpa using hadmits⟩

/-- A field is read if its path may stand there and its comparisons are admitted. -/
theorem readsField_iff : Contents.ReadsField schema limits path value ↔ EntryKind.ofKey schema path = .field ∧
    checkPath schema path value = .ok () ∧
      ∃ cs, comparisons schema path value = .ok cs ∧ ∀ c ∈ cs, Admits schema limits c := by
  refine and_congr_right fun _ => ?_
  simp only [Contents.ofField_eq_ok]
  have hcontents (cs : List Comparison) (warnings : List Warning) :
      (Contents.conjunction { comparisons := cs, warnings }).Checked limits ↔
        ∀ c ∈ cs, ∀ op ∈ c.operations, op.check limits = .ok () := by
    simp [Expression.Checked, Contents.mem_conjunction]
  constructor
  · rintro ⟨_, ⟨cs, warnings, hpath, hcs, hw, rfl⟩, hchecked⟩
    refine ⟨hpath, cs, hcs, fun c hc => ⟨?_, (hcontents _ _).mp hchecked c hc⟩⟩
    obtain ⟨warning, -, hcheck⟩ := exists_right_of_forall₂ (mapM_eq_ok.mp hw) c hc
    exact ⟨warning, hcheck⟩
  · rintro ⟨hpath, cs, hcs, hadmits⟩
    obtain ⟨warnings, hw⟩ := exists_mapM_eq_ok fun c hc => (hadmits c hc).checked
    exact ⟨_, ⟨cs, warnings, hpath, hcs, hw, rfl⟩, (hcontents _ _).mpr fun c hc => (hadmits c hc).operands⟩

end Condition

/-! ## Parsing -/

theorem validate_ofExpression_iff {e : Expression} {identityPath : Option String} {warnings : List Warning} :
    (∃ clause, (Clause.ofExpression e identityPath warnings).validate = .ok clause) ↔
      ∀ path, identityPath = some path → e.normalized.IdentityRule path := by
  constructor
  · rintro ⟨clause, h⟩ path hpath
    exact Expression.checkIdentity_eq_ok.mp ((validate_ofExpression h).1 path hpath)
  · intro h
    cases identityPath with
    | none => exact ⟨_, rfl⟩
    | some path => exact ⟨_, map_eq_ok.mpr ⟨(), Expression.checkIdentity_eq_ok.mpr (h path rfl), rfl⟩⟩

/-- **What is parsed is what the grammar allows**, for any grammar of fields that says when a field is read. -/
theorem parse_ok_iff {schema : Schema} {limits : Limits} {filter : Option Json} {Field : String → Json → Prop}
    (hfield : ∀ key value, Contents.ReadsField schema limits key value ↔ Field key value) :
    (∃ clause, Clause.parse schema limits filter = .ok clause) ↔ filter = none ∨ filter = some .null ∨
      ∃ entries, filter = some (.object entries) ∧ (∀ entry ∈ entries, Document.Entry Field entry.1 entry.2) ∧
        ∀ path, schema.identityPath? = some path → (Document.tree schema entries).normalized.IdentityRule path := by
  obtain rfl : Contents.ReadsField schema limits = Field := funext₂ fun key value => propext (hfield key value)
  constructor
  · rintro ⟨clause, h⟩
    rcases parse_cases h with ⟨hnone | hnull, -⟩ | ⟨entries, contents, rfl, hparsed⟩
    · exact .inl hnone
    · exact .inr (.inl hnull)
    · refine .inr (.inr ⟨entries, rfl, ?_, fun path hpath => ?_⟩)
      · exact (Contents.reads_entries_iff entries).mp
          ⟨contents, hparsed.read, Expression.checkOperands_eq_ok.mp hparsed.operands⟩
      · rw [← Contents.conjunction_of_ofEntries hparsed.read]
        exact Expression.checkIdentity_eq_ok.mp (hparsed.identity path hpath)
  · rintro (rfl | rfl | ⟨entries, rfl, hentries, hidentity⟩)
    · exact ⟨_, rfl⟩
    · exact ⟨_, rfl⟩
    · obtain ⟨contents, hread, hchecked⟩ := (Contents.reads_entries_iff entries).mpr hentries
      rw [← Contents.conjunction_of_ofEntries hread] at hidentity
      obtain ⟨clause, hvalid⟩ := validate_ofExpression_iff.mpr hidentity
      exact ⟨clause, bind_eq_ok.mpr ⟨contents, hread,
        bind_eq_ok.mpr ⟨(), Expression.checkOperands_eq_ok.mpr hchecked, hvalid⟩⟩⟩

end DocumentFilter
