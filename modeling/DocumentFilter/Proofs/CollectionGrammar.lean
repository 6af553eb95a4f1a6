/-
What filters over a collection may be.

A field is either a reserved one that is switched on and asked for presence,
or an indexed path with a value or a list of operators; operands decode, on the
identity as ids, and obey the rules of their operators (`Field`). A filter is
parsed if and only if its document has such fields in junctions and negations,
and its tree without NOT obeys the rule on the identity (`parse_collection_iff`).
-/
import DocumentFilter.Proofs.Grammar

namespace DocumentFilter

/-- The value decodes as a document id. -/
def Json.IsId (value : Json) : Prop := ∃ id, DocumentId.ofJson value = .ok id

namespace CollectionSchema

/-- The operand decodes: where the identity is compared or listed as ids, else as a literal. -/
def Decodes (path : String) (op : Operator) (value : Json) : Prop :=
  if path = identityPath then
    match op with
    | .eq | .ne => value.IsId
    | .isIn | .notIn => ∃ items, value = .array items ∧ ∀ item ∈ items, item.IsId
    | _ => value.IsLiteral
  else value.IsLiteral

/-- The path is one that conditions may be put on: no dollar key, well-formed and indexed. -/
structure HasPath (schema : CollectionSchema) (path : String) : Prop where
  plain : isDollarKey path = false
  wellFormed : Path.IsWellFormed path
  indexed : schema.indexing.isIndexed path = true

/-- What may stand behind a field of a collection. -/
inductive Field (schema : CollectionSchema) (limits : Limits) : String → Json → Prop
  | reserved {key field entries} : ReservedField.ofKey? key = some field → schema.isEnabled field = true →
      entries ≠ [] → (∀ entry ∈ entries, ∃ b, entry = ("$exists", .bool b)) → Field schema limits key (.object entries)
  | value {path value} : schema.HasPath path → Condition.IsPlain value → Decodes path .eq value →
      Field schema limits path value
  | operators {path entries} : schema.HasPath path → Condition.isOperatorObject entries = true →
      (∀ entry ∈ entries, ∃ op : Operator, entry.1 = op.key ∧ Decodes path op entry.2 ∧ op.Takes limits entry.2) →
      Field schema limits path (.object entries)

variable {schema : CollectionSchema} {limits : Limits} {path : String} {value : Json}

/-! ## Operands -/

theorem isId_iff : value.IsId ↔ ∃ literal, Condition.idOperand value = .ok literal := by
  simp only [Json.IsId, Condition.idOperand, map_eq_ok]
  constructor
  · rintro ⟨id, hid⟩
    exact ⟨_, id, hid, rfl⟩
  · rintro ⟨_, id, hid, -⟩
    exact ⟨id, hid⟩

theorem exists_idOperands_iff {items : List Json} :
    (∃ literal, (items.mapM Condition.idOperand).map Literal.array = .ok literal) ↔ ∀ item ∈ items, item.IsId := by
  simp only [isId_iff, map_eq_ok]
  constructor
  · rintro ⟨_, ids, hids, rfl⟩ item hitem
    obtain ⟨id, -, hid⟩ := exists_right_of_forall₂ (mapM_eq_ok.mp hids) item hitem
    exact ⟨id, hid⟩
  · intro h
    obtain ⟨ids, hids⟩ := exists_mapM_eq_ok h
    exact ⟨_, ids, hids, rfl⟩

/-- A valid operand is decoded as the schema says. -/
theorem exists_operand_iff {op : Operator} (htakes : op.Takes limits value) :
    (∃ literal, Condition.operand (.collection schema) path op value = .ok literal) ↔ Decodes path op value := by
  unfold Condition.operand Decodes
  by_cases hpath : path = identityPath
  · have hidentity : (Schema.collection schema).identityPath? = some path := congrArg some hpath.symm
    rw [if_pos hidentity, if_pos hpath]
    cases op with
    | eq | ne => exact isId_iff.symm
    | isIn | notIn =>
      obtain ⟨items, rfl, -⟩ := htakes
      simpa using exists_idOperands_iff
    | _ => exact Iff.rfl
  · have hother : (Schema.collection schema).identityPath? ≠ some path := fun h => hpath (Option.some.inj h).symm
    rw [if_neg hother, if_neg hpath]
    exact Iff.rfl

/-! ## Comparisons -/

/-- The operator may be used on the path: on a reserved field that is switched on presence, on an indexed path all. -/
def Accepts (schema : CollectionSchema) (path : String) (op : Operator) : Prop :=
  match ReservedField.ofKey? path with
  | some field => schema.isEnabled field = true ∧ op = .present
  | none => schema.indexing.isIndexed path = true

theorem check_single_iff {op : Operator} {literal : Literal} {component : Option Component} :
    (∃ warning, (Schema.collection schema).check (.single path op literal component) = .ok warning) ↔
      schema.Accepts path op := by
  have hpath : (Comparison.single path op literal component).path = path := rfl
  have hany : (Comparison.single path op literal component).operations.any (·.operator != .present) =
      (op != .present) := by simp [Comparison.single]
  simp only [Schema.check, map_eq_ok, check, Accepts, hpath, hany]
  cases ReservedField.ofKey? path with
  | some field =>
    by_cases henabled : schema.isEnabled field = true
    · by_cases hop : op = .present <;> simp [henabled, hop]
    · simp [henabled]
  | none =>
    cases schema.indexing.isIndexed path with
    | true => simp
    | false => by_cases hidentity : path = identityPath <;> simp [hidentity]

/-- An operator and its operand are read and admitted if the operator may be used there and takes the operand. -/
theorem exists_admits_iff {op : Operator} :
    (∃ literal, Condition.operand (.collection schema) path op value = .ok literal ∧
        Condition.Admits (.collection schema) limits (.single path op literal)) ↔
      schema.Accepts path op ∧ Decodes path op value ∧ op.Takes limits value := by
  constructor
  · rintro ⟨literal, hl, hadmits⟩
    obtain ⟨hchecked, htakes⟩ := (Condition.admits_single hl).mp hadmits
    exact ⟨check_single_iff.mp hchecked, (exists_operand_iff htakes).mp ⟨literal, hl⟩, htakes⟩
  · rintro ⟨haccepts, hdecodes, htakes⟩
    have hoperand : ∃ literal, Condition.operand (.collection schema) path op value = .ok literal :=
      (exists_operand_iff htakes).mpr hdecodes
    obtain ⟨literal, hl⟩ := hoperand
    exact ⟨literal, hl, (Condition.admits_single hl).mpr ⟨check_single_iff.mpr haccepts, htakes⟩⟩

/-- The operators of a condition are read and admitted one by one. -/
theorem exists_comparisons_of_operators {entries : List (String × Json)}
    (h : Condition.isOperatorObject entries = true) :
    (∃ cs, Condition.comparisons (.collection schema) path (.object entries) = .ok cs ∧
        ∀ c ∈ cs, Condition.Admits (.collection schema) limits c) ↔
      ∀ entry ∈ entries, ∃ op : Operator, entry.1 = op.key ∧ schema.Accepts path op ∧ Decodes path op entry.2 ∧
        op.Takes limits entry.2 := by
  rw [Condition.comparisons_of_operators h]
  refine exists_mapM_iff.trans (forall₂_congr fun entry _ => ?_)
  simp only [Condition.exists_comparison_iff, exists_admits_iff]

/-- A plain value is read and admitted if equality with it is. -/
theorem exists_comparisons_of_isPlain (h : Condition.IsPlain value) :
    (∃ cs, Condition.comparisons (.collection schema) path value = .ok cs ∧
        ∀ c ∈ cs, Condition.Admits (.collection schema) limits c) ↔
      schema.Accepts path .eq ∧ Decodes path .eq value := by
  have htakes : Operator.eq.Takes limits value := trivial
  rw [Condition.comparisons_of_isPlain h, Condition.exists_equality_iff, exists_admits_iff, and_iff_left htakes]

/-- What a condition may be, if its comparisons are to be read and admitted. -/
theorem exists_comparisons_iff : (∃ cs, Condition.comparisons (.collection schema) path value = .ok cs ∧
      ∀ c ∈ cs, Condition.Admits (.collection schema) limits c) ↔
    (Condition.IsPlain value ∧ schema.Accepts path .eq ∧ Decodes path .eq value) ∨
      ∃ entries, value = .object entries ∧ Condition.isOperatorObject entries = true ∧ ∀ entry ∈ entries,
        ∃ op : Operator, entry.1 = op.key ∧ schema.Accepts path op ∧ Decodes path op entry.2 ∧
          op.Takes limits entry.2 := by
  constructor
  · intro h
    rcases Condition.isPlain_or_operators value with hplain | ⟨entries, rfl, hoperators⟩
    · exact .inl ⟨hplain, (exists_comparisons_of_isPlain hplain).mp h⟩
    · exact .inr ⟨entries, rfl, hoperators, (exists_comparisons_of_operators hoperators).mp h⟩
  · rintro (⟨hplain, h⟩ | ⟨entries, rfl, hoperators, h⟩)
    · exact (exists_comparisons_of_isPlain hplain).mpr h
    · exact (exists_comparisons_of_operators hoperators).mpr h

/-! ## Fields -/

theorem isDollarKey_of_reserved {key : String} {field : ReservedField} (h : ReservedField.ofKey? key = some field) :
    isDollarKey key = true ∧ key ≠ identityPath := by
  unfold ReservedField.ofKey? at h
  split at h <;> cases h <;> decide

/-- Requests for presence are a list of operators. -/
theorem isOperatorObject_of_presence {entries : List (String × Json)} (hne : entries ≠ [])
    (h : ∀ entry ∈ entries, ∃ b, entry = ("$exists", .bool b)) : Condition.isOperatorObject entries = true := by
  obtain ⟨first, others, rfl⟩ := List.exists_cons_of_ne_nil hne
  obtain ⟨b, rfl⟩ := h first List.mem_cons_self
  exact Condition.isOperatorObject_of_mem List.mem_cons_self (by decide) rfl

/-- A reserved field is read if it is switched on and all that it is asked for is presence. -/
theorem readsField_reserved {field : ReservedField} (hreserved : ReservedField.ofKey? path = some field) :
    Contents.ReadsField (.collection schema) limits path value ↔ schema.isEnabled field = true ∧
      ∃ entries, value = .object entries ∧ entries ≠ [] ∧ ∀ entry ∈ entries, ∃ b, entry = ("$exists", .bool b) := by
  have hisReserved : (Schema.collection schema).isReserved path = true := by simp [Schema.isReserved, hreserved]
  have haccepts (op : Operator) : schema.Accepts path op ↔ schema.isEnabled field = true ∧ op = .present := by
    rw [Accepts, hreserved]
  have hne : path ≠ identityPath := (isDollarKey_of_reserved hreserved).2
  rw [Condition.readsField_iff, exists_comparisons_iff]
  constructor
  · rintro ⟨-, -, ⟨-, haccepted, -⟩ | ⟨entries, rfl, hoperators, hentries⟩⟩
    · cases ((haccepts .eq).mp haccepted).2
    · have hnonempty := Condition.ne_nil_of_isOperatorObject hoperators
      obtain ⟨first, hfirst⟩ := List.exists_mem_of_ne_nil entries hnonempty
      obtain ⟨op, -, haccepted, -⟩ := hentries first hfirst
      refine ⟨((haccepts op).mp haccepted).1, entries, rfl, hnonempty, fun entry hentry => ?_⟩
      obtain ⟨op, hkey, haccepted, -, htakes⟩ := hentries entry hentry
      obtain rfl : op = .present := ((haccepts op).mp haccepted).2
      obtain ⟨b, hb⟩ := htakes
      exact ⟨b, Prod.ext hkey hb⟩
  · rintro ⟨henabled, entries, rfl, hnonempty, hentries⟩
    refine ⟨EntryKind.ofKey_eq_field.mpr (.inr hisReserved), by simp [Condition.checkPath, hisReserved],
      .inr ⟨entries, rfl, isOperatorObject_of_presence hnonempty hentries, fun entry hentry => ?_⟩⟩
    obtain ⟨b, rfl⟩ := hentries entry hentry
    have hdecodes : Decodes path .present (.bool b) := by
      unfold Decodes
      rw [if_neg hne]
      exact ⟨_, rfl⟩
    exact ⟨.present, rfl, (haccepts _).mpr ⟨henabled, rfl⟩, hdecodes, b, rfl⟩

/-- Any other field is read if its path may stand there and its value or operators are read. -/
theorem readsField_plain (hreserved : ReservedField.ofKey? path = none) :
    Contents.ReadsField (.collection schema) limits path value ↔ schema.HasPath path ∧
      ((Condition.IsPlain value ∧ Decodes path .eq value) ∨
        ∃ entries, value = .object entries ∧ Condition.isOperatorObject entries = true ∧
          ∀ entry ∈ entries, ∃ op : Operator, entry.1 = op.key ∧ Decodes path op entry.2 ∧
            op.Takes limits entry.2) := by
  have hisReserved : (Schema.collection schema).isReserved path = false := by simp [Schema.isReserved, hreserved]
  have haccepts (op : Operator) : schema.Accepts path op ↔ schema.indexing.isIndexed path = true := by
    rw [Accepts, hreserved]
  rw [Condition.readsField_iff, ← and_assoc, Condition.isField_iff_of_unreserved hisReserved, and_assoc,
    exists_comparisons_iff]
  simp only [haccepts]
  constructor
  · rintro ⟨hplain, hwellFormed, ⟨hvalue, hindexed, hdecodes⟩ | ⟨entries, rfl, hoperators, hentries⟩⟩
    · exact ⟨⟨hplain, hwellFormed, hindexed⟩, .inl ⟨hvalue, hdecodes⟩⟩
    · obtain ⟨first, hfirst⟩ := List.exists_mem_of_ne_nil entries (Condition.ne_nil_of_isOperatorObject hoperators)
      obtain ⟨_, -, hindexed, -⟩ := hentries first hfirst
      refine ⟨⟨hplain, hwellFormed, hindexed⟩, .inr ⟨entries, rfl, hoperators, fun entry hentry => ?_⟩⟩
      obtain ⟨op, hkey, -, hoperand⟩ := hentries entry hentry
      exact ⟨op, hkey, hoperand⟩
  · rintro ⟨⟨hplain, hwellFormed, hindexed⟩, ⟨hvalue, hdecodes⟩ | ⟨entries, rfl, hoperators, hentries⟩⟩
    · exact ⟨hplain, hwellFormed, .inl ⟨hvalue, hindexed, hdecodes⟩⟩
    · refine ⟨hplain, hwellFormed, .inr ⟨entries, rfl, hoperators, fun entry hentry => ?_⟩⟩
      obtain ⟨op, hkey, hoperand⟩ := hentries entry hentry
      exact ⟨op, hkey, hindexed, hoperand⟩

/-- **The fields that are read are those of the grammar.** -/
theorem readsField_iff_field (key : String) (value : Json) :
    Contents.ReadsField (.collection schema) limits key value ↔ schema.Field limits key value := by
  cases hreserved : ReservedField.ofKey? key with
  | some field =>
    rw [readsField_reserved hreserved]
    have hdollar := (isDollarKey_of_reserved hreserved).1
    constructor
    · rintro ⟨henabled, entries, rfl, hne, hentries⟩
      exact .reserved hreserved henabled hne hentries
    · intro h
      cases h with
      | reserved hfield henabled hne hentries =>
        obtain rfl := Option.some.inj (hreserved.symm.trans hfield)
        exact ⟨henabled, _, rfl, hne, hentries⟩
      | value hpath => cases hdollar.symm.trans hpath.plain
      | operators hpath => cases hdollar.symm.trans hpath.plain
  | none =>
    rw [readsField_plain hreserved]
    constructor
    · rintro ⟨hpath, ⟨hvalue, hdecodes⟩ | ⟨entries, rfl, hoperators, hentries⟩⟩
      · exact .value hpath hvalue hdecodes
      · exact .operators hpath hoperators hentries
    · intro h
      cases h with
      | reserved hfield => cases hreserved.symm.trans hfield
      | value hpath hvalue hdecodes => exact ⟨hpath, .inl ⟨hvalue, hdecodes⟩⟩
      | operators hpath hoperators hentries => exact ⟨hpath, .inr ⟨_, rfl, hoperators, hentries⟩⟩

/-- Where keys are distinct a reserved field is asked for presence once. -/
theorem field_reserved_iff {key : String} {field : ReservedField} {entries : List (String × Json)}
    (hreserved : ReservedField.ofKey? key = some field) (hdistinct : (entries.map (·.1)).Nodup) :
    schema.Field limits key (.object entries) ↔
      schema.isEnabled field = true ∧ ∃ b, entries = [("$exists", .bool b)] := by
  rw [← readsField_iff_field, readsField_reserved hreserved]
  refine and_congr_right fun _ => ?_
  constructor
  · rintro ⟨_, heq, hne, hentries⟩
    cases heq
    match entries with
    | [] => exact absurd rfl hne
    | [entry] =>
      obtain ⟨b, rfl⟩ := hentries entry List.mem_cons_self
      exact ⟨b, rfl⟩
    | first :: second :: _ =>
      obtain ⟨_, rfl⟩ := hentries first (by simp)
      obtain ⟨_, rfl⟩ := hentries second (by simp)
      simp at hdistinct
  · rintro ⟨b, rfl⟩
    exact ⟨_, rfl, by simp, by simp⟩

/-! ## Filters -/

/-- **The parser of collections accepts exactly its grammar**: nothing, null, or an object whose entries are junctions,
negations and fields and whose tree without NOT obeys the rule on the identity. A reserved field, whose keys are
distinct as those of every object, stands with a single request for presence. -/
theorem parse_collection_iff (schema : CollectionSchema) (limits : Limits) :
    (∀ filter, (∃ clause, Clause.parse (.collection schema) limits filter = .ok clause) ↔
        filter = none ∨ filter = some .null ∨ ∃ entries, filter = some (.object entries) ∧
          (∀ entry ∈ entries, Document.Entry (schema.Field limits) entry.1 entry.2) ∧
          (Document.tree (.collection schema) entries).normalized.IdentityRule identityPath) ∧
      ∀ key field entries, ReservedField.ofKey? key = some field → (entries.map Prod.fst).Nodup →
        (schema.Field limits key (.object entries) ↔
          schema.isEnabled field = true ∧ ∃ b, entries = [("$exists", .bool b)]) := by
  refine ⟨fun filter => ?_, fun key field entries => field_reserved_iff⟩
  rw [parse_ok_iff readsField_iff_field]
  simp [Schema.identityPath?]

/-- A collection with vectors. -/
def notes : CollectionSchema := { name := "notes", vectorEnabled := true }

/-- A filter that compares the identity in a negated OR. -/
def notesEntries : List (String × Json) :=
  [("$vector", .object [("$exists", .bool true)]),
    ("$not", .object [("$or", .array [.object [("_id", .object [("$nin", .array [.string "a"])])],
      .object [("a&.b", .object [("$size", .number (.int 2))])]])])]

/-- The clause of `notesEntries`. -/
def notesClause : Clause :=
  ⟨⟨.and, [⟨.and, [⟨.and, [], [.single "_id" .isIn (.array [.documentId (.string "a")]),
      .single "a&.b" .size (.number (.int (-2)))]⟩], []⟩],
    [.single "$vector" .present (.boolean true)]⟩, some "_id", [], true⟩

theorem parse_collection_iff_notes : (∀ entry ∈ notesEntries, Document.Entry (notes.Field {}) entry.1 entry.2) ∧
    (Document.tree (.collection notes) notesEntries).normalized.IdentityRule identityPath ∧
    notes.Field {} "$vector" (.object [("$exists", .bool true)]) := by
  have hparse : Clause.parse (.collection notes) {} (some (.object notesEntries)) = .ok notesClause := by
    decide +kernel
  have hvector : notes.Field {} "$vector" (.object [("$exists", .bool true)]) :=
    ((parse_collection_iff notes {}).2 "$vector" .vector _ rfl (by decide)).mpr ⟨rfl, true, rfl⟩
  rcases ((parse_collection_iff notes {}).1 _).mp ⟨_, hparse⟩ with h | h | ⟨entries, heq, hentries, hidentity⟩
  · cases h
  · cases h
  · cases heq
    exact ⟨hentries, hidentity, hvector⟩

end CollectionSchema

end DocumentFilter
