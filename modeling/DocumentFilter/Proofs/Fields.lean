/-
The fields of a filter document, in the order in which they stand in it.

`Document.fields` walks through junctions and negations, depth first, and lists
every field with its condition and the parity of the NOTs above it. A document
is read field by field (`ReadsFields`): its warnings are those of the fields, in
this order, and it asks what they ask, though in another order, since
conditions are hoisted over the nodes beside them; below an odd number of NOTs
it asks the complement.
-/
import DocumentFilter.Proofs.Clause
import DocumentFilter.Proofs.Grammar

namespace DocumentFilter

namespace Document

/-- A field of a document and its condition; `negative` if it stands below an odd number of NOTs. -/
structure Field where
  negative : Bool
  path : String
  condition : Json

mutual
/-- The fields in the entry of a key; `negative` is the parity of the NOTs above it. -/
def entryFields (negative : Bool) (key : String) : Json → List Field
  | .array items =>
    if key = "$and" ∨ key = "$or" then elementFields negative items else [⟨negative, key, .array items⟩]
  | .object entries => if key = "$not" then fields (!negative) entries else [⟨negative, key, .object entries⟩]
  | value => [⟨negative, key, value⟩]

/-- The fields in the entries of an object. -/
def fields (negative : Bool) : List (String × Json) → List Field
  | [] => []
  | (key, value) :: entries => entryFields negative key value ++ fields negative entries

/-- The fields in the elements of a junction. -/
def elementFields (negative : Bool) : List Json → List Field
  | [] => []
  | .object entries :: items => fields negative entries ++ elementFields negative items
  | _ :: items => elementFields negative items
end

/-- The fields of a whole filter. -/
def fieldsOf : Option Json → List Field
  | some (.object entries) => fields false entries
  | _ => []

section Walk

variable {negative : Bool} {key : String}

theorem entryFields_of_field (h : IsFieldKey key) (value : Json) :
    entryFields negative key value = [⟨negative, key, value⟩] := by
  obtain ⟨hand, hor, hnot⟩ := h
  cases value <;> simp [entryFields, hand, hor, hnot]

theorem entryFields_junction (j : Junction) (items : List Json) :
    entryFields negative j.key (.array items) = elementFields negative items := by
  cases j <;> simp [entryFields, Junction.key]

theorem entryFields_negation (entries : List (String × Json)) :
    entryFields negative "$not" (.object entries) = fields (!negative) entries := by
  simp [entryFields]

end Walk

namespace Field

variable (schema : Schema) (field : Field)

/-- What the field's condition adds to its node; nothing if it cannot be read. -/
def contents : Contents :=
  match Contents.ofField schema field.path field.condition with
  | .ok c => c
  | .error _ => {}

/-- What the field asks. -/
def atoms : List Atom := ((field.contents schema).comparisons.flatMap Comparison.atoms).map (Atom.signed field.negative)

/-- The field has a path and a condition that can be read. -/
structure IsRead : Prop where
  isField : IsFieldKey field.path
  read : Contents.ofField schema field.path field.condition = .ok (field.contents schema)

variable {schema field}

theorem contents_eq {c : Contents} (h : Contents.ofField schema field.path field.condition = .ok c) :
    field.contents schema = c := by
  rw [contents, h]

/-- A field that is read writes comparisons on its own path, which the schema accepts. -/
theorem IsRead.condition (h : field.IsRead schema) : ∃ cs warnings,
    Condition.comparisons schema field.path field.condition = .ok cs ∧ cs.mapM schema.check = .ok warnings ∧
      field.contents schema = { comparisons := cs, warnings := warnings.filterMap id } := by
  obtain ⟨cs, warnings, -, hcs, hwarnings, hc⟩ := Contents.ofField_eq_ok.mp h.read
  exact ⟨cs, warnings, hcs, hwarnings, hc⟩

/-- All that a field asks is on its path, and it asks something. -/
theorem IsRead.path_atoms (h : field.IsRead schema) (path : String) :
    path ∈ (field.atoms schema).map (·.path) ↔ field.path = path := by
  obtain ⟨cs, warnings, hcs, -, hc⟩ := h.condition
  have hwritten : ∀ c ∈ cs, c.operations ≠ [] := by
    intro c hmem
    obtain ⟨op, hop⟩ := (Condition.written_of_comparisons hcs c hmem).1.single
    simp [hop]
  have hunsigned : (field.atoms schema).map (·.path) = (cs.flatMap Comparison.atoms).map (·.path) := by
    rw [atoms, hc, List.map_map]
    exact List.map_congr_left fun a _ => Atom.path_signed _ a
  rw [hunsigned, Comparison.mem_map_path_atoms hwritten, Condition.exists_path_of_comparisons path hcs]

end Field

end Document

namespace Contents

open Document

variable {schema : Schema} {negative : Bool}

/-! ## What contents ask -/

theorem signedAtoms_conjunction (c : Contents) : c.conjunction.signedAtoms negative =
    (c.comparisons.flatMap Comparison.atoms).map (Atom.signed negative) ++
      c.children.flatMap (Expression.signedAtoms negative) := by
  have hand : (negative ^^ Connective.and == Connective.not) = negative := Bool.xor_false negative
  rw [conjunction, Expression.signedAtoms, Expression.signedAtomsAll_eq_flatMap, hand]

theorem signedAtoms_node (j : Junction) (c : Contents) :
    (c.node j).signedAtoms negative = c.conjunction.signedAtoms negative := by
  cases j <;> rfl

theorem signedAtoms_ofNode (e : Expression) (warnings : List Warning) :
    (ofNode e warnings).conjunction.signedAtoms negative = e.signedAtoms negative := by
  simp [signedAtoms_conjunction, ofNode]

theorem signedAtoms_negation (c : Contents) :
    Expression.signedAtoms negative ⟨.not, [c.conjunction], []⟩ = c.conjunction.signedAtoms (!negative) := by
  cases negative <;> simp [Expression.signedAtoms, Expression.signedAtomsAll]

theorem signedAtoms_element (c : Contents) :
    c.element.conjunction.signedAtoms negative = c.conjunction.signedAtoms negative := by
  unfold element
  split
  · rfl
  · exact signedAtoms_ofNode _ _

/-- Of two parts the comparisons come before the nodes, so only the order is another. -/
theorem signedAtoms_append (a b : Contents) : ((a ++ b).conjunction.signedAtoms negative).Perm
    (a.conjunction.signedAtoms negative ++ b.conjunction.signedAtoms negative) := by
  have hchildren : (a ++ b).children = a.children ++ b.children := rfl
  have hcomparisons : (a ++ b).comparisons = a.comparisons ++ b.comparisons := rfl
  simp only [signedAtoms_conjunction, hchildren, hcomparisons, List.flatMap_append, List.map_append,
    List.append_assoc]
  refine .append_left _ ?_
  rw [← List.append_assoc, ← List.append_assoc]
  exact List.perm_append_comm.append_right _

/-! ## Reading field by field -/

/-- The contents are those of the fields: all can be read, the comparisons and warnings are theirs, and so is what is
asked. -/
structure ReadsFields (schema : Schema) (negative : Bool) (fields : List Field) (c : Contents) : Prop where
  isRead : ∀ field ∈ fields, field.IsRead schema
  comparisons : ∀ d, d ∈ c.conjunction.childrenFirst ↔ ∃ field ∈ fields, d ∈ (field.contents schema).comparisons
  warnings : c.warnings = fields.flatMap fun field => (field.contents schema).warnings
  atoms : (c.conjunction.signedAtoms negative).Perm (fields.flatMap fun field => field.atoms schema)

namespace ReadsFields

theorem empty : ReadsFields schema negative [] {} where
  isRead := by simp
  comparisons := by simp [mem_conjunction]
  warnings := rfl
  atoms := by simp [signedAtoms_conjunction]

theorem ofField (field : Field) {c : Contents} (hkey : IsFieldKey field.path)
    (h : Contents.ofField schema field.path field.condition = .ok c) : ReadsFields schema field.negative [field] c := by
  have hc := Field.contents_eq h
  have hread : field.IsRead schema := ⟨hkey, h.trans (congrArg _ hc.symm)⟩
  obtain ⟨cs, warnings, -, -, heq⟩ := hread.condition
  rw [hc] at heq
  refine ⟨by simpa using hread, by simp [mem_conjunction, hc, heq], by simp [hc], ?_⟩
  simp [signedAtoms_conjunction, Field.atoms, hc, heq]

theorem append {fields fields' : List Field} {a b : Contents} (ha : ReadsFields schema negative fields a)
    (hb : ReadsFields schema negative fields' b) : ReadsFields schema negative (fields ++ fields') (a ++ b) where
  isRead := List.forall_mem_append.mpr ⟨ha.isRead, hb.isRead⟩
  comparisons := fun d => by
    simp only [mem_conjunction_append, ha.comparisons, hb.comparisons, List.mem_append, or_and_right, exists_or]
  warnings := by
    rw [List.flatMap_append, ← ha.warnings, ← hb.warnings]
    rfl
  atoms := by
    rw [List.flatMap_append]
    exact (signedAtoms_append a b).trans (ha.atoms.append hb.atoms)

/-- A part with the same comparisons and warnings that asks the same reads the same fields. -/
theorem of_eq {parity : Bool} {fields : List Field} {a b : Contents} (h : ReadsFields schema parity fields a)
    (hcomparisons : ∀ d, d ∈ b.conjunction.childrenFirst ↔ d ∈ a.conjunction.childrenFirst)
    (hwarnings : b.warnings = a.warnings)
    (hatoms : b.conjunction.signedAtoms negative = a.conjunction.signedAtoms parity) :
    ReadsFields schema negative fields b where
  isRead := h.isRead
  comparisons := fun d => (hcomparisons d).trans (h.comparisons d)
  warnings := hwarnings.trans h.warnings
  atoms := hatoms ▸ h.atoms

end ReadsFields

theorem warnings_element (c : Contents) : c.element.warnings = c.warnings := by
  unfold element
  split <;> rfl

/-- **A document is read field by field.** -/
theorem keptByReading_fields : KeptByReading schema
    (fun key value c => ∀ negative, ReadsFields schema negative (entryFields negative key value) c)
    (fun entries c => ∀ negative, ReadsFields schema negative (fields negative entries) c)
    (fun _ items c => ∀ negative, ReadsFields schema negative (elementFields negative items) c) where
  field := by
    intro key value c hkey h negative
    rw [entryFields_of_field hkey]
    exact .ofField ⟨negative, key, value⟩ hkey h
  junction := by
    intro j items c _ h negative
    rw [entryFields_junction]
    exact (h negative).of_eq (fun d => mem_conjunction_ofNode.trans mem_childrenFirst_node) rfl
      ((signedAtoms_ofNode _ _).trans (signedAtoms_node j c))
  negation := by
    intro entries c _ h negative
    rw [entryFields_negation]
    have hcomparisons (d : Comparison) :
        d ∈ (ofNode ⟨.not, [c.conjunction], []⟩ c.warnings).conjunction.childrenFirst ↔
          d ∈ c.conjunction.childrenFirst := by
      simp [mem_conjunction_ofNode, Expression.childrenFirst, Expression.childrenFirstAll]
    exact (h (!negative)).of_eq hcomparisons rfl ((signedAtoms_ofNode _ _).trans (signedAtoms_negation c))
  noEntries := fun _ => .empty
  entries := fun hfirst hothers negative => (hfirst negative).append (hothers negative)
  noElements := fun _ => .empty
  elements := fun _ hfirst hothers negative =>
    ((hfirst negative).of_eq (fun _ => mem_conjunction_element) (warnings_element _)
      (signedAtoms_element _)).append (hothers negative)

end Contents

/-- What a clause has from the fields of its filter. -/
structure Clause.OfFields (schema : Schema) (limits : Limits) (filter : Option Json) (clause : Clause) : Prop where
  isRead : ∀ field ∈ Document.fieldsOf filter, field.IsRead schema
  checked : ∀ field ∈ Document.fieldsOf filter, ∀ c ∈ (field.contents schema).comparisons, ∀ op ∈ c.operations,
    op.check limits = .ok ()
  warnings : clause.warnings =
    ((Document.fieldsOf filter).flatMap fun field => (field.contents schema).warnings).eraseDups
  atoms : clause.expression.atoms.Perm ((Document.fieldsOf filter).flatMap fun field => field.atoms schema)

theorem parse_ofFields {schema : Schema} {limits : Limits} {filter : Option Json} {clause : Clause}
    (h : Clause.parse schema limits filter = .ok clause) : clause.OfFields schema limits filter := by
  rcases parse_cases h with ⟨hnone, rfl⟩ | ⟨entries, contents, rfl, hparsed⟩
  · have hfields : Document.fieldsOf filter = [] := by rcases hnone with rfl | rfl <;> rfl
    refine ⟨by simp [hfields], by simp [hfields], by simp [hfields, Clause.empty], ?_⟩
    simp [hfields, Clause.empty, Expression.empty, Expression.atoms_node]
  · have hread := Contents.keptByReading_fields.ofEntries entries hparsed.read false
    have hchecked : ∀ field ∈ Document.fields false entries, ∀ c ∈ (field.contents schema).comparisons,
        ∀ op ∈ c.operations, op.check limits = .ok () := fun field hfield c hc =>
      Expression.checkOperands_eq_ok.mp hparsed.operands c ((hread.comparisons c).mpr ⟨field, hfield, hc⟩)
    have hwarnings : clause.warnings = contents.warnings.eraseDups := congrArg Clause.warnings hparsed.clause
    exact ⟨hread.isRead, hchecked, hwarnings.trans (congrArg List.eraseDups hread.warnings),
      hparsed.atoms ▸ hread.atoms⟩

/-- A clause compares on the paths of the fields of its filter. -/
theorem parse_path_iff {schema : Schema} {limits : Limits} {filter : Option Json} {clause : Clause} {path : String}
    (h : Clause.parse schema limits filter = .ok clause) : (∃ c ∈ clause.expression.childrenFirst, c.path = path) ↔
      ∃ field ∈ Document.fieldsOf filter, field.path = path := by
  have hfields := parse_ofFields h
  rw [← Expression.mem_map_path_atoms (operations_ne_nil_of_parse h), (hfields.atoms.map _).mem_iff, List.map_flatMap,
    List.mem_flatMap]
  exact exists_congr fun field => and_congr_right fun hfield => (hfields.isRead field hfield).path_atoms path

end DocumentFilter
