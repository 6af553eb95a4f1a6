/-
Primitives over a table, function by function: each step from an operation on
a column to its primitive has one lemma that says exactly when it succeeds and
with what. The column's type decides: a scalar is compared or listed whole,
of a container only what a component selects (`Selects`), and values must be
of kinds that the selected type accepts (`ColumnType.AcceptsAll`).
-/
import DocumentFilter.Proofs.Outcome
import DocumentFilter.Proofs.Vocabulary
import DocumentFilter.Table.Rules

namespace DocumentFilter

/-- The type accepts all values. -/
def ColumnType.AcceptsAll (type : ColumnType) (values : List Literal) : Prop :=
  ∀ value ∈ values, type.accepts value.kind = true

/-- What a component selects from a container type: elements, keys or values. -/
inductive Selects : Component → ColumnType → ColumnType → Prop
  | listValue {element} : Selects .listValue (.list element) element
  | setValue {element} : Selects .setValue (.set element) element
  | mapKey {key value} : Selects .mapKey (.map key value) key
  | mapValue {key value} : Selects .mapValue (.map key value) value

/-- The table declares the column with the type; of two columns of one name the first counts. -/
def TableSchema.Declares (table : TableSchema) (column : String) (type : ColumnType) : Prop :=
  table.column? column = some ⟨column, type⟩

theorem TableSchema.columnType_eq_ok {table : TableSchema} {column : String} {type : ColumnType} :
    table.columnType column = .ok type ↔ table.Declares column type := by
  unfold columnType Declares
  split
  · rename_i found hfound
    have hname : found.name = column := by simpa using List.find?_some hfound
    obtain ⟨name, declared⟩ := found
    obtain rfl : name = column := hname
    simp [hfound]
  · rename_i hnone
    simp [hnone]

/-- An entry of a map as an operand writes it. -/
def entryLiteral (pair : Literal × Literal) : Literal := .array [pair.1, pair.2]

namespace TableFilter

variable {column : String} {type : ColumnType} {component : Component} {op : Operation} {p : TableFilter}

/-! ## Checks -/

theorem elementType?_eq_some {element : ColumnType} :
    elementType? type component = some element ↔ Selects component type element := by
  constructor
  · intro h
    unfold elementType? at h
    split at h <;> cases h
    · exact .listValue
    · exact .setValue
    · exact .mapKey
    · exact .mapValue
  · intro h
    cases h <;> rfl

theorem checkValues_eq_ok {values : List Literal} {u : Unit} :
    checkValues column type values = .ok u ↔ type.AcceptsAll values := by
  unfold checkValues ColumnType.AcceptsAll
  split
  · rename_i value hfind
    have hmem := List.mem_of_find?_eq_some hfind
    have hnot := List.find?_some hfind
    constructor
    · intro h
      cases h
    · intro h
      rw [h value hmem] at hnot
      cases hnot
  · rename_i hfind
    have hall := List.find?_eq_none.mp hfind
    exact ⟨fun _ value hvalue => by simpa using hall value hvalue, fun _ => rfl⟩

theorem checkScalar_eq_ok {operator : Operator} {u : Unit} :
    checkScalar column type operator = .ok u ↔ ∃ scalar, type = .scalar scalar := by
  cases type <;> simp [checkScalar, ColumnType.isScalar]

theorem listOperand_eq_ok {values : List Literal} :
    listOperand column op = .ok values ↔ op.operand = .array values := by
  unfold listOperand
  split <;> simp_all

theorem entry_eq_ok {keyType valueType : ColumnType} {operator : Operator} {literal : Literal}
    {pair : Literal × Literal} : entry column keyType valueType operator literal = .ok pair ↔
      literal = entryLiteral pair ∧ keyType.accepts pair.1.kind = true ∧ valueType.accepts pair.2.kind = true := by
  unfold entry entryLiteral
  split
  · rename_i key value
    simp only [bind_eq_ok, pure_eq_ok, checkValues_eq_ok, ColumnType.AcceptsAll, List.forall_mem_singleton]
    constructor
    · rintro ⟨_, hkey, _, hvalue, rfl⟩
      exact ⟨rfl, hkey, hvalue⟩
    · rintro ⟨heq, hkey, hvalue⟩
      cases heq
      exact ⟨(), hkey, (), hvalue, rfl⟩
  · rename_i hnot
    constructor
    · intro h
      cases h
    · rintro ⟨h, -⟩
      exact absurd h (hnot _ _)

/-- The pairs are entries of a map type. -/
def AreEntries (keyType valueType : ColumnType) (pairs : List (Literal × Literal)) : Prop :=
  ∀ pair ∈ pairs, keyType.accepts pair.1.kind = true ∧ valueType.accepts pair.2.kind = true

theorem mapM_entry_eq_ok {keyType valueType : ColumnType} {operator : Operator} {values : List Literal}
    {pairs : List (Literal × Literal)} : values.mapM (entry column keyType valueType operator) = .ok pairs ↔
      values = pairs.map entryLiteral ∧ AreEntries keyType valueType pairs := by
  rw [mapM_eq_ok]
  simp only [entry_eq_ok]
  constructor
  · intro h
    refine ⟨?_, fun pair hpair => ?_⟩
    · rw [← List.forall₂_eq_eq_eq, List.forall₂_map_right_iff]
      exact h.imp fun _ _ h => h.1
    · obtain ⟨_, _, _, haccepts⟩ := exists_left_of_forall₂ h pair hpair
      exact haccepts
  · rintro ⟨rfl, haccepts⟩
    rw [List.forall₂_map_left_iff, List.forall₂_same]
    exact fun pair hpair => ⟨rfl, haccepts pair hpair⟩

/-! ## Primitives -/

theorem ofValue_eq_ok : ofValue column type op = .ok p ↔ ∃ scalar test, type = .scalar scalar ∧
    type.accepts op.operand.kind = true ∧ op.operator = test.operator ∧ p = .native column type test op.operand := by
  simp only [ofValue, bind_eq_ok, pure_eq_ok, checkScalar_eq_ok, checkValues_eq_ok, ColumnType.AcceptsAll,
    List.forall_mem_singleton, ComparisonTest.ofOperator_eq_ok]
  constructor
  · rintro ⟨_, ⟨scalar, hscalar⟩, _, haccepts, test, htest, rfl⟩
    exact ⟨scalar, test, hscalar, haccepts, htest, rfl⟩
  · rintro ⟨scalar, test, hscalar, haccepts, htest, rfl⟩
    exact ⟨(), ⟨scalar, hscalar⟩, (), haccepts, test, htest, rfl⟩

theorem ofMembership_eq_ok : ofMembership column type op = .ok p ↔ ∃ scalar values test, type = .scalar scalar ∧
    op.operand = .array values ∧ type.AcceptsAll values ∧ op.operator = test.operator ∧
    p = .isIn column type test values := by
  simp only [ofMembership, bind_eq_ok, pure_eq_ok, checkScalar_eq_ok, listOperand_eq_ok, checkValues_eq_ok,
    MembershipTest.ofOperator_eq_ok]
  constructor
  · rintro ⟨_, ⟨scalar, hscalar⟩, values, hvalues, _, haccepts, test, htest, rfl⟩
    exact ⟨scalar, values, test, hscalar, hvalues, haccepts, htest, rfl⟩
  · rintro ⟨scalar, values, test, hscalar, hvalues, haccepts, htest, rfl⟩
    exact ⟨(), ⟨scalar, hscalar⟩, values, hvalues, (), haccepts, test, htest, rfl⟩

/-- The elements of a container that values are tested against: entries of a map, or what a component selects. -/
inductive Tests (column : String) (type : ColumnType) (component : Component) (test : ContainerTest) :
    List Literal → TableFilter → Prop
  | entries {keyType valueType pairs} : component = .mapEntry → type = .map keyType valueType →
      AreEntries keyType valueType pairs →
      Tests column type component test (pairs.map entryLiteral) (.entries column test pairs)
  | elements {element values} : Selects component type element → element.AcceptsAll values →
      Tests column type component test values (.elements column component test values)

theorem ofElements_eq_ok : ofElements column type component op = .ok p ↔ ∃ values test,
    op.operand = .array values ∧ op.operator = test.operator ∧ Tests column type component test values p := by
  simp only [ofElements, bind_eq_ok, listOperand_eq_ok, ContainerTest.ofOperator_eq_ok]
  refine exists_congr fun values => ?_
  rw [← exists_and_left]
  refine exists_congr fun test => and_congr_right fun _ => and_congr_right fun _ => ?_
  split
  · rename_i keyType valueType
    simp only [bind_eq_ok, pure_eq_ok, mapM_entry_eq_ok]
    constructor
    · rintro ⟨pairs, ⟨rfl, haccepts⟩, rfl⟩
      exact .entries rfl rfl haccepts
    · rintro (⟨-, heq, haccepts⟩ | ⟨hselects, -⟩)
      · cases heq
        exact ⟨_, ⟨rfl, haccepts⟩, rfl⟩
      · cases hselects
  · rename_i hnot
    split
    · rename_i element helement
      have hselects := elementType?_eq_some.mp helement
      simp only [bind_eq_ok, pure_eq_ok, checkValues_eq_ok]
      constructor
      · rintro ⟨_, haccepts, rfl⟩
        exact .elements hselects haccepts
      · rintro (⟨hentry, hmap, -⟩ | ⟨hselects', haccepts⟩)
        · exact absurd hmap (hnot _ _ hentry)
        · cases helement.symm.trans (elementType?_eq_some.mpr hselects')
          exact ⟨(), haccepts, rfl⟩
    · rename_i hnone
      constructor
      · intro h
        cases h
      · rintro (⟨hentry, hmap, -⟩ | ⟨hselects, -⟩)
        · exact absurd hmap (hnot _ _ hentry)
        · cases hnone.symm.trans (elementType?_eq_some.mpr hselects)

end TableFilter

end DocumentFilter
