/-
What filters over a table may be, and which comparisons look at a component.

A field is a declared column that holds no vectors, with a value or a list of
operators; a map column may also have operators on its keys or values, and the
members of its lists are pairs (`Field`). A filter is parsed if and only if its
document has such fields in junctions and negations (`parse_table_iff`). A
comparison of the clause has a component exactly if it tests the elements of a
container, and negation keeps it.
-/
import DocumentFilter.Proofs.Grammar
import DocumentFilter.Proofs.Occurrence
import DocumentFilter.Proofs.TableTyping

namespace DocumentFilter

namespace TableSchema

/-- Members that are lists are pairs. -/
def ListsPairs (value : Json) : Prop :=
  ∀ items, value = .array items → ∀ item ∈ items, ∃ first second, item = .array [first, second]

/-- An operator on a column: its operand decodes and is valid, and on a map its elements are pairs. -/
def OperatorEntry (limits : Limits) (kind : Option ContainerKind) (key : String) (value : Json) : Prop :=
  ∃ op : Operator, key = op.key ∧ value.IsLiteral ∧ op.Takes limits value ∧
    (kind = some .map → op.isContainerTest = true → ListsPairs value)

/-- Operators on the keys or values of a map: tests of elements whose operands decode and are valid. -/
def SelectorEntry (limits : Limits) (key : String) (value : Json) : Prop :=
  ∃ (selector : Selector) (entries : List (String × Json)), key = selector.key ∧ value = .object entries ∧
    entries ≠ [] ∧ ∀ entry ∈ entries, ∃ op : Operator, entry.1 = op.key ∧ op.isContainerTest = true ∧
      entry.2.IsLiteral ∧ op.Takes limits entry.2

/-- The path is one that conditions may be put on: no dollar key, well-formed, and a column without vectors. -/
structure HasColumn (table : TableSchema) (path : String) (type : ColumnType) : Prop where
  plain : isDollarKey path = false
  wellFormed : Path.IsWellFormed path
  declared : table.Declares path type
  searchable : type.isVector = false

/-- What may stand behind a field of a table. -/
inductive Field (table : TableSchema) (limits : Limits) : String → Json → Prop
  | value {path type value} : table.HasColumn path type → Condition.IsPlain value → value.IsLiteral →
      Field table limits path value
  | operators {path type entries} : table.HasColumn path type → Condition.isOperatorObject entries = true →
      (∀ entry ∈ entries, OperatorEntry limits type.containerKind? entry.1 entry.2 ∨
        (type.containerKind? = some .map ∧ SelectorEntry limits entry.1 entry.2)) →
      Field table limits path (.object entries)

variable {table : TableSchema} {limits : Limits} {path key : String} {value : Json} {type : ColumnType}

/-! ## Columns -/

theorem check_eq_ok {c : Comparison} : (∃ warning, (Schema.table table).check c = .ok warning) ↔
    ∃ type, table.Declares c.path type ∧ type.isVector = false := by
  simp only [Schema.check, check, bind_eq_ok, columnType_eq_ok]
  constructor
  · rintro ⟨warning, type, hdeclared, h⟩
    refine ⟨type, hdeclared, Bool.eq_false_iff.mpr fun hvector => ?_⟩
    simp [hvector, bind, Except.bind, throw, throwThe, MonadExceptOf.throw] at h
  · rintro ⟨type, hdeclared, hvector⟩
    exact ⟨_, type, hdeclared, by simp [hvector]; rfl⟩

/-- On a column without vectors a comparison is admitted if its operand is valid. -/
theorem admits_single_iff (hdeclared : table.Declares path type) (hsearchable : type.isVector = false) {op : Operator}
    {literal : Literal} {component : Option Component} (h : Literal.ofJson value = .ok literal) :
    Condition.Admits (.table table) limits (.single path op literal component) ↔ op.Takes limits value := by
  have hoperand : Condition.operand (.table table) path op value = .ok literal := h
  rw [Condition.admits_single hoperand, check_eq_ok]
  exact and_iff_right ⟨type, hdeclared, hsearchable⟩

theorem containerKind?_of_declares (h : table.Declares path type) :
    (Schema.table table).containerKind? path = type.containerKind? := by
  have hcolumn : (Schema.table table).column? path = some ⟨path, type⟩ := h
  rw [Schema.containerKind?, hcolumn]
  rfl

/-! ## Conditions -/

theorem isPair_iff {item : Json} : (item matches .array [_, _]) = true ↔
    ∃ first second, item = .array [first, second] := by
  constructor
  · intro h
    split at h
    · exact ⟨_, _, rfl⟩
    · cases h
  · rintro ⟨first, second, rfl⟩
    rfl

theorem checkEntries_eq_ok {op : Operator} : Condition.checkEntries op value = .ok () ↔ ListsPairs value := by
  cases value with
  | array items =>
    have hall : items.all (· matches .array [_, _]) = true ↔ ListsPairs (.array items) := by
      rw [List.all_eq_true]
      simp only [isPair_iff, ListsPairs, Json.array.injEq, forall_eq']
    rw [← hall, Condition.checkEntries]
    split
    · rename_i h
      exact iff_of_true rfl h
    · rename_i h
      exact iff_of_false (by simp) h
  | _ => simp [Condition.checkEntries, ListsPairs]

section Column

variable (hdeclared : table.Declares path type) (hsearchable : type.isVector = false)

include hdeclared hsearchable

theorem exists_comparison_iff :
    (∃ c, Condition.comparison (.table table) path key value = .ok c ∧ Condition.Admits (.table table) limits c) ↔
      ∃ op : Operator, key = op.key ∧ value.IsLiteral ∧ op.Takes limits value := by
  rw [Condition.exists_comparison_iff]
  refine exists_congr fun op => and_congr_right fun _ => ?_
  constructor
  · rintro ⟨literal, hl, hadmits⟩
    exact ⟨⟨literal, hl⟩, (admits_single_iff hdeclared hsearchable hl).mp hadmits⟩
  · rintro ⟨⟨literal, hl⟩, htakes⟩
    exact ⟨literal, hl, (admits_single_iff hdeclared hsearchable hl).mpr htakes⟩

theorem exists_containerComparison_iff {kind : ContainerKind} :
    (∃ c, Condition.containerComparison (.table table) path kind key value = .ok c ∧
        Condition.Admits (.table table) limits c) ↔ OperatorEntry limits (some kind) key value := by
  simp only [Condition.containerComparison_eq_ok]
  constructor
  · rintro ⟨_, ⟨op, literal, hkey, ⟨htest, hpairs, hl, rfl⟩ | ⟨htest, hl, rfl⟩⟩, hadmits⟩
    · refine ⟨op, hkey, ⟨literal, hl⟩, (admits_single_iff hdeclared hsearchable hl).mp hadmits, fun hmap _ => ?_⟩
      exact checkEntries_eq_ok.mp (hpairs (Option.some.inj hmap))
    · refine ⟨op, hkey, ⟨literal, hl⟩, (admits_single_iff hdeclared hsearchable hl).mp hadmits, fun _ htest' => ?_⟩
      cases htest.symm.trans htest'
  · rintro ⟨op, hkey, ⟨literal, hl⟩, htakes, hpairs⟩
    cases htest : op.isContainerTest with
    | true =>
      refine ⟨_, ⟨op, literal, hkey, .inl ⟨htest, fun hmap => ?_, hl, rfl⟩⟩,
        (admits_single_iff hdeclared hsearchable hl).mpr htakes⟩
      exact checkEntries_eq_ok.mpr (hpairs (congrArg some hmap) htest)
    | false =>
      exact ⟨_, ⟨op, literal, hkey, .inr ⟨htest, hl, rfl⟩⟩, (admits_single_iff hdeclared hsearchable hl).mpr htakes⟩

theorem exists_selectedComparison_iff {selector : Selector} :
    (∃ c, Condition.selectedComparison path selector key value = .ok c ∧ Condition.Admits (.table table) limits c) ↔
      ∃ op : Operator, key = op.key ∧ op.isContainerTest = true ∧ value.IsLiteral ∧ op.Takes limits value := by
  simp only [Condition.selectedComparison_eq_ok]
  constructor
  · rintro ⟨_, ⟨op, literal, hkey, htest, hl, rfl⟩, hadmits⟩
    exact ⟨op, hkey, htest, ⟨literal, hl⟩, (admits_single_iff hdeclared hsearchable hl).mp hadmits⟩
  · rintro ⟨op, hkey, htest, ⟨literal, hl⟩, htakes⟩
    exact ⟨_, ⟨op, literal, hkey, htest, hl, rfl⟩, (admits_single_iff hdeclared hsearchable hl).mpr htakes⟩

/-- An entry of a condition on a container is an operator or, on a map, a selector. -/
theorem exists_containerEntry_iff {kind : ContainerKind} :
    (∃ cs, Condition.containerEntry (.table table) path kind key value = .ok cs ∧
        ∀ c ∈ cs, Condition.Admits (.table table) limits c) ↔
      OperatorEntry limits (some kind) key value ∨ (some kind = some .map ∧ SelectorEntry limits key value) := by
  have hselected {selector : Selector} {entries : List (String × Json)} :
      (∃ cs, List.Forall₂ (fun entry c => Condition.selectedComparison path selector entry.1 entry.2 = .ok c)
            entries cs ∧
          ∀ c ∈ cs, Condition.Admits (.table table) limits c) ↔
        ∀ entry ∈ entries, ∃ op : Operator, entry.1 = op.key ∧ op.isContainerTest = true ∧ entry.2.IsLiteral ∧
          op.Takes limits entry.2 := by
    simp only [← mapM_eq_ok, exists_mapM_iff, exists_selectedComparison_iff hdeclared hsearchable]
  simp only [Condition.containerEntry_eq_ok]
  constructor
  · rintro ⟨cs, ⟨-, c, hc, rfl⟩ | ⟨selector, entries, hselector, rfl, rfl, hne, hcs⟩, hadmits⟩
    · exact .inl ((exists_containerComparison_iff hdeclared hsearchable).mp ⟨c, hc, hadmits c List.mem_cons_self⟩)
    · exact .inr ⟨rfl, selector, entries, Selector.key_of_ofKey? hselector, rfl, hne, hselected.mp ⟨cs, hcs, hadmits⟩⟩
  · rintro (h | ⟨hmap, selector, entries, rfl, rfl, hne, hentries⟩)
    · obtain ⟨op, hkey, -⟩ := id h
      obtain ⟨c, hc, hadmits⟩ := (exists_containerComparison_iff hdeclared hsearchable).mpr h
      exact ⟨[c], .inl ⟨hkey ▸ op.selector_key, c, hc, rfl⟩, by simpa using hadmits⟩
    · obtain ⟨cs, hcs, hadmits⟩ := hselected.mpr hentries
      exact ⟨cs, .inr ⟨selector, entries, selector.ofKey?_key, Option.some.inj hmap, rfl, hne, hcs⟩, hadmits⟩

/-- The operators of a condition are read and admitted entry by entry. -/
theorem exists_operatorObject_iff {entries : List (String × Json)} :
    (∃ cs, Condition.operatorObject (.table table) path entries = .ok cs ∧
        ∀ c ∈ cs, Condition.Admits (.table table) limits c) ↔
      ∀ entry ∈ entries, OperatorEntry limits type.containerKind? entry.1 entry.2 ∨
        (type.containerKind? = some .map ∧ SelectorEntry limits entry.1 entry.2) := by
  unfold Condition.operatorObject
  rw [containerKind?_of_declares hdeclared]
  cases type.containerKind? with
  | none =>
    refine exists_mapM_iff.trans (forall₂_congr fun entry _ => ?_)
    simp [exists_comparison_iff hdeclared hsearchable, OperatorEntry]
  | some kind =>
    have hflatten {l : List (String × Json)} {f : String × Json → Except FilterError (List Comparison)} :
        (∃ cs, (l.mapM f).map List.flatten = .ok cs ∧ ∀ c ∈ cs, Condition.Admits (.table table) limits c) ↔
          ∃ lists, l.mapM f = .ok lists ∧ ∀ cs ∈ lists, ∀ c ∈ cs, Condition.Admits (.table table) limits c := by
      simp only [map_eq_ok]
      constructor
      · rintro ⟨_, ⟨lists, hlists, rfl⟩, hadmits⟩
        exact ⟨lists, hlists, fun cs hcs c hc => hadmits c (List.mem_flatten.mpr ⟨cs, hcs, hc⟩)⟩
      · rintro ⟨lists, hlists, hadmits⟩
        refine ⟨_, ⟨lists, hlists, rfl⟩, fun c hc => ?_⟩
        obtain ⟨cs, hcs, hc⟩ := List.mem_flatten.mp hc
        exact hadmits cs hcs c hc
    rw [hflatten]
    exact exists_mapM_iff.trans (forall₂_congr fun _ _ => exists_containerEntry_iff hdeclared hsearchable)

/-- A plain value is read and admitted if it decodes. -/
theorem exists_equality_iff :
    (∃ cs, Condition.equality (.table table) path value = .ok cs ∧
        ∀ c ∈ cs, Condition.Admits (.table table) limits c) ↔ value.IsLiteral := by
  rw [Condition.exists_equality_iff]
  constructor
  · rintro ⟨literal, hl, -⟩
    exact ⟨literal, hl⟩
  · rintro ⟨literal, hl⟩
    exact ⟨literal, hl, (admits_single_iff hdeclared hsearchable hl).mpr trivial⟩

end Column

/-! ## Fields -/

/-- A column on which a comparison is admitted is declared and holds no vectors. -/
theorem declares_of_comparisons {cs : List Comparison} (hcs : Condition.comparisons (.table table) path value = .ok cs)
    (hadmits : ∀ c ∈ cs, Condition.Admits (.table table) limits c) :
    ∃ type, table.Declares path type ∧ type.isVector = false := by
  obtain ⟨c, hc⟩ := List.exists_mem_of_ne_nil cs (Condition.ne_nil_of_comparisons hcs)
  rw [← (Condition.written_of_comparisons hcs c hc).2]
  exact check_eq_ok.mp (hadmits c hc).checked

/-- **The fields that are read are those of the grammar.** -/
theorem readsField_iff_field (key : String) (value : Json) :
    Contents.ReadsField (.table table) limits key value ↔ table.Field limits key value := by
  rw [Condition.readsField_iff, ← and_assoc, Condition.isField_iff_of_unreserved rfl]
  constructor
  · rintro ⟨⟨hplain, hwellFormed⟩, cs, hcs, hadmits⟩
    obtain ⟨type, hdeclared, hsearchable⟩ := declares_of_comparisons hcs hadmits
    have hcolumn : table.HasColumn key type := ⟨hplain, hwellFormed, hdeclared, hsearchable⟩
    rcases Condition.isPlain_or_operators value with hvalue | ⟨entries, rfl, hoperators⟩
    · rw [Condition.comparisons_of_isPlain hvalue] at hcs
      exact .value hcolumn hvalue ((exists_equality_iff hdeclared hsearchable).mp ⟨cs, hcs, hadmits⟩)
    · rw [Condition.comparisons_of_operators hoperators] at hcs
      exact .operators hcolumn hoperators ((exists_operatorObject_iff hdeclared hsearchable).mp ⟨cs, hcs, hadmits⟩)
  · intro h
    cases h with
    | value hcolumn hvalue hliteral =>
      rw [Condition.comparisons_of_isPlain hvalue]
      exact ⟨⟨hcolumn.plain, hcolumn.wellFormed⟩,
        (exists_equality_iff hcolumn.declared hcolumn.searchable).mpr hliteral⟩
    | operators hcolumn hoperators hentries =>
      rw [Condition.comparisons_of_operators hoperators]
      exact ⟨⟨hcolumn.plain, hcolumn.wellFormed⟩,
        (exists_operatorObject_iff hcolumn.declared hcolumn.searchable).mpr hentries⟩

/-! ## Components -/

/-- Some entry has the operation's key and an operand that decodes to the operation's. -/
def Asks (entries : List (String × Json)) (op : Operation) : Prop :=
  ∃ operand, (op.operator.key, operand) ∈ entries ∧ Literal.ofJson operand = .ok op.operand

/-- What an operation of a condition looks at on a column that is a container of some kind, or none: the elements if
its operator tests them, keys or values below their selectors, and else the whole. -/
inductive Picks (kind : Option ContainerKind) (op : Operation) : Json → Option Component → Prop
  | value {condition : Json} : op.operator = .eq → Condition.IsPlain condition →
      Literal.ofJson condition = .ok op.operand → Picks kind op condition none
  | whole {entries : List (String × Json)} : kind = none ∨ op.operator.isContainerTest = false → Asks entries op →
      Picks kind op (.object entries) none
  | listValue {entries : List (String × Json)} : kind = some .list → op.operator.isContainerTest = true →
      Asks entries op → Picks kind op (.object entries) (some .listValue)
  | setValue {entries : List (String × Json)} : kind = some .set → op.operator.isContainerTest = true →
      Asks entries op → Picks kind op (.object entries) (some .setValue)
  | mapEntry {entries : List (String × Json)} : kind = some .map → op.operator.isContainerTest = true →
      Asks entries op → Picks kind op (.object entries) (some .mapEntry)
  | mapKey {entries inner : List (String × Json)} : kind = some .map → op.operator.isContainerTest = true →
      ("$keys", .object inner) ∈ entries → Asks inner op → Picks kind op (.object entries) (some .mapKey)
  | mapValue {entries inner : List (String × Json)} : kind = some .map → op.operator.isContainerTest = true →
      ("$values", .object inner) ∈ entries → Asks inner op → Picks kind op (.object entries) (some .mapValue)

/-- A component is looked at exactly where elements of a container are tested. -/
theorem Picks.ne_none_iff {kind : Option ContainerKind} {op : Operation} {component : Option Component}
    (h : Picks kind op value component) : component ≠ none ↔ kind ≠ none ∧ op.operator.isContainerTest = true := by
  cases h with
  | value hop => simp [hop, Operator.isContainerTest]
  | whole hnone =>
    rcases hnone with hnone | htest
    · simp [hnone]
    · simp [htest]
  | listValue hkind htest | setValue hkind htest | mapEntry hkind htest => simp [hkind, htest]
  | mapKey hkind htest | mapValue hkind htest => simp [hkind, htest]

theorem picks_of_containerEntry {kind : ContainerKind} {entries : List (String × Json)} {cs : List Comparison}
    (hmem : (key, value) ∈ entries) (h : Condition.containerEntry (.table table) path kind key value = .ok cs) :
    ∀ c ∈ cs, ∃ op, c.operations = [op] ∧ Picks (some kind) op (.object entries) c.component := by
  rcases Condition.containerEntry_eq_ok.mp h with ⟨-, c, hc, rfl⟩ | ⟨selector, inner, hselector, rfl, rfl, -, hcs⟩
  · rw [List.forall_mem_singleton]
    obtain ⟨op, literal, rfl, ⟨htest, -, hl, rfl⟩ | ⟨htest, hl, rfl⟩⟩ := Condition.containerComparison_eq_ok.mp hc
    · have hasks : Asks entries ⟨op, literal⟩ := ⟨value, hmem, hl⟩
      refine ⟨⟨op, literal⟩, rfl, ?_⟩
      cases kind with
      | list => exact .listValue rfl htest hasks
      | set => exact .setValue rfl htest hasks
      | map => exact .mapEntry rfl htest hasks
    · exact ⟨⟨op, literal⟩, rfl, .whole (.inr htest) ⟨value, hmem, hl⟩⟩
  · intro c hc
    obtain ⟨⟨key', operand⟩, hinner, h⟩ := exists_left_of_forall₂ hcs c hc
    obtain ⟨op, literal, rfl, htest, hl, rfl⟩ := Condition.selectedComparison_eq_ok.mp h
    obtain rfl := Selector.key_of_ofKey? hselector
    have hasks : Asks inner ⟨op, literal⟩ := ⟨operand, hinner, hl⟩
    refine ⟨⟨op, literal⟩, rfl, ?_⟩
    cases selector with
    | keys => exact .mapKey rfl htest hmem hasks
    | values => exact .mapValue rfl htest hmem hasks

theorem picks_of_comparisons {cs : List Comparison} (h : Condition.comparisons (.table table) path value = .ok cs) :
    ∀ c ∈ cs, ∃ op, c.operations = [op] ∧
      Picks ((Schema.table table).containerKind? c.path) op value c.component := by
  intro c hc
  rw [(Condition.written_of_comparisons h c hc).2]
  rcases Condition.isPlain_or_operators value with hplain | ⟨entries, rfl, hoperators⟩
  · rw [Condition.comparisons_of_isPlain hplain] at h
    obtain ⟨literal, hl, rfl⟩ := Condition.equality_eq_ok.mp h
    rw [List.mem_singleton.mp hc]
    exact ⟨⟨.eq, literal⟩, rfl, .value rfl hplain hl⟩
  · rw [Condition.comparisons_of_operators hoperators] at h
    unfold Condition.operatorObject at h
    split at h
    · rename_i hkind
      obtain ⟨⟨key, operand⟩, hmem, h⟩ := exists_left_of_forall₂ (mapM_eq_ok.mp h) c hc
      obtain ⟨op, literal, rfl, hl, rfl⟩ := Condition.comparison_eq_ok.mp h
      exact ⟨⟨op, literal⟩, rfl, .whole (.inl hkind) ⟨operand, hmem, hl⟩⟩
    · rename_i kind hkind
      obtain ⟨lists, hlists, rfl⟩ := map_eq_ok.mp h
      obtain ⟨cs, hcs, hc⟩ := List.mem_flatten.mp hc
      obtain ⟨⟨key, operand⟩, hmem, h⟩ := exists_left_of_forall₂ (mapM_eq_ok.mp hlists) cs hcs
      rw [hkind]
      exact picks_of_containerEntry hmem h c hc

theorem isContainerTest_negated (op : Operation) :
    op.negated.operator.isContainerTest = op.operator.isContainerTest := by
  obtain ⟨operator, operand⟩ := op
  cases operator <;> rfl

/-- A comparison of a clause: one operation on a declared column, with a component exactly if it tests the elements of
a container, and that is the one that the operation, or the one it negates, looks at where the document writes it. -/
structure Tagged (table : TableSchema) (entries : List (String × Json)) (c : Comparison) (op : Operation)
    (type : ColumnType) : Prop where
  single : c.operations = [op]
  declared : table.Declares c.path type
  component : c.component ≠ none ↔ type.containerKind? ≠ none ∧ op.operator.isContainerTest = true
  place : ∃ entry ∈ entries, ∃ condition written, Document.HasCondition c.path condition entry ∧
    (op = written ∨ op = written.negated) ∧ Picks type.containerKind? written condition c.component

/-- Negation leaves column and component of a comparison with one operation. -/
theorem negated_of_single {c d : Comparison} {written : Operation} (hd : d.operations = [written])
    (h : c = d ∨ c ∈ d.negated) : c.path = d.path ∧ c.component = d.component ∧
      ∃ op, c.operations = [op] ∧ (op = written ∨ op = written.negated) := by
  rcases h with rfl | h
  · exact ⟨rfl, rfl, written, hd, .inl rfl⟩
  · rw [Comparison.negated, hd, List.map_singleton, List.mem_singleton] at h
    subst h
    exact ⟨rfl, rfl, written.negated, rfl, .inr rfl⟩

theorem exists_tagged_of_parse {filter : Option Json} {clause : Clause}
    (h : Clause.parse (.table table) limits filter = .ok clause) : ∀ c ∈ clause.expression.childrenFirst,
      ∃ entries op type, filter = some (.object entries) ∧ table.Tagged entries c op type := by
  intro c hc
  obtain ⟨type, hdeclared⟩ := TableFilter.declares_of_stems (stems_of_parse h c hc)
  obtain ⟨entries, rfl, entry, hmem, condition, d, hcondition, ⟨written, hd, hpicks⟩, horigin⟩ :=
    exists_condition_of_parse (fun _ _ _ => picks_of_comparisons) h c hc
  obtain ⟨hpath, hcomponent, op, hop, hnegated⟩ := negated_of_single hd horigin
  rw [← hpath, ← hcomponent, containerKind?_of_declares hdeclared] at hpicks
  rw [← hpath] at hcondition
  have htest : op.operator.isContainerTest = written.operator.isContainerTest := by
    rcases hnegated with rfl | rfl
    · rfl
    · exact isContainerTest_negated written
  exact ⟨entries, op, type, rfl, {
    single := hop
    declared := hdeclared
    component := htest ▸ hpicks.ne_none_iff
    place := ⟨entry, hmem, condition, written, hcondition, hnegated, hpicks⟩ }⟩

/-- **The parser of tables accepts exactly its grammar**: nothing, null, or an object whose entries are junctions,
negations and fields. Every comparison of a clause has the component that its operation looks at. -/
theorem parse_table_iff (table : TableSchema) (limits : Limits) :
    (∀ filter, (∃ clause, Clause.parse (.table table) limits filter = .ok clause) ↔
        filter = none ∨ filter = some .null ∨ ∃ entries, filter = some (.object entries) ∧
          ∀ entry ∈ entries, Document.Entry (table.Field limits) entry.1 entry.2) ∧
      ∀ filter clause, Clause.parse (.table table) limits filter = .ok clause →
        ∀ c ∈ clause.expression.childrenFirst,
          ∃ entries op type, filter = some (.object entries) ∧ table.Tagged entries c op type := by
  refine ⟨fun filter => ?_, fun filter clause => exists_tagged_of_parse⟩
  rw [parse_ok_iff readsField_iff_field]
  simp [Schema.identityPath?]

/-- A filter that rules out keys together with entries of a map. -/
def stockEntries : List (String × Json) :=
  [("$not", .object [("stock", .object [("$keys", .object [("$in", .array [.string "pens"])]),
    ("$all", .array [.array [.string "ink", .number (.int 3)]])])])]

/-- The clause of `stockEntries`. -/
def stockClause : Clause :=
  ⟨⟨.and, [⟨.or, [], [.single "stock" .notIn (.array [.string "pens"]) (some .mapKey),
      .single "stock" .notAny (.array [.array [.string "ink", .number (.int 3)]]) (some .mapEntry)]⟩], []⟩, none,
    [.missingIndex "shelves" "stock"], true⟩

theorem parse_table_iff_shelves :
    (∀ entry ∈ stockEntries, Document.Entry (TableFilter.shelves.Field {}) entry.1 entry.2) ∧
      ∀ c ∈ stockClause.expression.childrenFirst, ∃ op type, TableFilter.shelves.Tagged stockEntries c op type := by
  have hparse : Clause.parse (.table TableFilter.shelves) {} (some (.object stockEntries)) = .ok stockClause := by
    decide +kernel
  constructor
  · rcases ((parse_table_iff TableFilter.shelves {}).1 _).mp ⟨_, hparse⟩ with h | h | ⟨entries, heq, hentries⟩
    · cases h
    · cases h
    · cases heq
      exact hentries
  · intro c hc
    obtain ⟨entries, op, type, heq, htagged⟩ := (parse_table_iff TableFilter.shelves {}).2 _ _ hparse c hc
    cases heq
    exact ⟨op, type, htagged⟩

end TableSchema

end DocumentFilter
