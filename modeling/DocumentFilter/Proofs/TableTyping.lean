/-
The rules of tables are directed by the columns' types, soundly and
completely (`resolve_typeDirected`).

Whatever the clause, a primitive is made only where the type of its column
allows it (`WellTyped`). A clause parsed for the table resolves exactly if
every comparison `Fits` its column: the captures then take it, no check on
the type or the values fails, and only the limit on primitives is left.
-/
import DocumentFilter.Proofs.Clause
import DocumentFilter.Proofs.Coverage
import DocumentFilter.Proofs.TablePrimitives

namespace DocumentFilter

namespace TableFilter

/-! ## Soundness -/

/-- The primitive is on a declared column, and column and values are of types that it makes sense for. -/
inductive WellTyped (table : TableSchema) : TableFilter → Prop
  | native {column scalar test value} : table.Declares column (.scalar scalar) →
      scalar.accepts value.kind = true → WellTyped table (.native column (.scalar scalar) test value)
  | isNull {column type test} : table.Declares column type → WellTyped table (.isNull column test)
  | isIn {column scalar test values} : table.Declares column (.scalar scalar) →
      (∀ value ∈ values, scalar.accepts value.kind = true) →
      WellTyped table (.isIn column (.scalar scalar) test values)
  | elements {column type component element test values} : table.Declares column type →
      Selects component type element → element.AcceptsAll values →
      WellTyped table (.elements column component test values)
  | entries {column keyType valueType test pairs} : table.Declares column (.map keyType valueType) →
      AreEntries keyType valueType pairs → WellTyped table (.entries column test pairs)

theorem wellTyped_of_translate {table : TableSchema} {marker : TableMarker} {a : Atom} {p : TableFilter}
    (h : translate table marker a = .ok p) : WellTyped table p := by
  obtain ⟨type, hdeclared, h⟩ := translate_eq_ok.mp h
  rcases ofOperation_cases h with ⟨selected, -, -, h⟩ | ⟨-, -, h⟩ | ⟨-, -, test, -, rfl⟩ | ⟨-, -, h⟩
  · obtain ⟨values, test, -, -, htests⟩ := ofElements_eq_ok.mp h
    rcases htests with ⟨-, rfl, hpairs⟩ | ⟨hselects, haccepts⟩
    · exact .entries hdeclared hpairs
    · exact .elements hdeclared hselects haccepts
  · obtain ⟨scalar, values, test, rfl, -, haccepts, -, rfl⟩ := ofMembership_eq_ok.mp h
    exact .isIn hdeclared haccepts
  · exact .isNull hdeclared
  · obtain ⟨scalar, test, rfl, haccepts, -, rfl⟩ := ofValue_eq_ok.mp h
    exact .native hdeclared haccepts

/-! ## What fits -/

/-- The comparison asks of a column what its type allows: an order or equality of a scalar with a value it
accepts, equality with null, a list of values that a scalar accepts, or a test of what a component selects. -/
inductive Fits (table : TableSchema) : Comparison → Prop
  | value {column op operand scalar} : op ∈ range → operand.kind ∈ [.string, .number, .boolean, .date] →
      table.Declares column (.scalar scalar) → scalar.accepts operand.kind = true →
      Fits table (.single column op operand)
  | null {column op} : op ∈ [.eq, .ne] → Fits table (.single column op .null)
  | members {column op values scalar} : op ∈ [.isIn, .notIn] → table.Declares column (.scalar scalar) →
      (∀ value ∈ values, scalar.accepts value.kind = true) → Fits table (.single column op (.array values))
  | elements {column op values component type element} : op ∈ [.isIn, .notIn, .all, .notAny] →
      table.Declares column type → Selects component type element → element.AcceptsAll values →
      Fits table (.single column op (.array values) (some component))
  | entries {column op pairs keyType valueType} : op ∈ [.isIn, .notIn, .all, .notAny] →
      table.Declares column (.map keyType valueType) → AreEntries keyType valueType pairs →
      Fits table (.single column op (.array (pairs.map entryLiteral)) (some .mapEntry))

/-- What a capture took and the types allowed fits. -/
theorem fits_of_translate {table : TableSchema} {marker : TableMarker} {path : String}
    {component : Option Component} {op : Operation} {p : TableFilter}
    (hcaptured : Captured marker ⟨path, component, op⟩) (h : translate table marker ⟨path, component, op⟩ = .ok p) :
    Fits table ⟨path, [op], component⟩ := by
  obtain ⟨type, hdeclared, h⟩ := translate_eq_ok.mp h
  rcases ofOperation_cases h with ⟨selected, heq, hmarker, h⟩ | ⟨heq, hmarker, h⟩ | ⟨heq, hmarker, test, -, rfl⟩ |
    ⟨heq, hmarker, h⟩
  · cases heq
    obtain ⟨values, test, hvalues, -, htests⟩ := ofElements_eq_ok.mp h
    obtain ⟨operator, operand⟩ := op
    obtain rfl : operand = .array values := hvalues
    have hop : operator ∈ [Operator.isIn, .notIn, .all, .notAny] := by
      rcases hmarker with rfl | rfl <;> cases hcaptured <;> rename_i hop <;> simp at hop ⊢ <;> tauto
    rcases htests with ⟨rfl, rfl, hpairs⟩ | ⟨hselects, haccepts⟩
    · exact .entries hop hdeclared hpairs
    · exact .elements hop hdeclared hselects haccepts
  · cases heq
    cases hmarker
    obtain ⟨scalar, values, test, rfl, hvalues, haccepts, -, -⟩ := ofMembership_eq_ok.mp h
    cases hcaptured with | membership hop
    cases hvalues
    exact .members hop hdeclared haccepts
  · cases heq
    cases hmarker
    cases hcaptured with | null hop
    exact .null hop
  · cases heq
    obtain ⟨scalar, test, rfl, haccepts, -, -⟩ := ofValue_eq_ok.mp h
    cases hcaptured with
    | text hop | number hop | boolean hop | date hop =>
      exact .value hop (by simp [Literal.kind]) hdeclared haccepts
    | null | membership | contains => simp at hmarker

/-- What fits is captured. -/
theorem exists_capture_of_fits {table : TableSchema} {c : Comparison} (h : Fits table c) :
    ∃ capture ∈ captures, capture.accepts c = true := by
  cases h with
  | @value column op operand scalar hop hkind _ _ =>
    have hcapture : ∃ capture ∈ captures, capture.path = Path.wildcard ∧ capture.operators = range ∧
        capture.kind = operand.kind := by
      cases operand <;> simp [Literal.kind] at hkind <;> simp [captures, Literal.kind]
    obtain ⟨capture, hmem, hpath, hoperators, hcapture⟩ := hcapture
    exact ⟨capture, hmem, Capture.accepts_single.mpr ⟨.inl hpath, hoperators ▸ hop, hcapture.symm⟩⟩
  | null hop =>
    exact ⟨⟨.null, Path.wildcard, [.eq, .ne], .null⟩, by simp [captures],
      Capture.accepts_single.mpr ⟨.inl rfl, hop, rfl⟩⟩
  | members hop =>
    exact ⟨⟨.membership, Path.wildcard, [.isIn, .notIn], .array⟩, by simp [captures],
      Capture.accepts_single.mpr ⟨.inl rfl, hop, rfl⟩⟩
  | elements hop | entries hop =>
    rcases List.mem_append.mp (show _ ∈ [Operator.isIn, .notIn] ++ [.all, .notAny] from hop) with hop | hop
    · exact ⟨⟨.membership, Path.wildcard, [.isIn, .notIn], .array⟩, by simp [captures],
        Capture.accepts_single.mpr ⟨.inl rfl, hop, rfl⟩⟩
    · exact ⟨⟨.contains, Path.wildcard, [.all, .notAny], .array⟩, by simp [captures],
        Capture.accepts_single.mpr ⟨.inl rfl, hop, rfl⟩⟩

/-- A test on a component is made whichever capture took it. -/
theorem exists_translate_component {table : TableSchema} {marker : TableMarker} {path : String}
    {selected : Component} {op : Operation} {values : List Literal} {type : ColumnType} {test : ContainerTest}
    {p : TableFilter} (hcaptured : Captured marker ⟨path, some selected, op⟩) (hdeclared : table.Declares path type)
    (hvalues : op.operand = .array values) (htest : op.operator = test.operator)
    (h : Tests path type selected test values p) : translate table marker ⟨path, some selected, op⟩ = .ok p := by
  have helements : ofElements path type selected op = .ok p :=
    ofElements_eq_ok.mpr ⟨values, test, hvalues, htest, h⟩
  obtain ⟨operator, operand⟩ := op
  obtain rfl : operand = .array values := hvalues
  cases hcaptured <;> exact translate_eq_ok.mpr ⟨type, hdeclared, helements⟩

/-- What fits is made into a primitive by whatever captured it. -/
theorem exists_translate {table : TableSchema} {marker : TableMarker} {path : String} {component : Option Component}
    {op : Operation} {type : ColumnType} (hfits : Fits table ⟨path, [op], component⟩)
    (hdeclared : table.Declares path type) (hcaptured : Captured marker ⟨path, component, op⟩) :
    ∃ p, translate table marker ⟨path, component, op⟩ = .ok p := by
  cases hfits with
  | @value _ operator operand scalar hop hkind hscalar haccepts =>
    obtain ⟨test, htest⟩ := ComparisonTest.exists_of_mem hop
    have hvalue : ofValue path (.scalar scalar) ⟨operator, operand⟩ =
        .ok (.native path (.scalar scalar) test operand) :=
      ofValue_eq_ok.mpr ⟨scalar, test, rfl, haccepts, ComparisonTest.ofOperator_eq_ok.mp htest, rfl⟩
    cases hcaptured with
    | text | number | boolean | date => exact ⟨_, translate_eq_ok.mpr ⟨_, hscalar, hvalue⟩⟩
    | null | membership | contains => simp [Literal.kind] at hkind
  | null hop =>
    obtain ⟨test, htest⟩ := EqualityTest.exists_of_mem hop
    cases hcaptured
    exact ⟨_, translate_eq_ok.mpr ⟨type, hdeclared, map_eq_ok.mpr ⟨test, htest, rfl⟩⟩⟩
  | @members _ operator values scalar hop hscalar haccepts =>
    obtain ⟨test, htest⟩ := MembershipTest.exists_of_mem hop
    have hmembers : ofMembership path (.scalar scalar) ⟨operator, .array values⟩ =
        .ok (.isIn path (.scalar scalar) test values) :=
      ofMembership_eq_ok.mpr ⟨scalar, values, test, rfl, rfl, haccepts,
        MembershipTest.ofOperator_eq_ok.mp htest, rfl⟩
    cases hcaptured with
    | membership => exact ⟨_, translate_eq_ok.mpr ⟨_, hscalar, hmembers⟩⟩
    | contains hop' => simp at hop hop'; rcases hop with rfl | rfl <;> simp at hop'
  | elements hop hcolumn hselects haccepts =>
    obtain ⟨test, htest⟩ := ContainerTest.exists_of_mem hop
    exact ⟨_, exists_translate_component hcaptured hcolumn rfl (ContainerTest.ofOperator_eq_ok.mp htest)
      (.elements hselects haccepts)⟩
  | entries hop hcolumn hpairs =>
    obtain ⟨test, htest⟩ := ContainerTest.exists_of_mem hop
    exact ⟨_, exists_translate_component hcaptured hcolumn rfl (ContainerTest.ofOperator_eq_ok.mp htest)
      (.entries rfl rfl hpairs)⟩

/-! ## Errors of translation -/

/-- The computation does not fail by the limit on primitives. -/
def Unlimited {α : Type} (x : Except FilterError α) : Prop := ∀ max actual, x ≠ .error (.tooManyFilters max actual)

section Unlimited

variable {α β : Type}

theorem unlimited_ok (a : α) : Unlimited (.ok a : Except FilterError α) := fun _ _ h => by cases h

theorem Unlimited.bind {x : Except FilterError α} {f : α → Except FilterError β} (hx : Unlimited x)
    (hf : ∀ a, Unlimited (f a)) : Unlimited (x >>= f) := by
  intro max actual h
  rcases bind_eq_error.mp h with h | ⟨a, -, h⟩
  · exact hx max actual h
  · exact hf a max actual h

theorem unlimited_mapM {f : α → Except FilterError β} (hf : ∀ a, Unlimited (f a)) (l : List α) :
    Unlimited (l.mapM f) := by
  intro max actual h
  obtain ⟨a, -, h⟩ := mapM_eq_error h
  exact hf a max actual h

theorem unlimited_map {x : Except FilterError α} {f : α → β} (hx : Unlimited x) : Unlimited (x.map f) := by
  intro max actual h
  cases x with
  | ok a => cases h
  | error err =>
    obtain rfl := Except.error.inj h
    exact hx max actual rfl

end Unlimited

section Errors

variable {column : String} {type : ColumnType} {op : Operation}

theorem unlimited_checkValues {values : List Literal} : Unlimited (checkValues column type values) := by
  unfold checkValues
  split <;> exact fun _ _ h => by cases h

theorem unlimited_checkScalar {operator : Operator} : Unlimited (checkScalar column type operator) := by
  unfold checkScalar
  split <;> exact fun _ _ h => by cases h

theorem unlimited_listOperand : Unlimited (listOperand column op) := by
  unfold listOperand
  split <;> exact fun _ _ h => by cases h

theorem unlimited_comparison {operator : Operator} : Unlimited (ComparisonTest.ofOperator operator) :=
  fun _ _ h => by cases operator <;> cases h

theorem unlimited_membership {operator : Operator} : Unlimited (MembershipTest.ofOperator operator) :=
  fun _ _ h => by cases operator <;> cases h

theorem unlimited_equality {operator : Operator} : Unlimited (EqualityTest.ofOperator operator) :=
  fun _ _ h => by cases operator <;> cases h

theorem unlimited_container {operator : Operator} : Unlimited (ContainerTest.ofOperator operator) :=
  fun _ _ h => by cases operator <;> cases h

theorem unlimited_entry {keyType valueType : ColumnType} {operator : Operator} {literal : Literal} :
    Unlimited (entry column keyType valueType operator literal) := by
  unfold entry
  split
  · exact unlimited_checkValues.bind fun _ => unlimited_checkValues.bind fun _ => unlimited_ok _
  · exact fun _ _ h => by cases h

theorem unlimited_ofValue : Unlimited (ofValue column type op) :=
  unlimited_checkScalar.bind fun _ => unlimited_checkValues.bind fun _ =>
    unlimited_comparison.bind fun _ => unlimited_ok _

theorem unlimited_ofMembership : Unlimited (ofMembership column type op) :=
  unlimited_checkScalar.bind fun _ => unlimited_listOperand.bind fun _ =>
    unlimited_checkValues.bind fun _ => unlimited_membership.bind fun _ => unlimited_ok _

theorem unlimited_ofElements {component : Component} : Unlimited (ofElements column type component op) := by
  refine unlimited_listOperand.bind fun values => unlimited_container.bind fun test => ?_
  split
  · exact (unlimited_mapM (fun _ => unlimited_entry) values).bind fun _ => unlimited_ok _
  · split
    · exact unlimited_checkValues.bind fun _ => unlimited_ok _
    · exact fun _ _ h => by cases h

theorem unlimited_ofOperation {marker : TableMarker} {component : Option Component} :
    Unlimited (ofOperation marker column type component op) := by
  unfold ofOperation
  split
  · exact unlimited_ofElements
  · exact unlimited_ofElements
  · exact fun _ _ h => by cases h
  · exact fun _ _ h => by cases h
  · exact unlimited_ofMembership
  · exact unlimited_map unlimited_equality
  all_goals exact unlimited_ofValue

theorem unlimited_translate {table : TableSchema} {marker : TableMarker} {a : Atom} :
    Unlimited (translate table marker a) := by
  have hcolumn : Unlimited (table.columnType a.path) := by
    unfold TableSchema.columnType
    split <;> exact fun _ _ h => by cases h
  exact hcolumn.bind fun _ => unlimited_ofOperation

end Errors

section Parsed

variable {table : TableSchema} {limits : Limits} {filter : Option Json} {clause : Clause}

/-- A clause parsed for the table asks of declared columns only. -/
theorem declares_of_stems {c : Comparison} (h : Stems (.table table) limits c) :
    ∃ type, table.Declares c.path type := by
  have checked {c : Comparison} (h : Contents.Accepted (.table table) c) : ∃ type, table.Declares c.path type := by
    obtain ⟨warning, hcheck⟩ := h.checked
    obtain ⟨type, htype, -⟩ := bind_eq_ok.mp hcheck
    exact ⟨type, TableSchema.columnType_eq_ok.mp htype⟩
  cases h with
  | kept haccepted _ => exact checked haccepted
  | negated haccepted _ =>
    obtain ⟨type, hdeclared⟩ := checked haccepted
    exact ⟨type, hdeclared⟩

theorem mem_atoms_of_stems {c : Comparison} (h : Stems (.table table) limits c) {a : Atom} (ha : a ∈ c.atoms) :
    c = ⟨a.path, [a.operation], a.component⟩ := by
  obtain ⟨op, hop⟩ := h.single
  obtain ⟨path, operations, component⟩ := c
  obtain rfl : operations = [op] := hop
  rw [List.mem_singleton.mp ha]

/-- What a rule builds a tree for fits. -/
theorem fits_of_build (h : Clause.parse (.table table) limits filter = .ok clause)
    {rule : Rule TableMarker TableFilter} (hrule : rule ∈ (rules table).rules) {t : CaptureTree TableMarker}
    (hmatch : rule.matcher.apply clause.expression = .ok t) {tree : FilterTree TableFilter}
    (hbuild : FilterTree.build (ofGroup table) t = .ok tree) :
    ∀ c ∈ clause.expression.childrenFirst, Fits table c := by
  intro c hc
  have hstems := stems_of_parse h c hc
  have hsorts := Matcher.sorts_of_apply hmatch (parse_shape h).1
  obtain ⟨op, hop⟩ := hstems.single
  have ha : (⟨c.path, c.component, op⟩ : Atom) ∈ c.atoms := Comparison.mem_atoms.mpr ⟨rfl, rfl, by simp [hop]⟩
  obtain ⟨capture, hcapture, hcovers, p, hp⟩ :=
    FilterTree.translated_of_build (entryWise_ofGroup table) hsorts hbuild c hc _ ha
  rw [mem_atoms_of_stems hstems ha]
  exact fits_of_translate (captured_of_rules hrule hcapture hcovers) hp

/-- Where a rule matches and builds no tree, some comparison does not fit. -/
theorem unfit_of_build (h : Clause.parse (.table table) limits filter = .ok clause)
    {rule : Rule TableMarker TableFilter} (hrule : rule ∈ (rules table).rules) {t : CaptureTree TableMarker}
    (hmatch : rule.matcher.apply clause.expression = .ok t) {err : FilterError}
    (hbuild : FilterTree.build (ofGroup table) t = .error err) :
    (∀ max actual, err ≠ .tooManyFilters max actual) ∧ ¬ ∀ c ∈ clause.expression.childrenFirst, Fits table c := by
  have hstems := stems_of_parse h
  -- All sites of a group are declared, so a group fails by one of its entries.
  have hfail : ∀ group, group.StandsOn (clause.expression.childrenFirst.map (·.path)) →
      ofGroup table group = .error err → ∃ x ∈ group.entries, translate table x.1 x.2 = .error err := by
    intro group hpaths herr
    have hdeclared : ∀ site ∈ group.sites, ∃ type, table.Declares site.path type := by
      intro site hsite
      obtain ⟨c, hc, hpath⟩ := List.mem_map.mp (hpaths site hsite)
      rw [← hpath]
      exact declares_of_stems (hstems c hc)
    rw [ofGroup_eq hdeclared] at herr
    exact mapM_eq_error herr
  have hsorts := Matcher.sorts_of_apply hmatch (parse_shape h).1
  obtain ⟨c, hc, a, ha, capture, hcapture, hcovers, herr⟩ := FilterTree.untranslated_of_build hfail hsorts hbuild
  constructor
  · intro max actual hlimit
    rw [hlimit] at herr
    exact unlimited_translate max actual herr
  · intro hfits
    obtain ⟨type, hdeclared⟩ := declares_of_stems (hstems c hc)
    have hcomparison := mem_atoms_of_stems (hstems c hc) ha
    have hfit := hfits c hc
    rw [hcomparison] at hfit hdeclared
    obtain ⟨p, hp⟩ := exists_translate hfit hdeclared (captured_of_rules hrule hcapture hcovers)
    cases herr.symm.trans hp

/-- Where the general rule does not match, some comparison does not fit. -/
theorem unfit_of_unmatched (h : Clause.parse (.table table) limits filter = .ok clause) {failure : MatchFailure}
    (hfailure : (generalRule table).matcher.apply clause.expression = .error failure) :
    ¬ ∀ c ∈ clause.expression.childrenFirst, Fits table c := by
  intro hfits
  rcases Matcher.apply_greedy captures (parse_shape h).2 with ⟨-, t, hmatch⟩ | ⟨c, n, hc, -⟩
  · cases hmatch.symm.trans hfailure
  · obtain ⟨capture, hcapture, haccepts⟩ := exists_capture_of_fits (hfits c (List.mem_of_find?_eq_some hc))
    have huncovered : Matcher.isUncovered captures c = true := List.find?_some hc
    have hrefuses := List.all_eq_true.mp huncovered capture hcapture
    simp [haccepts] at hrefuses

/-- The rules build a tree exactly for what fits; else they fail, but not by the limit on primitives. -/
theorem apply_rules_cases (h : Clause.parse (.table table) limits filter = .ok clause) :
    ((∃ tree, (rules table).apply clause.expression = .ok tree) ∧
        ∀ c ∈ clause.expression.childrenFirst, Fits table c) ∨
      ∃ err, (rules table).apply clause.expression = .error err ∧
        (∀ max actual, err ≠ .tooManyFilters max actual) ∧
        ¬ ∀ c ∈ clause.expression.childrenFirst, Fits table c := by
  rcases (rules table).apply_cases clause.expression with ⟨rule, hrule, t, hmatch, happly⟩ |
    ⟨-, last, failure, hlast, hfailure, happly⟩
  · rw [build_eq_of_rules table rule hrule _ t hmatch] at happly
    cases hbuild : FilterTree.build (ofGroup table) t with
    | ok tree => exact .inl ⟨⟨tree, happly.trans hbuild⟩, fits_of_build h hrule hmatch hbuild⟩
    | error err => exact .inr ⟨err, happly.trans hbuild, unfit_of_build h hrule hmatch hbuild⟩
  · obtain rfl : generalRule table = last := Option.some.inj hlast
    exact .inr ⟨_, happly, by simp, unfit_of_unmatched h hfailure⟩

end Parsed

/-- **Tables resolve what their types allow, and all of it.** Every primitive of a resolved clause, whatever the
clause was parsed for, is on a declared column of a type that it makes sense for, with values that the type accepts.
A clause parsed for the table resolves, or fails by the limit on primitives only, exactly if all its comparisons
fit their columns. -/
theorem resolve_typeDirected (table : TableSchema) :
    (∀ limits clause r, resolve table limits clause = .ok r → ∀ p ∈ r.tree.filters, WellTyped table p) ∧
      ∀ limits limits' filter clause, Clause.parse (.table table) limits filter = .ok clause →
        ((∀ err, resolve table limits' clause = .error err → ∃ max actual, err = .tooManyFilters max actual) ↔
          ∀ c ∈ clause.expression.childrenFirst, Fits table c) := by
  constructor
  · intro limits clause r h p hp
    obtain ⟨rule, -, t, -, hbuild⟩ := RuleTable.built_of_resolve (build_eq_of_rules table) h
    obtain ⟨marker, a, ha⟩ := FilterTree.translated_of_mem (entryWise_ofGroup table) hbuild p hp
    exact wellTyped_of_translate ha
  · intro limits limits' filter clause h
    rcases apply_rules_cases h with ⟨⟨tree, htree⟩, hfits⟩ | ⟨failure, hfailure, hunlimited, hunfit⟩
    · refine ⟨fun _ => hfits, fun _ err herr => ?_⟩
      rcases RuleTable.resolve_of_apply_ok limits' htree with ⟨r, hok⟩ | ⟨max, actual, hmany⟩
      · cases herr.symm.trans hok
      · exact ⟨max, actual, Except.error.inj (herr.symm.trans hmany)⟩
    · refine ⟨fun hlimit => ?_, fun hfits => absurd hfits hunfit⟩
      obtain ⟨max, actual, hmany⟩ := hlimit failure (RuleTable.resolve_of_apply_error limits' hfailure)
      exact absurd hmany (hunlimited max actual)

/-- A table with a scalar, a list and a map. -/
def shelves : TableSchema :=
  { name := "shelves", columns := [⟨"label", .scalar .text⟩, ⟨"tags", .list (.scalar .text)⟩,
      ⟨"stock", .map (.scalar .text) (.scalar .int)⟩] }

/-- A filter that asks of each column of `shelves` what its type allows. -/
def shelvesFilter : Json :=
  .object [("label", .object [("$gte", .string "b")]),
    ("$not", .object [("tags", .object [("$in", .array [.string "new"])])]),
    ("stock", .object [("$all", .array [.array [.string "pens", .number (.int 12)]])])]

/-- The clause of `shelvesFilter`. -/
def shelvesClause : Clause :=
  ⟨⟨.and, [⟨.and, [], [.single "tags" .notIn (.array [.string "new"]) (some .listValue)]⟩],
    [.single "label" .gte (.string "b"),
      .single "stock" .all (.array [.array [.string "pens", .number (.int 12)]]) (some .mapEntry)]⟩, none,
    [.missingIndex "shelves" "label", .missingIndex "shelves" "tags", .missingIndex "shelves" "stock"], true⟩

theorem parse_shelvesFilter : Clause.parse (.table shelves) {} (some shelvesFilter) = .ok shelvesClause := by
  decide +kernel

theorem resolve_typeDirected_shelves :
    (∃ r, resolve shelves {} shelvesClause = .ok r ∧ ∀ p ∈ r.tree.filters, WellTyped shelves p) ∧
      ∀ c ∈ shelvesClause.expression.childrenFirst, Fits shelves c :=
  have hresolve : resolve shelves {} shelvesClause = .ok _ := rfl
  ⟨⟨_, hresolve, (resolve_typeDirected shelves).1 {} _ _ hresolve⟩,
    ((resolve_typeDirected shelves).2 {} {} _ _ parse_shelvesFilter).mp fun err herr => by
      cases hresolve.symm.trans herr⟩

end TableFilter

end DocumentFilter
