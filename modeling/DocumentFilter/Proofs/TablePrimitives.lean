/-
The primitives of tables: what may be captured, what a capture becomes on a
column, and that a primitive stands for the very operation that it is made
from, its component and operand included.
-/
import DocumentFilter.Proofs.Resolution
import DocumentFilter.Proofs.Table

namespace DocumentFilter

namespace TableFilter

/-! ## Captures -/

/-- What may be captured under each marker. -/
inductive Captured : TableMarker → Atom → Prop
  | text {path component op s} : op ∈ range → Captured .text ⟨path, component, ⟨op, .string s⟩⟩
  | number {path component op n} : op ∈ range → Captured .number ⟨path, component, ⟨op, .number n⟩⟩
  | boolean {path component op b} : op ∈ range → Captured .boolean ⟨path, component, ⟨op, .boolean b⟩⟩
  | date {path component op t} : op ∈ range → Captured .date ⟨path, component, ⟨op, .date t⟩⟩
  | null {path component op} : op ∈ [.eq, .ne] → Captured .null ⟨path, component, ⟨op, .null⟩⟩
  | membership {path component op values} : op ∈ [.isIn, .notIn] →
      Captured .membership ⟨path, component, ⟨op, .array values⟩⟩
  | contains {path component op values} : op ∈ [.all, .notAny] →
      Captured .contains ⟨path, component, ⟨op, .array values⟩⟩

theorem captured_of_captures {capture : Capture TableMarker} (h : capture ∈ captures) {a : Atom}
    (hcovers : capture.Covers a) : Captured capture.marker a := by
  obtain ⟨path, component, op, operand⟩ := a
  obtain ⟨-, hop, hkind⟩ := hcovers
  simp only [captures, List.mem_cons, List.not_mem_nil, or_false] at h
  rcases h with rfl | rfl | rfl | rfl | rfl | rfl | rfl <;> cases operand <;> cases hkind
  · exact .text hop
  · exact .number hop
  · exact .boolean hop
  · exact .date hop
  · exact .null hop
  · exact .membership hop
  · exact .contains hop

theorem captured_of_rules {table : TableSchema} {rule : Rule TableMarker TableFilter}
    (hrule : rule ∈ (rules table).rules) {capture : Capture TableMarker} (h : capture ∈ rule.matcher.captures)
    {a : Atom} (hcovers : capture.Covers a) : Captured capture.marker a := by
  simp only [rules, RuleTable.rules, List.mem_cons, List.not_mem_nil, or_false] at hrule
  rcases hrule with rfl | rfl
  · cases h
  · exact captured_of_captures h hcovers

/-! ## Primitives of atoms -/

/-- The primitive of an atom captured under a marker. -/
def translate (table : TableSchema) (marker : TableMarker) (a : Atom) : Except FilterError TableFilter := do
  let type ← table.columnType a.path
  ofOperation marker a.path type a.component a.operation

/-- The ways to a primitive, by component and marker. -/
theorem ofOperation_cases {marker : TableMarker} {column : String} {type : ColumnType}
    {component : Option Component} {op : Operation} {p : TableFilter}
    (h : ofOperation marker column type component op = .ok p) :
    (∃ selected, component = some selected ∧ (marker = .membership ∨ marker = .contains) ∧
        ofElements column type selected op = .ok p) ∨
      (component = none ∧ marker = .membership ∧ ofMembership column type op = .ok p) ∨
      (component = none ∧ marker = .null ∧ ∃ test : EqualityTest, op.operator = test.operator ∧
        p = .isNull column test) ∨
      (component = none ∧ marker ∈ [.text, .number, .boolean, .date] ∧ ofValue column type op = .ok p) := by
  unfold ofOperation at h
  split at h
  · exact .inl ⟨_, rfl, .inl rfl, h⟩
  · exact .inl ⟨_, rfl, .inr rfl, h⟩
  · cases h
  · cases h
  · exact .inr (.inl ⟨rfl, rfl, h⟩)
  · obtain ⟨test, htest, rfl⟩ := map_eq_ok.mp h
    exact .inr (.inr (.inl ⟨rfl, rfl, test, EqualityTest.ofOperator_eq_ok.mp htest, rfl⟩))
  all_goals exact .inr (.inr (.inr ⟨rfl, by simp, h⟩))

theorem translate_eq_ok {table : TableSchema} {marker : TableMarker} {a : Atom} {p : TableFilter} :
    translate table marker a = .ok p ↔
      ∃ type, table.Declares a.path type ∧ ofOperation marker a.path type a.component a.operation = .ok p := by
  simp only [translate, bind_eq_ok, TableSchema.columnType_eq_ok]

/-- The operation that a primitive stands for. -/
inductive StandsFor : TableFilter → Atom → Prop
  | native (column type test value) :
      StandsFor (.native column type test value) ⟨column, none, ⟨test.operator, value⟩⟩
  | isNull (column test) : StandsFor (.isNull column test) ⟨column, none, ⟨test.operator, .null⟩⟩
  | isIn (column type test values) :
      StandsFor (.isIn column type test values) ⟨column, none, ⟨test.operator, .array values⟩⟩
  | elements (column component test values) :
      StandsFor (.elements column component test values) ⟨column, some component, ⟨test.operator, .array values⟩⟩
  | entries (column test pairs) : StandsFor (.entries column test pairs)
      ⟨column, some .mapEntry, ⟨test.operator, .array (pairs.map entryLiteral)⟩⟩

/-- A primitive stands for the operation that it is made from. -/
theorem standsFor_of_translate {table : TableSchema} {marker : TableMarker} {a : Atom} {p : TableFilter}
    (hcaptured : Captured marker a) (h : translate table marker a = .ok p) : StandsFor p a := by
  obtain ⟨type, -, h⟩ := translate_eq_ok.mp h
  obtain ⟨path, component, op, operand⟩ := a
  rcases ofOperation_cases h with ⟨selected, heq, -, h⟩ | ⟨heq, -, h⟩ | ⟨heq, hmarker, test, htest, rfl⟩ | ⟨heq, -, h⟩
  · cases heq
    obtain ⟨values, test, rfl, rfl, htests⟩ := ofElements_eq_ok.mp h
    rcases htests with ⟨rfl, -, -⟩ | ⟨-, -⟩
    · exact .entries path test _
    · exact .elements path selected test values
  · cases heq
    obtain ⟨scalar, values, test, -, rfl, -, rfl, rfl⟩ := ofMembership_eq_ok.mp h
    exact .isIn path type test values
  · cases heq
    cases hmarker
    obtain rfl := htest
    cases hcaptured
    exact .isNull path test
  · cases heq
    obtain ⟨scalar, test, -, -, rfl, rfl⟩ := ofValue_eq_ok.mp h
    exact .native path type test operand

/-! ## Groups -/

theorem ofSite_eq {table : TableSchema} {marker : TableMarker} {site : CaptureSite} {type : ColumnType}
    (h : table.Declares site.path type) :
    ofSite table marker site = (site.atoms.map (marker, ·)).mapM fun x => translate table x.1 x.2 := by
  have hcolumn : table.columnType site.path = .ok type := TableSchema.columnType_eq_ok.mpr h
  rw [ofSite, hcolumn, CaptureSite.atoms, List.mapM_map, List.mapM_map]
  refine congrArg (fun f => site.operations.mapM f) ?_
  funext op
  simp only [Function.comp_apply, translate, hcolumn]
  rfl

/-- A group on declared columns becomes what its entries become. -/
theorem ofGroup_eq {table : TableSchema} {group : CaptureGroup TableMarker}
    (h : ∀ site ∈ group.sites, ∃ type, table.Declares site.path type) :
    ofGroup table group = group.entries.mapM fun x => translate table x.1 x.2 := by
  have hentries : group.entries = group.sites.flatMap fun site => site.atoms.map (group.marker, ·) :=
    List.map_flatMap ..
  rw [hentries, mapM_flatMap, ofGroup]
  refine congrArg (Except.map List.flatten) (mapM_congr_of_mem fun site hsite => ?_)
  obtain ⟨type, hdeclared⟩ := h site hsite
  exact ofSite_eq hdeclared

theorem entryWise_ofGroup (table : TableSchema) : FilterTree.EntryWise (ofGroup table) (translate table) := by
  intro group list h
  have hdeclared : ∀ site ∈ group.sites, ∃ type, table.Declares site.path type := by
    intro site hsite
    obtain ⟨lists, hlists, -⟩ := map_eq_ok.mp h
    obtain ⟨own, -, hown⟩ := exists_right_of_forall₂ (mapM_eq_ok.mp hlists) site hsite
    obtain ⟨type, htype, -⟩ := bind_eq_ok.mp hown
    exact ⟨type, TableSchema.columnType_eq_ok.mp htype⟩
  rw [ofGroup_eq hdeclared] at h
  exact mapM_eq_ok.mp h

/-! ## Rules -/

theorem build_eq_of_rules (table : TableSchema) (rule : Rule TableMarker TableFilter)
    (hrule : rule ∈ (rules table).rules) (e : Expression) (t : CaptureTree TableMarker)
    (h : rule.matcher.apply e = .ok t) : rule.build t = FilterTree.build (ofGroup table) t := by
  simp only [rules, RuleTable.rules, List.mem_cons, List.not_mem_nil, or_false] at hrule
  rcases hrule with rfl | rfl
  · simp only [emptyRule, Matcher.apply] at h
    split at h <;> cases h
    rfl
  · rfl

end TableFilter

end DocumentFilter
