/-
The primitives of collections: what each stands for, and that a capture always
has one.

An operation of a clause that was captured becomes a primitive, and that stands
for the very operation: operator, path and operand can be read off it, of a
size the value and the sign of the count.
-/
import DocumentFilter.Proofs.Collection

namespace DocumentFilter

namespace CollectionFilter

/-! ## Primitives -/

/-- The operation that a primitive stands for; that of a size has any number of the same value as operand. -/
inductive StandsFor : CollectionFilter → Atom → Prop
  | id (test id) :
      StandsFor (.id test id) ⟨CollectionSchema.identityPath, none, ⟨test.operator, .documentId id⟩⟩
  | idIn (test ids) : StandsFor (.idIn test ids)
      ⟨CollectionSchema.identityPath, none, ⟨test.operator, .array (ids.map Literal.documentId)⟩⟩
  | isIn (path test values) : StandsFor (.isIn path test values) ⟨path, none, ⟨test.operator, .array values⟩⟩
  | number (path test n) : StandsFor (.number path test n) ⟨path, none, ⟨test.operator, .number n⟩⟩
  | text (path test s) : StandsFor (.text path test s) ⟨path, none, ⟨test.operator, .string s⟩⟩
  | bool (path test b) : StandsFor (.bool path test b) ⟨path, none, ⟨test.operator, .boolean b⟩⟩
  | isNull (path test) : StandsFor (.isNull path test) ⟨path, none, ⟨test.operator, .null⟩⟩
  | date (path test t) : StandsFor (.date path test t) ⟨path, none, ⟨test.operator, .date t⟩⟩
  | presence (path b) : StandsFor (.presence path b) ⟨path, none, ⟨.present, .boolean b⟩⟩
  | all (path values) : StandsFor (.all path values false) ⟨path, none, ⟨.all, .array values⟩⟩
  | notAny (path values) : StandsFor (.all path values true) ⟨path, none, ⟨.notAny, .array values⟩⟩
  | size (path) {n x} : n.toBinary64? = some x → x.isIntegral = true →
      StandsFor (.size path x.wholePart x.negative) ⟨path, none, ⟨.size, .number n⟩⟩
  | arrayEquals (path test values) :
      StandsFor (.arrayEquals path test values) ⟨path, none, ⟨test.operator, .array values⟩⟩
  | subDocumentEquals (path test value) :
      StandsFor (.subDocumentEquals path test value) ⟨path, none, ⟨test.operator, .subDocument value⟩⟩

/-- The primitive of an atom captured under a marker. -/
def translate (marker : CollectionMarker) (a : Atom) : Except FilterError CollectionFilter :=
  ofOperation marker a.path a.operation

theorem documentIds_eq_ok {values : List Literal} {ids : List DocumentId} (h : documentIds values = .ok ids) :
    values = ids.map Literal.documentId := by
  have hids := mapM_eq_ok.mp h
  rw [← List.forall₂_eq_eq_eq, List.forall₂_map_right_iff]
  refine hids.imp fun value id hid => ?_
  split at hid
  · cases hid
    rfl
  · cases hid

theorem exists_documentIds {values : List Literal} (h : ∀ value ∈ values, value.IsId) :
    ∃ ids, documentIds values = .ok ids := by
  refine exists_mapM_eq_ok fun value hvalue => ?_
  obtain ⟨id, rfl⟩ := h value hvalue
  exact ⟨id, rfl⟩

/-- A primitive stands for the operation that it is made from. -/
theorem standsFor_of_translate {marker : CollectionMarker} {a : Atom} {p : CollectionFilter}
    (hcaptured : Captured marker a) (hwhole : a.component = none) (h : translate marker a = .ok p) :
    StandsFor p a := by
  cases hcaptured <;> cases hwhole <;> simp only [translate, ofOperation] at h
  case id =>
    obtain ⟨test, htest, rfl⟩ := map_eq_ok.mp h
    cases EqualityTest.ofOperator_eq_ok.mp htest
    exact .id test _
  case idIn =>
    simp only [bind_eq_ok, pure_eq_ok] at h
    obtain ⟨test, htest, ids, hids, rfl⟩ := h
    cases MembershipTest.ofOperator_eq_ok.mp htest
    rw [documentIds_eq_ok hids]
    exact .idIn test ids
  case membership =>
    obtain ⟨test, htest, rfl⟩ := map_eq_ok.mp h
    cases MembershipTest.ofOperator_eq_ok.mp htest
    exact .isIn _ test _
  case number =>
    obtain ⟨test, htest, rfl⟩ := map_eq_ok.mp h
    cases ComparisonTest.ofOperator_eq_ok.mp htest
    exact .number _ test _
  case text =>
    obtain ⟨test, htest, rfl⟩ := map_eq_ok.mp h
    cases EqualityTest.ofOperator_eq_ok.mp htest
    exact .text _ test _
  case bool =>
    obtain ⟨test, htest, rfl⟩ := map_eq_ok.mp h
    cases EqualityTest.ofOperator_eq_ok.mp htest
    exact .bool _ test _
  case null =>
    obtain ⟨test, htest, rfl⟩ := map_eq_ok.mp h
    cases EqualityTest.ofOperator_eq_ok.mp htest
    exact .isNull _ test
  case date =>
    obtain ⟨test, htest, rfl⟩ := map_eq_ok.mp h
    cases ComparisonTest.ofOperator_eq_ok.mp htest
    exact .date _ test _
  case presence =>
    cases h
    exact .presence _ _
  case all =>
    cases h
    exact .all _ _
  case notAny =>
    cases h
    exact .notAny _ _
  case size =>
    unfold ofCount at h
    split at h
    · rename_i x hx
      split at h
      · rename_i hcount
        cases h
        exact .size _ hx (Bool.and_eq_true_iff.mp hcount).1
      · cases h
    · cases h
  case arrayEquals =>
    obtain ⟨test, htest, rfl⟩ := map_eq_ok.mp h
    cases EqualityTest.ofOperator_eq_ok.mp htest
    exact .arrayEquals _ test _
  case subDocumentEquals =>
    obtain ⟨test, htest, rfl⟩ := map_eq_ok.mp h
    cases EqualityTest.ofOperator_eq_ok.mp htest
    exact .subDocumentEquals _ test _

/-- What is captured of a clause over a collection becomes a primitive. -/
theorem exists_translate {marker : CollectionMarker} {a : Atom} (hcaptured : Captured marker a)
    (ha : a.OverCollection) : ∃ p, translate marker a = .ok p := by
  cases hcaptured <;> simp only [translate, ofOperation]
  case id hop | text hop | bool hop | null hop | arrayEquals hop | subDocumentEquals hop =>
    obtain ⟨test, htest⟩ := EqualityTest.exists_of_mem hop
    exact ⟨_, map_eq_ok.mpr ⟨test, htest, rfl⟩⟩
  case number hop | date hop =>
    obtain ⟨test, htest⟩ := ComparisonTest.exists_of_mem hop
    exact ⟨_, map_eq_ok.mpr ⟨test, htest, rfl⟩⟩
  case membership hop =>
    obtain ⟨test, htest⟩ := MembershipTest.exists_of_mem hop
    exact ⟨_, map_eq_ok.mpr ⟨test, htest, rfl⟩⟩
  case idIn hop =>
    obtain ⟨test, htest⟩ := MembershipTest.exists_of_mem hop
    have hmember := by simpa [CollectionFilter.membership] using hop
    obtain ⟨_, heq, hids⟩ := ha.members rfl hmember
    cases heq
    obtain ⟨ids, hids⟩ := exists_documentIds hids
    exact ⟨_, bind_eq_ok.mpr ⟨test, htest, bind_eq_ok.mpr ⟨ids, hids, rfl⟩⟩⟩
  case presence => exact ⟨_, rfl⟩
  case all => exact ⟨_, rfl⟩
  case notAny => exact ⟨_, rfl⟩
  case size =>
    obtain ⟨_, x, heq, hx, hintegral, hfits⟩ := ha.admissible.count rfl
    cases heq
    simp [ofCount, hx, hintegral, hfits]

/-! ## Groups -/

theorem ofGroup_eq (group : CaptureGroup CollectionMarker) :
    ofGroup group = group.entries.mapM fun x => translate x.1 x.2 := by
  rw [CaptureGroup.entries, List.mapM_map, mapM_flatMap, ofGroup]
  refine congrArg (Except.map List.flatten) (congrArg (fun f => group.sites.mapM f) ?_)
  funext site
  rw [CaptureSite.atoms, List.mapM_map]
  rfl

theorem entryWise_ofGroup : FilterTree.EntryWise ofGroup translate := by
  intro group list h
  rw [ofGroup_eq] at h
  exact mapM_eq_ok.mp h

/-! ## Rules -/

/-- Every rule builds the tree of what its matcher captured, the first one included. -/
theorem build_eq_of_rules (rule : Rule CollectionMarker CollectionFilter) (hrule : rule ∈ rules.rules)
    (e : Expression) (t : CaptureTree CollectionMarker) (h : rule.matcher.apply e = .ok t) :
    rule.build t = FilterTree.build ofGroup t := by
  simp only [rules, RuleTable.rules, List.mem_cons, List.not_mem_nil, or_false] at hrule
  rcases hrule with rfl | rfl | rfl | rfl
  · simp only [emptyRule, Matcher.apply] at h
    split at h <;> cases h
    rfl
  · rfl
  · rfl
  · rfl

end CollectionFilter

end DocumentFilter
