/-
What collections refuse. Whatever a clause over a collection asks has a
capture, but for an order on a value that has none, and once a rule has matched
nothing can fail but the limit on primitives. So exactly those orders are
refused, and the first of them is named (`resolve_unresolvable_iff`).
-/
import DocumentFilter.Proofs.CollectionPrimitives
import DocumentFilter.Proofs.Coverage
import Mathlib.Data.List.Find

namespace DocumentFilter

namespace CollectionFilter

/-- **Once a rule has matched, nothing can fail**: every group becomes primitives. -/
theorem exists_build {rule : Rule CollectionMarker CollectionFilter} (hrule : rule ∈ rules.rules)
    {e : Expression} {t : CaptureTree CollectionMarker} (h : rule.matcher.apply e = .ok t)
    (he : e.operator = .and) (hover : ∀ c ∈ e.childrenFirst, ∀ a ∈ c.atoms, a.OverCollection) :
    ∃ tree, rule.build t = .ok tree := by
  rw [build_eq_of_rules rule hrule e t h]
  cases hbuild : FilterTree.build ofGroup t with
  | ok tree => exact ⟨tree, rfl⟩
  | error err =>
    have hfail : ∀ group, group.StandsOn (e.childrenFirst.map (·.path)) → ofGroup group = .error err →
        ∃ x ∈ group.entries, translate x.1 x.2 = .error err := by
      intro group _ herr
      rw [ofGroup_eq] at herr
      exact mapM_eq_error herr
    obtain ⟨c, hc, a, ha, capture, hcapture, hcovers, herr⟩ :=
      FilterTree.untranslated_of_build hfail (Matcher.sorts_of_apply h he) hbuild
    obtain ⟨p, hp⟩ := exists_translate (captured_of_rules hrule hcapture hcovers) (hover c hc a ha)
    cases herr.symm.trans hp

/-! ## What has no primitive -/

/-- The operation asks for an order on a value that has none. -/
def ordersUnordered (op : Operation) : Bool :=
  (op.operator matches .gt | .gte | .lt | .lte) && op.operand.kind != .number && op.operand.kind != .date

theorem Captured.ordersUnordered_eq_false {marker : CollectionMarker} {a : Atom} (h : Captured marker a) :
    ordersUnordered a.operation = false := by
  cases h
  case id hop | text hop | bool hop | null hop | arrayEquals hop | subDocumentEquals hop =>
    simp only [equality, List.mem_cons, List.not_mem_nil, or_false] at hop
    rcases hop with rfl | rfl <;> rfl
  case idIn hop | membership hop =>
    simp only [CollectionFilter.membership, List.mem_cons, List.not_mem_nil, or_false] at hop
    rcases hop with rfl | rfl <;> rfl
  case number | date => simp [ordersUnordered, Literal.kind]
  all_goals rfl

/-- Equality has a capture for every kind of operand. -/
theorem exists_capture_equality {a : Atom} (ha : a.OverCollection)
    (hop : a.operation.operator = .eq ∨ a.operation.operator = .ne) :
    ∃ capture ∈ captures, capture.Covers a := by
  obtain ⟨path, component, op, operand⟩ := a
  have hequality : op ∈ equality := by simpa [equality] using hop
  have hrange : op ∈ range := by rcases hop with rfl | rfl <;> simp [range]
  cases operand with
  | number n => exact ⟨⟨.number, Path.wildcard, range, .number⟩, by simp [captures], .inl rfl, hrange, rfl⟩
  | string s => exact ⟨⟨.text, Path.wildcard, equality, .string⟩, by simp [captures], .inl rfl, hequality, rfl⟩
  | boolean b => exact ⟨⟨.bool, Path.wildcard, equality, .boolean⟩, by simp [captures], .inl rfl, hequality, rfl⟩
  | null => exact ⟨⟨.null, Path.wildcard, equality, .null⟩, by simp [captures], .inl rfl, hequality, rfl⟩
  | date t => exact ⟨⟨.date, Path.wildcard, range, .date⟩, by simp [captures], .inl rfl, hrange, rfl⟩
  | array items =>
    exact ⟨⟨.arrayEquals, Path.wildcard, equality, .array⟩, by simp [captures], .inl rfl, hequality, rfl⟩
  | subDocument entries =>
    exact ⟨⟨.subDocumentEquals, Path.wildcard, equality, .subDocument⟩, by simp [captures], .inl rfl, hequality, rfl⟩
  | documentId id =>
    have hpath := (ha.elsewhere rfl).1
    exact ⟨⟨.id, CollectionSchema.identityPath, equality, .documentId⟩, by simp [captures], .inr hpath.symm,
      hequality, rfl⟩

/-- An order has a capture for the kinds that have one. -/
theorem exists_capture_order {a : Atom} (hop : a.operation.operator ∈ range)
    (hkind : a.operation.operand.kind = .number ∨ a.operation.operand.kind = .date) :
    ∃ capture ∈ captures, capture.Covers a := by
  rcases hkind with hkind | hkind
  · exact ⟨⟨.number, Path.wildcard, range, .number⟩, by simp [captures], .inl rfl, hop, hkind⟩
  · exact ⟨⟨.date, Path.wildcard, range, .date⟩, by simp [captures], .inl rfl, hop, hkind⟩

/-- All else that a clause over a collection may ask has a capture. -/
theorem exists_capture {a : Atom} (ha : a.OverCollection) (h : ordersUnordered a.operation = false) :
    ∃ capture ∈ captures, capture.Covers a := by
  obtain ⟨path, component, op, operand⟩ := a
  cases op
  case eq => exact exists_capture_equality ha (.inl rfl)
  case ne => exact exists_capture_equality ha (.inr rfl)
  case gt | gte | lt | lte =>
    refine exists_capture_order (by simp [range]) ?_
    simp only [ordersUnordered, Bool.true_and, Bool.and_eq_false_iff, bne_eq_false_iff_eq] at h
    exact h
  case isIn | notIn =>
    obtain ⟨values, rfl⟩ := ha.admissible.list rfl
    exact ⟨⟨.membership, Path.wildcard, CollectionFilter.membership, .array⟩, by simp [captures], .inl rfl,
      by simp [CollectionFilter.membership], rfl⟩
  case present =>
    obtain ⟨b, rfl⟩ := ha.admissible.presence rfl
    exact ⟨⟨.presence, Path.wildcard, [.present], .boolean⟩, by simp [captures], .inl rfl, by simp, rfl⟩
  case all | notAny =>
    obtain ⟨values, rfl⟩ := ha.admissible.list rfl
    exact ⟨⟨.array, Path.wildcard, [.all, .notAny], .array⟩, by simp [captures], .inl rfl, by simp, rfl⟩
  case size =>
    obtain ⟨n, x, rfl, -⟩ := ha.admissible.count rfl
    exact ⟨⟨.size, Path.wildcard, [.size], .number⟩, by simp [captures], .inl rfl, by simp, rfl⟩

end CollectionFilter

/-- Some operation of the comparison asks for an order on a value that has none. -/
def Comparison.ordersUnordered (c : Comparison) : Bool := c.operations.any CollectionFilter.ordersUnordered

namespace CollectionFilter

/-- Among the comparisons of a clause, exactly the orders on values without one are not covered. -/
theorem isUncovered_eq {schema : CollectionSchema} {limits : Limits} {c : Comparison}
    (h : Stems (.collection schema) limits c) : Matcher.isUncovered captures c = c.ordersUnordered := by
  have hover := overCollection_of_stems h
  obtain ⟨op, hop⟩ := h.single
  obtain ⟨path, operations, component⟩ := c
  obtain rfl : operations = [op] := hop
  have ha : Atom.OverCollection ⟨path, component, op⟩ := hover _ (by simp [Comparison.atoms])
  have hcomparison : Comparison.ordersUnordered ⟨path, [op], component⟩ = ordersUnordered op := by
    simp [Comparison.ordersUnordered]
  rw [hcomparison]
  cases horder : ordersUnordered op with
  | true =>
    refine List.all_eq_true.mpr fun capture hcapture => ?_
    rw [Bool.not_eq_true', Bool.eq_false_iff]
    intro haccepts
    have hcaptured := captured_of_captures hcapture (Capture.accepts_single.mp haccepts)
    exact absurd horder (by simp [hcaptured.ordersUnordered_eq_false])
  | false =>
    obtain ⟨capture, hcapture, hcovers⟩ := exists_capture ha horder
    refine List.all_eq_false.mpr ⟨capture, hcapture, ?_⟩
    simp [Capture.accepts_single.mpr hcovers]

section Parsed

variable {schema : CollectionSchema} {limits : Limits} {filter : Option Json} {clause : Clause}

theorem overCollection_of_parse (h : Clause.parse (.collection schema) limits filter = .ok clause) :
    ∀ c ∈ clause.expression.childrenFirst, ∀ a ∈ c.atoms, a.OverCollection :=
  fun c hc => overCollection_of_stems (stems_of_parse h c hc)

/-- If a rule matches, the clause orders nothing that has no order. -/
theorem ordersUnordered_of_apply (h : Clause.parse (.collection schema) limits filter = .ok clause)
    {rule : Rule CollectionMarker CollectionFilter} (hrule : rule ∈ rules.rules) {t : CaptureTree CollectionMarker}
    (hmatch : rule.matcher.apply clause.expression = .ok t) :
    ∀ c ∈ clause.expression.childrenFirst, c.ordersUnordered = false := by
  have hand := (parse_shape h).1
  obtain ⟨tree, hbuild⟩ := exists_build hrule hmatch hand (overCollection_of_parse h)
  rw [build_eq_of_rules rule hrule _ t hmatch] at hbuild
  intro c hc
  refine List.any_eq_false.mpr fun op hop => ?_
  have ha : (⟨c.path, c.component, op⟩ : Atom) ∈ c.atoms := Comparison.mem_atoms.mpr ⟨rfl, rfl, hop⟩
  obtain ⟨capture, hcapture, hcovers, -⟩ := FilterTree.translated_of_build entryWise_ofGroup
    (Matcher.sorts_of_apply hmatch hand) hbuild c hc _ ha
  simp [(captured_of_rules hrule hcapture hcovers).ordersUnordered_eq_false]

/-- The rules build a tree, or name the first comparison that orders what has no order. -/
theorem apply_rules_cases (h : Clause.parse (.collection schema) limits filter = .ok clause) :
    (clause.expression.childrenFirst.find? Comparison.ordersUnordered = none ∧
        ∃ tree, rules.apply clause.expression = .ok tree) ∨
      ∃ c n, clause.expression.childrenFirst.find? Comparison.ordersUnordered = some c ∧
        rules.apply clause.expression = .error (.unresolvable (.unmatched ⟨0, n, some c⟩)) := by
  obtain ⟨hand, hnormalized⟩ := parse_shape h
  have hfind : clause.expression.childrenFirst.find? (Matcher.isUncovered captures) =
      clause.expression.childrenFirst.find? Comparison.ordersUnordered :=
    List.find?_congr fun c hc => isUncovered_eq (stems_of_parse h c hc)
  rcases rules.apply_cases clause.expression with ⟨rule, hrule, t, hmatch, happly⟩ |
    ⟨hall, last, failure, hlast, hfailure, happly⟩
  · obtain ⟨tree, htree⟩ := exists_build hrule hmatch hand (overCollection_of_parse h)
    refine .inl ⟨List.find?_eq_none.mpr fun c hc => ?_, tree, happly.trans htree⟩
    simp [ordersUnordered_of_apply h hrule hmatch c hc]
  · obtain rfl : generalRule = last := Option.some.inj hlast
    rcases Matcher.apply_greedy captures hnormalized with ⟨-, t, hmatch⟩ | ⟨c, n, hc, hmatch⟩
    · cases hmatch.symm.trans hfailure
    · obtain rfl := Except.error.inj (hmatch.symm.trans hfailure)
      exact .inr ⟨c, n, hfind ▸ hc, happly⟩

/-- **Exactly the orders on values without one are refused**: a clause over a collection cannot be resolved if
and only if it compares by order with a value that is neither a number nor a date, and the first such comparison,
children first, is then named. Otherwise only the limit on primitives can fail, as no rule that has matched can. -/
theorem resolve_unresolvable_iff {limits' : Limits}
    (h : Clause.parse (.collection schema) limits filter = .ok clause) :
    ((∃ problem, resolve limits' clause = .error (.unresolvable problem)) ↔
        ∃ c ∈ clause.expression.childrenFirst, c.ordersUnordered = true) ∧
      (∀ c, clause.expression.childrenFirst.find? Comparison.ordersUnordered = some c →
        ∃ err, resolve limits' clause = .error err ∧
          err.message = "filter cannot be resolved: no supported filter for " ++ c.text) ∧
      ((∀ c ∈ clause.expression.childrenFirst, c.ordersUnordered = false) →
        (∃ r, resolve limits' clause = .ok r) ∨
          ∃ max actual, resolve limits' clause = .error (.tooManyFilters max actual)) ∧
      ∀ rule ∈ rules.rules, ∀ t, rule.matcher.apply clause.expression = .ok t → ∃ tree, rule.build t = .ok tree := by
  have hrules : ∀ rule ∈ rules.rules, ∀ t, rule.matcher.apply clause.expression = .ok t →
      ∃ tree, rule.build t = .ok tree :=
    fun rule hrule t hmatch => exists_build hrule hmatch (parse_shape h).1 (overCollection_of_parse h)
  rcases apply_rules_cases h with ⟨hnone, tree, htree⟩ | ⟨c, n, hc, happly⟩
  · have hlimit : (∃ r, resolve limits' clause = .ok r) ∨
        ∃ max actual, resolve limits' clause = .error (.tooManyFilters max actual) :=
      RuleTable.resolve_of_apply_ok limits' htree
    have hall := List.find?_eq_none.mp hnone
    refine ⟨⟨?_, ?_⟩, ?_, fun _ => hlimit, hrules⟩
    · intro ⟨problem, hproblem⟩
      rcases hlimit with ⟨r, hok⟩ | ⟨max, actual, hmany⟩
      · cases hok.symm.trans hproblem
      · cases hmany.symm.trans hproblem
    · intro ⟨c, hc, horders⟩
      exact absurd horders (hall c hc)
    · intro c hc
      cases hnone.symm.trans hc
  · have hresolve : resolve limits' clause = .error (.unresolvable (.unmatched ⟨0, n, some c⟩)) :=
      RuleTable.resolve_of_apply_error limits' happly
    have hmem := List.mem_of_find?_eq_some hc
    have horders := List.find?_some hc
    rw [hresolve]
    refine ⟨⟨fun _ => ⟨c, hmem, horders⟩, fun _ => ⟨_, rfl⟩⟩, ?_, ?_, hrules⟩
    · intro d hd
      obtain rfl := Option.some.inj (hc.symm.trans hd)
      exact ⟨_, rfl, rfl⟩
    · intro hall
      exact absurd horders (by simp [hall c hmem])

end Parsed

/-- A filter that orders texts, in two places, beside what can be resolved. -/
def orderedTexts : Json :=
  .object [("name", .object [("$lt", .string "m")]),
    ("$not", .object [("city", .object [("$gte", .string "b")]), ("age", .object [("$gt", .number (.int 20))])])]

theorem resolve_unresolvable_iff_orderedTexts :
    let clause : Clause :=
      ⟨⟨.and, [⟨.or, [], [.single "city" .lt (.string "b"), .single "age" .lte (.number (.int 20))]⟩],
        [.single "name" .lt (.string "m")]⟩, some "_id", [], true⟩
    Clause.parse (.collection { name := "users" }) {} (some orderedTexts) = .ok clause ∧
      ∃ err, resolve {} clause = .error err ∧
        err.message = "filter cannot be resolved: no supported filter for 'city' $lt string" :=
  have hparse : _ = Except.ok _ := by decide +kernel
  ⟨hparse, (resolve_unresolvable_iff hparse).2.1 (.single "city" .lt (.string "b")) (by decide)⟩

end CollectionFilter

end DocumentFilter
