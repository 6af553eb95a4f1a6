/-
What a filter document means, and that parsing keeps it.

The meaning is read off the document itself: an object is the conjunction of
its entries, `$and` the conjunction and `$or` the disjunction of its elements,
`$not` the negation of its object, and a condition the conjunction of its
operators, each one atom with its operand decoded. Parsing hoists elements
that are single comparisons and pushes negations down; the truth value stays
what the document says (`holds_parse`).
-/
import DocumentFilter.Proofs.Count
import DocumentFilter.Proofs.Operand
import DocumentFilter.Proofs.Reading

namespace DocumentFilter

namespace Condition

variable (schema : Schema) (v : Assignment) (path : String)

/-- The component that an operator without selector looks at: membership and element tests on a container
look at its elements. -/
def componentOf (op : Operator) : Option Component :=
  if op.isContainerTest then (schema.containerKind? path).map ContainerKind.component else none

/-- The atom of an operator key and its operand holds. -/
def operatorHolds (component : Operator → Option Component) (key : String) (value : Json) : Bool :=
  match Operator.ofKey? key with
  | none => false
  | some op =>
    match operand schema path op value with
    | .ok literal => v ⟨path, component op, ⟨op, literal⟩⟩
    | .error _ => false

/-- An entry of an operator object: an operator, or a selector with the operators that look at what it picks. -/
def entryHolds (key : String) (value : Json) : Bool :=
  match Selector.ofKey? key, value with
  | some selector, .object entries =>
    entries.all fun (key, value) => operatorHolds schema v path (fun _ => some selector.component) key value
  | _, value => operatorHolds schema v path (componentOf schema path) key value

/-- A condition holds if all its operators do; a bare value is an equality. -/
def holds : Json → Bool
  | .object entries =>
    if isOperatorObject entries then entries.all fun (key, value) => entryHolds schema v path key value
    else operatorHolds schema v path (componentOf schema path) "$eq" (.object entries)
  | value => operatorHolds schema v path (componentOf schema path) "$eq" value

/-! ### Reading a condition keeps its meaning -/

variable {schema v path} {key : String} {value : Json}

theorem operatorHolds_key {component : Operator → Option Component} {op : Operator} {literal : Literal}
    (h : operand schema path op value = .ok literal) :
    operatorHolds schema v path component op.key value = v ⟨path, component op, ⟨op, literal⟩⟩ := by
  simp only [operatorHolds, Operator.ofKey?_key, h]

theorem entryHolds_key {op : Operator} : entryHolds schema v path op.key value =
    operatorHolds schema v path (componentOf schema path) op.key value := by
  simp only [entryHolds, op.selector_key]

/-- Containers belong to tables, which have no identity path. -/
theorem operand_of_container {kind : ContainerKind} (h : schema.containerKind? path = some kind) (op : Operator)
    (value : Json) : operand schema path op value = Literal.ofJson value := by
  cases schema with
  | collection => cases h
  | table => rfl

theorem holds_containerEntry {kind : ContainerKind} {cs : List Comparison}
    (hkind : schema.containerKind? path = some kind) (h : containerEntry schema path kind key value = .ok cs) :
    cs.all (·.holds v) = entryHolds schema v path key value := by
  rcases containerEntry_eq_ok.mp h with ⟨-, c, hc, rfl⟩ | ⟨selector, entries, hsel, rfl, rfl, -, hcs⟩
  · rw [List.all_cons, List.all_nil, Bool.and_true]
    obtain ⟨op, literal, rfl, ⟨htest, -, hl, rfl⟩ | ⟨htest, hl, rfl⟩⟩ := containerComparison_eq_ok.mp hc
    · rw [← operand_of_container hkind op] at hl
      rw [entryHolds_key, operatorHolds_key hl, Comparison.holds_single, componentOf, if_pos htest, hkind]
      rfl
    · rw [entryHolds_key, operatorHolds_key hl, Comparison.holds_single, componentOf, htest]
      rfl
  · simp only [entryHolds, hsel]
    refine all_eq_of_forall₂ hcs ?_
    rintro ⟨key, value⟩ c hc
    obtain ⟨op, literal, rfl, -, hl, rfl⟩ := selectedComparison_eq_ok.mp hc
    rw [← operand_of_container hkind op] at hl
    rw [operatorHolds_key hl, Comparison.holds_single]

theorem holds_equality {cs : List Comparison} (h : equality schema path value = .ok cs) :
    cs.all (·.holds v) = operatorHolds schema v path (componentOf schema path) "$eq" value := by
  obtain ⟨literal, hl, rfl⟩ := equality_eq_ok.mp h
  have hkey : "$eq" = Operator.eq.key := rfl
  rw [hkey, operatorHolds_key hl, List.all_cons, List.all_nil, Bool.and_true, Comparison.holds_single]
  rfl

theorem holds_operatorObject {entries : List (String × Json)} {cs : List Comparison}
    (h : operatorObject schema path entries = .ok cs) :
    cs.all (·.holds v) = entries.all fun (key, value) => entryHolds schema v path key value := by
  unfold operatorObject at h
  split at h
  · rename_i hkind
    refine all_eq_of_forall₂ (mapM_eq_ok.mp h) ?_
    rintro ⟨key, value⟩ c hc
    obtain ⟨op, literal, rfl, hl, rfl⟩ := comparison_eq_ok.mp hc
    have hcomponent : componentOf schema path op = none := by simp [componentOf, hkind]
    show Comparison.holds v _ = entryHolds schema v path op.key value
    rw [entryHolds_key, operatorHolds_key hl, Comparison.holds_single, hcomponent]
  · rename_i kind hkind
    obtain ⟨lists, hlists, rfl⟩ := map_eq_ok.mp h
    rw [List.all_flatten]
    exact all_eq_of_forall₂ (mapM_eq_ok.mp hlists) fun _ _ hcs => holds_containerEntry hkind hcs

/-- The comparisons of a condition hold together exactly if the condition does. -/
theorem holds_comparisons {cs : List Comparison} (h : comparisons schema path value = .ok cs) :
    cs.all (·.holds v) = holds schema v path value := by
  cases value with
  | object entries =>
    simp only [comparisons, holds] at h ⊢
    split at h
    · rename_i hobject
      rw [if_pos hobject, holds_operatorObject h]
    · rename_i hobject
      rw [if_neg hobject, holds_equality h]
  | null | bool _ | number _ | string _ | array _ => exact holds_equality h

end Condition

namespace Document

variable (schema : Schema) (v : Assignment)

mutual
/-- The truth of an entry. -/
def entryHolds (key : String) : Json → Bool
  | .array items =>
    if key = "$and" then everyElementHolds items
    else if key = "$or" then someElementHolds items
    else Condition.holds schema v key (.array items)
  | .object entries =>
    if key = "$not" then !entriesHold entries else Condition.holds schema v key (.object entries)
  | value => Condition.holds schema v key value

/-- An object holds if all its entries do. -/
def entriesHold : List (String × Json) → Bool
  | [] => true
  | (key, value) :: entries => entryHolds key value && entriesHold entries

/-- All elements hold. -/
def everyElementHolds : List Json → Bool
  | [] => true
  | .object entries :: items => entriesHold entries && everyElementHolds items
  | _ :: _ => false

/-- Some element holds. -/
def someElementHolds : List Json → Bool
  | [] => false
  | .object entries :: items => entriesHold entries || someElementHolds items
  | _ :: items => someElementHolds items
end

/-- The truth of a filter; without one, or with null, everything is selected. -/
def holds : Option Json → Bool
  | some (.object entries) => entriesHold schema v entries
  | _ => true

end Document

/-! ## Reading a document keeps its meaning -/

/-- A junction of two truth values. -/
def Junction.join : Junction → Bool → Bool → Bool
  | .and, a, b => a && b
  | .or, a, b => a || b

namespace Contents

variable {schema : Schema} {v : Assignment}

theorem holds_node_append {j : Junction} {a b : Contents} :
    ((a ++ b).node j).holds v = j.join ((a.node j).holds v) ((b.node j).holds v) := by
  have hchildren : (a ++ b).children = a.children ++ b.children := rfl
  have hcomparisons : (a ++ b).comparisons = a.comparisons ++ b.comparisons := rfl
  cases j with
  | and =>
    simp only [node, Junction.connective, Expression.holds_and, hchildren, hcomparisons, List.all_append,
      Junction.join]
    ac_rfl
  | or =>
    simp only [node, Junction.connective, Expression.holds_or, hchildren, hcomparisons, List.any_append,
      Junction.join]
    ac_rfl

theorem holds_node_ofNode {j : Junction} {e : Expression} {warnings : List Warning} :
    ((ofNode e warnings).node j).holds v = e.holds v := by
  cases j <;> simp [node, ofNode, Junction.connective]

/-- An element is worth its conjunction in a node of either junction, hoisted or not. -/
theorem holds_node_element {j : Junction} {c : Contents} :
    (c.element.node j).holds v = c.conjunction.holds v := by
  unfold element
  split
  · rename_i comparison hchildren hcomparisons
    cases j <;> simp [node, conjunction, hchildren, hcomparisons, Junction.connective]
  · exact holds_node_ofNode

/-- The truth of a junction's elements. -/
def elementsHold (schema : Schema) (v : Assignment) : Junction → List Json → Bool
  | .and => Document.everyElementHolds schema v
  | .or => Document.someElementHolds schema v

theorem elementsHold_cons {j : Junction} {entries : List (String × Json)} {items : List Json} :
    elementsHold schema v j (.object entries :: items) =
      j.join (Document.entriesHold schema v entries) (elementsHold schema v j items) := by
  cases j <;> rfl

theorem keptByReading_holds : KeptByReading schema
    (fun key value c => c.conjunction.holds v = Document.entryHolds schema v key value)
    (fun entries c => c.conjunction.holds v = Document.entriesHold schema v entries)
    (fun j items c => (c.node j).holds v = elementsHold schema v j items) where
  field := by
    rintro key value c ⟨hand, hor, hnot⟩ h
    obtain ⟨cs, warnings, -, hcs, -, rfl⟩ := ofField_eq_ok.mp h
    have hfield : Document.entryHolds schema v key value = Condition.holds schema v key value := by
      cases value <;> simp [Document.entryHolds, hand, hor, hnot]
    rw [hfield, ← Condition.holds_comparisons hcs]
    exact Expression.holds_and v [] cs
  junction := by
    intro j items c _ h
    refine (holds_node_ofNode (j := .and)).trans (h.trans ?_)
    cases j <;> simp [Document.entryHolds, Junction.key, elementsHold]
  negation := by
    intro entries c _ h
    refine (holds_node_ofNode (j := .and)).trans ?_
    simp [Document.entryHolds, h]
  noEntries := rfl
  entries := by
    intro key value rest first others hfirst hothers
    refine (holds_node_append (j := .and)).trans ?_
    rw [Document.entriesHold, ← hfirst, ← hothers]
    rfl
  noElements := by intro j; cases j <;> rfl
  elements := by
    intro j entries items first others _ hfirst hothers
    rw [holds_node_append, holds_node_element, hfirst, hothers, elementsHold_cons]

end Contents

/-! ## Parsing keeps the meaning -/

/-- Checked operands make the tree's atoms and their negations opposite. -/
theorem complements_of_checkOperands {limits : Limits} {v : Assignment} {e : Expression}
    (hv : v.Complementary limits) (h : e.checkOperands limits = .ok ()) : e.Complements v := by
  intro c hc a ha
  exact hv a (forM_eq_ok.mp (forM_eq_ok.mp h c hc) a.operation (Comparison.mem_atoms.mp ha).2.2)

/-- The assignment by which what is asked holds unless it is asked as a complement. -/
def Assignment.affirming : Assignment := fun a =>
  match a.operation.operator, a.operation.operand with
  | .present, .boolean b => b
  | .size, .number n => (n.toBinary64?.map fun x => !x.negative).getD true
  | .eq, _ | .gt, _ | .gte, _ | .isIn, _ | .all, _ => true
  | _, _ => false

/-- The complement of what has a boolean or a number to turn around has the opposite value. -/
theorem Assignment.affirming_negated {a : Atom}
    (hpresence : a.operation.operator = .present → ∃ b, a.operation.operand = .boolean b)
    (hcount : a.operation.operator = .size → ∃ n x, a.operation.operand = .number n ∧ n.toBinary64? = some x) :
    affirming a.negated = !affirming a := by
  obtain ⟨path, component, op, operand⟩ := a
  cases op
  case present =>
    obtain ⟨b, rfl⟩ := hpresence rfl
    rfl
  case size =>
    obtain ⟨n, x, rfl, hx⟩ := hcount rfl
    simp [Atom.negated, Operation.negated, Operator.negated, affirming, hx, Number.toBinary64?_negated hx,
      Binary64.neg]
  all_goals rfl

theorem Assignment.affirming_complementary (limits : Limits) : affirming.Complementary limits := by
  intro a h
  refine affirming_negated (fun hop => ?_) fun hop => ?_ <;> simp only [Operation.check, hop] at h
  · exact Operation.checkPresence_eq_ok.mp h
  · obtain ⟨n, x, hn, hx, -⟩ := Operation.checkSize_eq_ok.mp h
    exact ⟨n, x, hn, hx⟩

/-- **A parsed filter means what its document says**, under every assignment that gives opposite values to an
operation with a valid operand and its negation. -/
theorem holds_parse {schema : Schema} {limits : Limits} {filter : Option Json} {clause : Clause}
    (h : Clause.parse schema limits filter = .ok clause) {v : Assignment} (hv : v.Complementary limits) :
    clause.expression.holds v = Document.holds schema v filter := by
  rcases parse_cases h with ⟨rfl | rfl, rfl⟩ | ⟨entries, contents, rfl, hparsed⟩
  · rfl
  · rfl
  · have hproper := (Contents.keptByReading_proper.ofEntries entries hparsed.read).1
    have hpushable : contents.conjunction.Pushable false :=
      ⟨Expression.allPushable_iff.mpr fun e he => (hproper.children e he).pushable false, by simp⟩
    have hread := (Contents.keptByReading_holds (v := v)).ofEntries entries hparsed.read
    rw [hparsed.clause]
    exact (Expression.holds_normalized hpushable (complements_of_checkOperands hv hparsed.operands)).trans hread

/-- A filter with a negated disjunction: one of its elements is hoisted, the other becomes an OR. -/
def negatedChoice : Json :=
  .object [("$not", .object [("$or", .array [.object [("tags", .object [("$size", .number (.int 0))])],
    .object [("age", .object [("$gt", .number (.int 20))]), ("name", .null)]])])]

theorem holds_parse_negatedChoice :
    let schema : Schema := .collection { name := "users" }
    let clause : Clause :=
      ⟨⟨.and, [⟨.and, [⟨.and, [⟨.or, [], [.single "age" .lte (.number (.int 20)), .single "name" .ne .null]⟩],
        [.single "tags" .size (.number (.float (Binary64.zero true)))]⟩], []⟩], []⟩, some "_id", [], true⟩
    Clause.parse schema {} (some negatedChoice) = .ok clause ∧ Assignment.affirming.Complementary {} ∧
      clause.expression.holds Assignment.affirming =
        Document.holds schema Assignment.affirming (some negatedChoice) :=
  have hparse : _ = Except.ok _ := by decide +kernel
  have hv := Assignment.affirming_complementary {}
  ⟨hparse, hv, holds_parse hparse hv⟩

end DocumentFilter
