/-
The tree that a filter document writes, said without reading it step by step.

`Document.tree` takes any object and gives the AND of its entries: a junction
becomes a node in which elements that are single comparisons join the node's
own, a negation a NOT, a condition its comparisons. Where a document can be
read, this is the tree that is read (`conjunction_of_ofEntries`).
-/
import DocumentFilter.Proofs.Meaning

namespace DocumentFilter

namespace Condition

variable (schema : Schema) (path : String)

/-- The comparison that an operator key and its operand ask for, if both can be read. -/
def operatorAsks (component : Operator → Option Component) (key : String) (value : Json) : List Comparison :=
  match Operator.ofKey? key with
  | none => []
  | some op =>
    match operand schema path op value with
    | .ok literal => [.single path op literal (component op)]
    | .error _ => []

/-- What an entry of an operator object asks: an operator, or a selector with operators. -/
def entryAsks (key : String) (value : Json) : List Comparison :=
  match Selector.ofKey? key, value with
  | some selector, .object entries =>
    entries.flatMap fun (key, value) => operatorAsks schema path (fun _ => some selector.component) key value
  | _, value => operatorAsks schema path (componentOf schema path) key value

/-- What a condition asks; a bare value is an equality. -/
def asks : Json → List Comparison
  | .object entries =>
    if isOperatorObject entries then entries.flatMap fun (key, value) => entryAsks schema path key value
    else operatorAsks schema path (componentOf schema path) "$eq" (.object entries)
  | value => operatorAsks schema path (componentOf schema path) "$eq" value

variable {schema path} {key : String} {value : Json}

theorem operatorAsks_key {component : Operator → Option Component} {op : Operator} {literal : Literal}
    (h : operand schema path op value = .ok literal) :
    operatorAsks schema path component op.key value = [.single path op literal (component op)] := by
  simp only [operatorAsks, Operator.ofKey?_key, h]

theorem entryAsks_key {op : Operator} : entryAsks schema path op.key value =
    operatorAsks schema path (componentOf schema path) op.key value := by
  simp only [entryAsks, op.selector_key]

theorem asks_of_containerEntry {kind : ContainerKind} {cs : List Comparison}
    (hkind : schema.containerKind? path = some kind) (h : containerEntry schema path kind key value = .ok cs) :
    entryAsks schema path key value = cs := by
  rcases containerEntry_eq_ok.mp h with ⟨-, c, hc, rfl⟩ | ⟨selector, entries, hsel, rfl, rfl, -, hcs⟩
  · obtain ⟨op, literal, rfl, ⟨htest, -, hl, rfl⟩ | ⟨htest, hl, rfl⟩⟩ := containerComparison_eq_ok.mp hc
    · rw [← operand_of_container hkind op] at hl
      rw [entryAsks_key, operatorAsks_key hl, componentOf, if_pos htest, hkind]
      rfl
    · rw [entryAsks_key, operatorAsks_key hl, componentOf, htest]
      rfl
  · simp only [entryAsks, hsel]
    refine flatMap_eq_of_forall₂ hcs fun entry c hc => ?_
    obtain ⟨op, literal, hkey, -, hl, rfl⟩ := selectedComparison_eq_ok.mp hc
    rw [← operand_of_container hkind op] at hl
    rw [hkey]
    exact operatorAsks_key hl

theorem asks_of_equality {cs : List Comparison} (h : equality schema path value = .ok cs) :
    operatorAsks schema path (componentOf schema path) "$eq" value = cs := by
  obtain ⟨literal, hl, rfl⟩ := equality_eq_ok.mp h
  have hkey : "$eq" = Operator.eq.key := rfl
  rw [hkey]
  exact operatorAsks_key hl

theorem asks_of_operatorObject {entries : List (String × Json)} {cs : List Comparison}
    (h : operatorObject schema path entries = .ok cs) :
    (entries.flatMap fun (key, value) => entryAsks schema path key value) = cs := by
  unfold operatorObject at h
  split at h
  · rename_i hkind
    refine flatMap_eq_of_forall₂ (mapM_eq_ok.mp h) fun entry c hc => ?_
    obtain ⟨op, literal, hkey, hl, rfl⟩ := comparison_eq_ok.mp hc
    have hcomponent : componentOf schema path op = none := by simp [componentOf, hkind]
    show entryAsks schema path entry.1 entry.2 = _
    rw [hkey, entryAsks_key, operatorAsks_key hl, hcomponent]
  · rename_i kind hkind
    obtain ⟨lists, hlists, rfl⟩ := map_eq_ok.mp h
    rw [List.flatMap_def, map_eq_of_forall₂ (mapM_eq_ok.mp hlists) fun _ _ => asks_of_containerEntry hkind]

/-- A condition that can be read asks what is read. -/
theorem asks_of_comparisons {cs : List Comparison} (h : comparisons schema path value = .ok cs) :
    asks schema path value = cs := by
  cases value with
  | object entries =>
    simp only [comparisons, asks] at h ⊢
    split at h
    · rename_i hobject
      rw [if_pos hobject, asks_of_operatorObject h]
    · rename_i hobject
      rw [if_neg hobject, asks_of_equality h]
  | null | bool _ | number _ | string _ | array _ => exact asks_of_equality h

end Condition

/-! ## Nodes -/

namespace Expression

/-- The node is a single comparison. -/
def isLone (e : Expression) : Bool := e.children.isEmpty && e.comparisons.length == 1

/-- The node of a junction: elements that are single comparisons join the node's own. -/
def joined (j : Junction) (elements : List Expression) : Expression :=
  ⟨j.connective, elements.filter (!·.isLone), (elements.filter (·.isLone)).flatMap (·.comparisons)⟩

end Expression

namespace Document

variable (schema : Schema)

/-- What an entry asks on its own, if it is a condition. -/
def condition (key : String) (value : Json) : List Comparison :=
  if IsFieldKey key then Condition.asks schema key value else []

/-- What the conditions among the entries ask. -/
def conditions (entries : List (String × Json)) : List Comparison :=
  entries.flatMap fun (key, value) => condition schema key value

mutual
/-- The nodes that an entry writes. -/
def nodes (key : String) : Json → List Expression
  | .array items =>
    if key = "$and" then [.joined .and (elements items)]
    else if key = "$or" then [.joined .or (elements items)]
    else []
  | .object entries =>
    if key = "$not" then [⟨.not, [⟨.and, allNodes entries, conditions schema entries⟩], []⟩] else []
  | _ => []

/-- The nodes that the entries write. -/
def allNodes : List (String × Json) → List Expression
  | [] => []
  | (key, value) :: entries => nodes key value ++ allNodes entries

/-- The elements of a junction, each a node of its own. -/
def elements : List Json → List Expression
  | [] => []
  | .object entries :: items => ⟨.and, allNodes entries, conditions schema entries⟩ :: elements items
  | _ :: items => elements items
end

/-- The tree that an object writes: the AND of its entries. -/
def tree (entries : List (String × Json)) : Expression := ⟨.and, allNodes schema entries, conditions schema entries⟩

variable {schema} {key : String}

theorem nodes_of_field (h : IsFieldKey key) (value : Json) : nodes schema key value = [] := by
  obtain ⟨hand, hor, hnot⟩ := h
  cases value <;> simp [nodes, hand, hor, hnot]

theorem nodes_junction (j : Junction) (items : List Json) :
    nodes schema j.key (.array items) = [.joined j (elements schema items)] := by
  cases j <;> simp [nodes, Junction.key]

theorem nodes_negation (entries : List (String × Json)) :
    nodes schema "$not" (.object entries) = [⟨.not, [tree schema entries], []⟩] := by
  simp [nodes, tree]

theorem condition_junction (j : Junction) (value : Json) : condition schema j.key value = [] := by
  cases j <;> rfl

end Document

/-! ## Reading -/

namespace Contents

open Document

variable {schema : Schema}

theorem node_eq_joined {c : Contents} {j : Junction} {es : List Expression} : c.node j = .joined j es ↔
    c.children = es.filter (!·.isLone) ∧ c.comparisons = (es.filter (·.isLone)).flatMap (·.comparisons) := by
  simp [node, Expression.joined]

theorem conjunction_eq_iff {c : Contents} {e : Expression} (he : e.operator = .and) :
    c.conjunction = e ↔ c.children = e.children ∧ c.comparisons = e.comparisons := by
  obtain ⟨operator, children, comparisons⟩ := e
  obtain rfl : operator = .and := he
  simp [conjunction]

theorem element_eq (c : Contents) :
    c.element.children = [c.conjunction].filter (!·.isLone) ∧
      c.element.comparisons = ([c.conjunction].filter (·.isLone)).flatMap (·.comparisons) := by
  unfold element
  split
  · rename_i comparison hchildren hcomparisons
    simp [conjunction, Expression.isLone, hchildren, hcomparisons]
  · rename_i hother
    have hlone : c.conjunction.isLone = false := by
      rw [Bool.eq_false_iff]
      intro hlone
      simp only [Expression.isLone, conjunction, Bool.and_eq_true, List.isEmpty_iff, beq_iff_eq,
        List.length_eq_one_iff] at hlone
      obtain ⟨hchildren, comparison, hcomparisons⟩ := hlone
      exact hother comparison hchildren hcomparisons
    simp [ofNode, hlone]

theorem keptByReading_tree : KeptByReading schema
    (fun key value c => c.children = nodes schema key value ∧ c.comparisons = condition schema key value)
    (fun entries c => c.children = allNodes schema entries ∧ c.comparisons = conditions schema entries)
    (fun j items c => c.node j = .joined j (elements schema items)) where
  field := by
    intro key value c hkey h
    obtain ⟨cs, warnings, -, hcs, -, rfl⟩ := ofField_eq_ok.mp h
    rw [nodes_of_field hkey, condition, if_pos hkey, Condition.asks_of_comparisons hcs]
    exact ⟨rfl, rfl⟩
  junction := by
    intro j items c _ h
    rw [nodes_junction, condition_junction, ← h]
    exact ⟨rfl, rfl⟩
  negation := by
    intro entries c _ h
    have htree : c.conjunction = tree schema entries := (conjunction_eq_iff rfl).mpr h
    rw [nodes_negation, ← htree]
    exact ⟨rfl, rfl⟩
  noEntries := ⟨rfl, rfl⟩
  entries := by
    intro key value rest first others hfirst hothers
    exact ⟨congr (congrArg _ hfirst.1) hothers.1, congr (congrArg _ hfirst.2) hothers.2⟩
  noElements := rfl
  elements := by
    intro j entries items first others _ hfirst hothers
    have htree : first.conjunction = tree schema entries := (conjunction_eq_iff rfl).mpr hfirst
    have helements : elements schema (.object entries :: items) = [first.conjunction] ++ elements schema items := by
      rw [htree]
      rfl
    obtain ⟨hchildren, hcomparisons⟩ := element_eq first
    rw [node_eq_joined] at hothers ⊢
    rw [helements, List.filter_append, List.filter_append, List.flatMap_append, ← hchildren, ← hcomparisons,
      ← hothers.1, ← hothers.2]
    exact ⟨rfl, rfl⟩

/-- **What is read of a document is the tree that it writes.** -/
theorem conjunction_of_ofEntries {entries : List (String × Json)} {c : Contents}
    (h : ofEntries schema entries = .ok c) : c.conjunction = tree schema entries :=
  (conjunction_eq_iff rfl).mpr (keptByReading_tree.ofEntries entries h)

end Contents

end DocumentFilter
