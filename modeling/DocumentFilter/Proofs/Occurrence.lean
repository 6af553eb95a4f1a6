/-
Which paths a filter puts conditions on.

Hoisting and the removal of NOT move conditions, but none is lost and none is
made up: whatever a condition says about its comparisons, a document says about
all that are read from it (`keptByReading_comparesBy`). So a clause has a
comparison on a path exactly if the document it was parsed from has a condition
on it (`parse_conditionOn`).
-/
import DocumentFilter.Proofs.Clause

namespace DocumentFilter

namespace Document

/-- The entry is the condition on the path, or the condition stands further down in it. -/
inductive HasCondition (path : String) (condition : Json) : String × Json → Prop
  | field : HasCondition path condition (path, condition)
  | junction {j items inner entry} : .object inner ∈ items → entry ∈ inner → HasCondition path condition entry →
      HasCondition path condition (Junction.key j, .array items)
  | negation {inner entry} : entry ∈ inner → HasCondition path condition entry →
      HasCondition path condition ("$not", .object inner)

/-- Some condition on the path stands in the entry. -/
def ConditionOn (path : String) (entry : String × Json) : Prop := ∃ condition, HasCondition path condition entry

/-- Some condition on a field that stands in the entry is of the kind. -/
def SomeCondition (kind : String → Json → Prop) (entry : String × Json) : Prop :=
  ∃ path condition, IsFieldKey path ∧ HasCondition path condition entry ∧ kind path condition

theorem conditionOn_iff {path : String} (hpath : IsFieldKey path) {entry : String × Json} :
    ConditionOn path entry ↔ SomeCondition (fun other _ => other = path) entry := by
  constructor
  · rintro ⟨condition, h⟩
    exact ⟨path, condition, hpath, h, rfl⟩
  · rintro ⟨_, condition, -, h, rfl⟩
    exact ⟨condition, h⟩

variable {kind : String → Json → Prop}

theorem someCondition_field {key : String} {value : Json} (hkey : IsFieldKey key) :
    SomeCondition kind (key, value) ↔ kind key value := by
  constructor
  · rintro ⟨path, condition, -, h, hkind⟩
    cases h with
    | field => exact hkind
    | @junction j => exact absurd rfl (hkey.ne_key j)
    | negation => exact absurd rfl hkey.2.2
  · intro hkind
    exact ⟨key, value, hkey, .field, hkind⟩

theorem someCondition_junction {j : Junction} {items : List Json} :
    SomeCondition kind (j.key, .array items) ↔
      ∃ inner, .object inner ∈ items ∧ ∃ entry ∈ inner, SomeCondition kind entry := by
  constructor
  · rintro ⟨path, condition, hpath, h, hkind⟩
    generalize hentry : (j.key, Json.array items) = entry at h
    cases h with
    | field => exact absurd (congrArg Prod.fst hentry).symm (hpath.ne_key j)
    | junction hitem hmem hinner =>
      cases congrArg Prod.snd hentry
      exact ⟨_, hitem, _, hmem, path, condition, hpath, hinner, hkind⟩
    | negation => cases congrArg Prod.snd hentry
  · rintro ⟨inner, hitem, entry, hmem, path, condition, hpath, hinner, hkind⟩
    exact ⟨path, condition, hpath, .junction hitem hmem hinner, hkind⟩

theorem someCondition_negation {entries : List (String × Json)} :
    SomeCondition kind ("$not", .object entries) ↔ ∃ entry ∈ entries, SomeCondition kind entry := by
  constructor
  · rintro ⟨path, condition, hpath, h, hkind⟩
    generalize hentry : ("$not", Json.object entries) = entry at h
    cases h with
    | field => exact absurd (congrArg Prod.fst hentry).symm hpath.2.2
    | junction => cases congrArg Prod.snd hentry
    | negation hmem hinner =>
      cases congrArg Prod.snd hentry
      exact ⟨_, hmem, path, condition, hpath, hinner, hkind⟩
  · rintro ⟨entry, hmem, path, condition, hpath, hinner, hkind⟩
    exact ⟨path, condition, hpath, .negation hmem hinner, hkind⟩

end Document

namespace Contents

open Document

variable {schema : Schema}

/-- Some comparison of the contents is of the kind. -/
def ComparesBy (kind : Comparison → Prop) (c : Contents) : Prop := ∃ d ∈ c.conjunction.childrenFirst, kind d

section ComparesBy

variable {kind : Comparison → Prop}

theorem comparesBy_append {a b : Contents} :
    ComparesBy kind (a ++ b) ↔ ComparesBy kind a ∨ ComparesBy kind b := by
  simp only [ComparesBy, mem_conjunction_append, or_and_right, exists_or]

theorem comparesBy_element {c : Contents} : ComparesBy kind c.element ↔ ComparesBy kind c := by
  simp only [ComparesBy, mem_conjunction_element]

theorem not_comparesBy_empty : ¬ ComparesBy kind {} := by
  rintro ⟨d, hd, -⟩
  simp [mem_conjunction] at hd

/-- What a condition says about its comparisons a document says about all that are read: there is one of a kind if
some condition is of the matching kind. -/
theorem keptByReading_comparesBy {written : String → Json → Prop}
    (hkind : ∀ path value cs, Condition.comparisons schema path value = .ok cs →
      ((∃ d ∈ cs, kind d) ↔ written path value)) :
    KeptByReading schema
      (fun key value c => ComparesBy kind c ↔ SomeCondition written (key, value))
      (fun entries c => ComparesBy kind c ↔ ∃ entry ∈ entries, SomeCondition written entry)
      (fun _ items c => ComparesBy kind c ↔
        ∃ inner, .object inner ∈ items ∧ ∃ entry ∈ inner, SomeCondition written entry) where
  field := by
    intro key value c hkey h
    obtain ⟨cs, warnings, -, hcs, -, rfl⟩ := ofField_eq_ok.mp h
    rw [someCondition_field hkey, ← hkind key value cs hcs]
    simp [ComparesBy, mem_conjunction]
  junction := by
    intro j items c _ h
    rw [someCondition_junction, ← h]
    simp only [ComparesBy, mem_conjunction_ofNode, mem_childrenFirst_node]
  negation := by
    intro entries c _ h
    rw [someCondition_negation, ← h]
    simp [ComparesBy, mem_conjunction_ofNode, Expression.childrenFirst, Expression.childrenFirstAll]
  noEntries := by simp [not_comparesBy_empty]
  entries := by
    intro key value rest first others hfirst hothers
    rw [comparesBy_append, hfirst, hothers, List.exists_mem_cons_iff]
  noElements := by simp [not_comparesBy_empty]
  elements := by
    intro j entries items first others _ hfirst hothers
    rw [comparesBy_append, comparesBy_element, hfirst, hothers]
    simp only [List.mem_cons, Json.object.injEq, or_and_right, exists_or, exists_eq_left]

end ComparesBy

/-- What holds of the comparisons of any condition holds of all that are read, each with its condition. -/
theorem keptByReading_written {W : Json → Comparison → Prop}
    (hW : ∀ path value cs, Condition.comparisons schema path value = .ok cs → ∀ c ∈ cs, W value c) :
    KeptByReading schema
      (fun key value c => ∀ d ∈ c.conjunction.childrenFirst,
        ∃ condition, HasCondition d.path condition (key, value) ∧ W condition d)
      (fun entries c => ∀ d ∈ c.conjunction.childrenFirst,
        ∃ entry ∈ entries, ∃ condition, HasCondition d.path condition entry ∧ W condition d)
      (fun _ items c => ∀ d ∈ c.conjunction.childrenFirst, ∃ inner, .object inner ∈ items ∧
        ∃ entry ∈ inner, ∃ condition, HasCondition d.path condition entry ∧ W condition d) where
  field := by
    intro key value c _ h d hd
    obtain ⟨cs, warnings, -, hcs, -, rfl⟩ := ofField_eq_ok.mp h
    have hd : d ∈ cs := by simpa [mem_conjunction] using hd
    obtain rfl : d.path = key := (Condition.written_of_comparisons hcs d hd).2
    exact ⟨value, .field, hW _ _ cs hcs d hd⟩
  junction := by
    intro j items c _ h d hd
    obtain ⟨inner, hitem, entry, hmem, condition, hcondition, hw⟩ :=
      h d (mem_childrenFirst_node.mp (mem_conjunction_ofNode.mp hd))
    exact ⟨condition, .junction hitem hmem hcondition, hw⟩
  negation := by
    intro entries c _ h d hd
    have hd : d ∈ c.conjunction.childrenFirst := by
      simpa [mem_conjunction_ofNode, Expression.childrenFirst, Expression.childrenFirstAll] using hd
    obtain ⟨entry, hmem, condition, hcondition, hw⟩ := h d hd
    exact ⟨condition, .negation hmem hcondition, hw⟩
  noEntries := fun d hd => by simp [mem_conjunction] at hd
  entries := by
    intro key value rest first others hfirst hothers d hd
    rcases mem_conjunction_append.mp hd with hd | hd
    · exact ⟨_, List.mem_cons_self, hfirst d hd⟩
    · obtain ⟨entry, hmem, hcondition⟩ := hothers d hd
      exact ⟨entry, List.mem_cons_of_mem _ hmem, hcondition⟩
  noElements := fun d hd => by simp [mem_conjunction] at hd
  elements := by
    intro j entries items first others _ hfirst hothers d hd
    rcases mem_conjunction_append.mp hd with hd | hd
    · exact ⟨entries, List.mem_cons_self, hfirst d (mem_conjunction_element.mp hd)⟩
    · obtain ⟨inner, hitem, hentry⟩ := hothers d hd
      exact ⟨inner, List.mem_cons_of_mem _ hitem, hentry⟩

end Contents

/-- Every comparison of a clause is what some condition of the document writes, or the negation of it. -/
theorem exists_condition_of_parse {schema : Schema} {limits : Limits} {filter : Option Json} {clause : Clause}
    {W : Json → Comparison → Prop}
    (hW : ∀ path value cs, Condition.comparisons schema path value = .ok cs → ∀ c ∈ cs, W value c)
    (h : Clause.parse schema limits filter = .ok clause) : ∀ c ∈ clause.expression.childrenFirst,
      ∃ entries, filter = some (.object entries) ∧ ∃ entry ∈ entries, ∃ condition d,
        Document.HasCondition d.path condition entry ∧ W condition d ∧ (c = d ∨ c ∈ d.negated) := by
  rcases parse_cases h with ⟨-, rfl⟩ | ⟨entries, contents, rfl, hparsed⟩
  · rintro c ⟨⟩
  · rw [hparsed.clause]
    intro c hc
    obtain ⟨d, hd, horigin⟩ := (Expression.origin_normalized_negated _).1 c hc
    obtain ⟨entry, hmem, condition, hcondition, hw⟩ :=
      (Contents.keptByReading_written hW).ofEntries entries hparsed.read d hd
    exact ⟨entries, rfl, entry, hmem, condition, d, hcondition, hw, horigin⟩

/-- **No condition is lost and none is made up**: a clause compares on a path exactly if its document has a condition
on it. -/
theorem parse_conditionOn {schema : Schema} {limits : Limits} {filter : Option Json} {clause : Clause} {path : String}
    (hpath : IsFieldKey path) (h : Clause.parse schema limits filter = .ok clause) :
    (∃ c ∈ clause.expression.childrenFirst, c.path = path) ↔
      ∃ entries, filter = some (.object entries) ∧ ∃ entry ∈ entries, Document.ConditionOn path entry := by
  rw [← Expression.mem_map_path_atoms (operations_ne_nil_of_parse h)]
  rcases parse_cases h with ⟨hnone, rfl⟩ | ⟨entries, contents, rfl, hparsed⟩
  · rcases hnone with rfl | rfl <;> simp [Clause.empty, Expression.empty, Expression.atoms_node]
  · have hread := (Contents.keptByReading_comparesBy fun _ _ _ =>
      Condition.exists_path_of_comparisons path).ofEntries entries hparsed.read
    have hwritten : ∀ c ∈ contents.conjunction.childrenFirst, c.operations ≠ [] := by
      intro c hc
      have haccepted := Contents.keptByReading_allAccepted.ofEntries entries hparsed.read c hc
      obtain ⟨op, hop⟩ := haccepted.written.single
      simp [hop]
    have hpaths : clause.expression.atoms.map (·.path) = contents.conjunction.atoms.map (·.path) := by
      rw [hparsed.atoms]
      exact Expression.map_path_signedAtoms _ _
    rw [hpaths, Expression.mem_map_path_atoms hwritten]
    exact hread.trans (by simp [Document.conditionOn_iff hpath])

end DocumentFilter
