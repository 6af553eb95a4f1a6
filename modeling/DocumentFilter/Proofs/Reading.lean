/-
Reading filter documents, as an induction: what each way of reading an entry,
a list of entries or a list of elements keeps holds of all that is read
(`KeptByReading`). So a property of contents is shown once for each form that
a document has, without opening the three functions that read it.

`parse_cases` says what a parsed clause is: the empty one, or the contents of
an object, with operands checked, NOT removed and the identity rules obeyed.
-/
import DocumentFilter.Clause.Contents
import DocumentFilter.Proofs.Condition
import DocumentFilter.Proofs.Negation

namespace DocumentFilter

/-- The key is none of those that join or negate filters. -/
def IsFieldKey (key : String) : Prop := key ≠ "$and" ∧ key ≠ "$or" ∧ key ≠ "$not"

instance (key : String) : Decidable (IsFieldKey key) := inferInstanceAs (Decidable (_ ∧ _ ∧ _))

theorem IsFieldKey.ne_key {key : String} (h : IsFieldKey key) (j : Junction) : key ≠ j.key := by
  cases j with
  | and => exact h.1
  | or => exact h.2.1

namespace EntryKind

variable {schema : Schema} {key : String}

theorem key_of_junction {j : Junction} (h : ofKey schema key = .junction j) : key = j.key := by
  unfold ofKey at h
  split at h
  · cases h; rfl
  · cases h; rfl
  · cases h
  · split at h <;> cases h

theorem key_of_negation (h : ofKey schema key = .negation) : key = "$not" := by
  unfold ofKey at h
  split at h
  · cases h
  · cases h
  · rfl
  · split at h <;> cases h

theorem key_of_field (h : ofKey schema key = .field) : IsFieldKey key := by
  refine ⟨?_, ?_, ?_⟩ <;> rintro rfl <;> cases h

end EntryKind

namespace Contents

/-- The contents as a node of a junction. -/
def node (j : Junction) (c : Contents) : Expression := ⟨j.connective, c.children, c.comparisons⟩

variable {schema : Schema}

theorem ofEntry_junction (j : Junction) (items : List Json) : ofEntry schema j.key (.array items) =
    if items.isEmpty then .error (.invalidExpression (.emptyArray j))
    else (ofElements schema j items).map fun c => ofNode (c.node j) c.warnings := by
  cases j <;> (unfold ofEntry; rfl)

theorem ofEntry_junction_eq_ok {j : Junction} {items : List Json} {c : Contents} :
    ofEntry schema j.key (.array items) = .ok c ↔
      items ≠ [] ∧ ∃ d, ofElements schema j items = .ok d ∧ c = ofNode (d.node j) d.warnings := by
  rw [ofEntry_junction]
  cases items with
  | nil => simp
  | cons item items => simp [map_eq_ok, eq_comm (a := c)]

theorem ofEntry_negation (entries : List (String × Json)) : ofEntry schema "$not" (.object entries) =
    if entries.isEmpty then .error (.invalidExpression .badNegation)
    else (ofEntries schema entries).map fun c => ofNode ⟨.not, [c.conjunction], []⟩ c.warnings := by
  unfold ofEntry
  rfl

theorem ofEntry_negation_eq_ok {entries : List (String × Json)} {c : Contents} :
    ofEntry schema "$not" (.object entries) = .ok c ↔
      entries ≠ [] ∧ ∃ d, ofEntries schema entries = .ok d ∧ c = ofNode ⟨.not, [d.conjunction], []⟩ d.warnings := by
  rw [ofEntry_negation]
  cases entries with
  | nil => simp
  | cons entry entries => simp [map_eq_ok, eq_comm (a := c)]

theorem ofEntry_of_isFieldKey {key : String} (h : IsFieldKey key) (value : Json) : ofEntry schema key value =
    if isDollarKey key && !schema.isReserved key then .error (.unsupportedOperator key)
    else ofField schema key value := by
  have hkind : EntryKind.ofKey schema key = if isDollarKey key && !schema.isReserved key then .unknown else .field := by
    obtain ⟨hand, hor, hnot⟩ := h
    unfold EntryKind.ofKey
    split <;> trivial
  unfold ofEntry
  rw [hkind]
  cases isDollarKey key && !schema.isReserved key <;> rfl

/-- The ways of reading an entry: a junction of elements, a negation, or a field. -/
theorem ofEntry_eq_ok {key : String} {value : Json} {c : Contents} : ofEntry schema key value = .ok c ↔
    (∃ j items d, key = j.key ∧ value = .array items ∧ items ≠ [] ∧ ofElements schema j items = .ok d ∧
        c = ofNode (d.node j) d.warnings) ∨
      (∃ entries d, key = "$not" ∧ value = .object entries ∧ entries ≠ [] ∧ ofEntries schema entries = .ok d ∧
        c = ofNode ⟨.not, [d.conjunction], []⟩ d.warnings) ∨
      (EntryKind.ofKey schema key = .field ∧ ofField schema key value = .ok c) := by
  constructor
  · intro h
    unfold ofEntry at h
    split at h
    · rename_i j items hkey
      split at h
      · cases h
      · rename_i hne
        obtain ⟨d, hd, rfl⟩ := map_eq_ok.mp h
        exact .inl ⟨j, items, d, EntryKind.key_of_junction hkey, rfl, by simpa using hne, hd, rfl⟩
    · cases h
    · rename_i entries hkey
      split at h
      · cases h
      · rename_i hne
        obtain ⟨d, hd, rfl⟩ := map_eq_ok.mp h
        exact .inr (.inl ⟨entries, d, EntryKind.key_of_negation hkey, rfl, by simpa using hne, hd, rfl⟩)
    · cases h
    · cases h
    · rename_i hkey
      exact .inr (.inr ⟨hkey, h⟩)
  · intro h
    rcases h with ⟨j, items, d, rfl, rfl, hne, hd, rfl⟩ | ⟨entries, d, rfl, rfl, hne, hd, rfl⟩ | ⟨hkey, h⟩
    · exact ofEntry_junction_eq_ok.mpr ⟨hne, d, hd, rfl⟩
    · exact ofEntry_negation_eq_ok.mpr ⟨hne, d, hd, rfl⟩
    · unfold ofEntry
      simpa only [hkey] using h

theorem ofElements_cons_object {j : Junction} {entries : List (String × Json)} {items : List Json} {c : Contents} :
    ofElements schema j (.object entries :: items) = .ok c ↔ entries ≠ [] ∧
      ∃ first others, ofEntries schema entries = .ok first ∧ ofElements schema j items = .ok others ∧
        c = first.element ++ others := by
  cases entries with
  | nil => simp [ofElements, bind, Except.bind, throw, throwThe, MonadExceptOf.throw]
  | cons entry entries =>
    have hread : ofElements schema j (.object (entry :: entries) :: items) = (do
        let first ← ofEntries schema (entry :: entries)
        let others ← ofElements schema j items
        return first.element ++ others) := rfl
    simp only [hread, bind_eq_ok, pure_eq_ok, ne_eq, reduceCtorEq, not_false_eq_true, true_and]
    constructor
    · rintro ⟨first, hfirst, others, hothers, rfl⟩
      exact ⟨first, others, hfirst, hothers, rfl⟩
    · rintro ⟨first, others, hfirst, hothers, rfl⟩
      exact ⟨first, hfirst, others, hothers, rfl⟩

/-- Statements on what is read from an entry, from entries and from the elements of a junction, which every
way of reading keeps. -/
structure KeptByReading (schema : Schema) (onEntry : String → Json → Contents → Prop)
    (onEntries : List (String × Json) → Contents → Prop)
    (onElements : Junction → List Json → Contents → Prop) : Prop where
  field : ∀ {key value c}, IsFieldKey key → ofField schema key value = .ok c → onEntry key value c
  junction : ∀ {j items c}, items ≠ [] → onElements j items c →
    onEntry j.key (.array items) (ofNode (c.node j) c.warnings)
  negation : ∀ {entries c}, entries ≠ [] → onEntries entries c →
    onEntry "$not" (.object entries) (ofNode ⟨.not, [c.conjunction], []⟩ c.warnings)
  noEntries : onEntries [] {}
  entries : ∀ {key value rest first others}, onEntry key value first → onEntries rest others →
    onEntries ((key, value) :: rest) (first ++ others)
  noElements : ∀ {j}, onElements j [] {}
  elements : ∀ {j entries items first others}, entries ≠ [] → onEntries entries first →
    onElements j items others → onElements j (.object entries :: items) (first.element ++ others)

namespace KeptByReading

variable {P : String → Json → Contents → Prop} {Q : List (String × Json) → Contents → Prop}
  {R : Junction → List Json → Contents → Prop}

mutual
theorem ofEntry (h : KeptByReading schema P Q R) :
    ∀ (key : String) (value : Json) {c : Contents}, Contents.ofEntry schema key value = .ok c → P key value c
  | key, .array items, c, hc => by
    rcases ofEntry_eq_ok.mp hc with ⟨j, _, d, rfl, heq, hne, hd, rfl⟩ | ⟨_, _, _, heq, _⟩ | ⟨hkey, hfield⟩
    · cases heq
      exact h.junction hne (ofElements h j items hd)
    · cases heq
    · exact h.field (EntryKind.key_of_field hkey) hfield
  | key, .object entries, c, hc => by
    rcases ofEntry_eq_ok.mp hc with ⟨_, _, _, _, heq, _⟩ | ⟨_, d, rfl, heq, hne, hd, rfl⟩ | ⟨hkey, hfield⟩
    · cases heq
    · cases heq
      exact h.negation hne (ofEntries h entries hd)
    · exact h.field (EntryKind.key_of_field hkey) hfield
  | key, .null, c, hc | key, .bool _, c, hc | key, .number _, c, hc | key, .string _, c, hc => by
    rcases ofEntry_eq_ok.mp hc with ⟨_, _, _, _, heq, _⟩ | ⟨_, _, _, heq, _⟩ | ⟨hkey, hfield⟩
    · cases heq
    · cases heq
    · exact h.field (EntryKind.key_of_field hkey) hfield

theorem ofEntries (h : KeptByReading schema P Q R) :
    ∀ (entries : List (String × Json)) {c : Contents}, Contents.ofEntries schema entries = .ok c → Q entries c
  | [], c, hc => by
    cases hc
    exact h.noEntries
  | (key, value) :: rest, c, hc => by
    simp only [Contents.ofEntries, bind_eq_ok, pure_eq_ok] at hc
    obtain ⟨first, hfirst, others, hothers, rfl⟩ := hc
    exact h.entries (ofEntry h key value hfirst) (ofEntries h rest hothers)

theorem ofElements (h : KeptByReading schema P Q R) (j : Junction) :
    ∀ (items : List Json) {c : Contents}, Contents.ofElements schema j items = .ok c → R j items c
  | [], c, hc => by
    cases hc
    exact h.noElements
  | .object entries :: items, c, hc => by
    obtain ⟨hne, first, others, hfirst, hothers, rfl⟩ := ofElements_cons_object.mp hc
    exact h.elements hne (ofEntries h entries hfirst) (ofElements h j items hothers)
  | .null :: _, _, hc | .bool _ :: _, _, hc | .number _ :: _, _, hc | .string _ :: _, _, hc
  | .array _ :: _, _, hc => by cases hc
end

end KeptByReading

theorem ofField_eq_ok {path : String} {value : Json} {c : Contents} : ofField schema path value = .ok c ↔
    ∃ cs warnings, Condition.checkPath schema path value = .ok () ∧
      Condition.comparisons schema path value = .ok cs ∧ cs.mapM schema.check = .ok warnings ∧
      c = { comparisons := cs, warnings := warnings.filterMap id } := by
  simp only [ofField, bind_eq_ok, pure_eq_ok]
  constructor
  · rintro ⟨_, hpath, cs, hcs, warnings, hw, rfl⟩
    exact ⟨cs, warnings, hpath, hcs, hw, rfl⟩
  · rintro ⟨cs, warnings, hpath, hcs, hw, rfl⟩
    exact ⟨(), hpath, cs, hcs, warnings, hw, rfl⟩

/-! ## The comparisons that are read -/

/-- A comparison that a condition writes and the target accepts. -/
structure Accepted (schema : Schema) (c : Comparison) : Prop where
  written : Condition.Written schema c
  checked : ∃ warning, schema.check c = .ok warning

/-- Every comparison of the contents is accepted. -/
def AllAccepted (schema : Schema) (c : Contents) : Prop := ∀ d ∈ c.conjunction.childrenFirst, Accepted schema d

theorem mem_conjunction {c : Contents} {d : Comparison} :
    d ∈ c.conjunction.childrenFirst ↔ (∃ e ∈ c.children, d ∈ e.childrenFirst) ∨ d ∈ c.comparisons :=
  Expression.mem_childrenFirst

theorem mem_conjunction_append {a b : Contents} {d : Comparison} : d ∈ (a ++ b).conjunction.childrenFirst ↔
    d ∈ a.conjunction.childrenFirst ∨ d ∈ b.conjunction.childrenFirst := by
  have hchildren : (a ++ b).children = a.children ++ b.children := rfl
  have hcomparisons : (a ++ b).comparisons = a.comparisons ++ b.comparisons := rfl
  simp only [mem_conjunction, hchildren, hcomparisons, List.mem_append, or_and_right, exists_or]
  exact or_or_or_comm

theorem mem_conjunction_ofNode {e : Expression} {warnings : List Warning} {d : Comparison} :
    d ∈ (ofNode e warnings).conjunction.childrenFirst ↔ d ∈ e.childrenFirst := by
  simp [mem_conjunction, ofNode]

theorem mem_conjunction_element {c : Contents} {d : Comparison} :
    d ∈ c.element.conjunction.childrenFirst ↔ d ∈ c.conjunction.childrenFirst := by
  unfold element
  split
  · rfl
  · exact mem_conjunction_ofNode

theorem mem_childrenFirst_node {j : Junction} {c : Contents} {d : Comparison} :
    d ∈ (c.node j).childrenFirst ↔ d ∈ c.conjunction.childrenFirst := by
  rw [mem_conjunction]
  exact Expression.mem_childrenFirst

theorem keptByReading_allAccepted : KeptByReading schema (fun _ _ => AllAccepted schema)
    (fun _ => AllAccepted schema) (fun _ _ => AllAccepted schema) where
  field := by
    intro key value c _ h d hd
    obtain ⟨cs, warnings, -, hcs, hw, rfl⟩ := ofField_eq_ok.mp h
    have hd : d ∈ cs := by simpa [mem_conjunction] using hd
    obtain ⟨warning, -, hcheck⟩ := exists_right_of_forall₂ (mapM_eq_ok.mp hw) d hd
    exact ⟨(Condition.written_of_comparisons hcs d hd).1, warning, hcheck⟩
  junction := fun _ h d hd => h d (mem_childrenFirst_node.mp (mem_conjunction_ofNode.mp hd))
  negation := by
    intro entries c _ h d hd
    obtain ⟨e, he, hd⟩ | hd := Expression.mem_childrenFirst.mp (mem_conjunction_ofNode.mp hd)
    · rw [List.mem_singleton.mp he] at hd
      exact h d hd
    · cases hd
  noEntries := fun d hd => by simp [mem_conjunction] at hd
  entries := fun hfirst hothers d hd => (mem_conjunction_append.mp hd).elim (hfirst d) (hothers d)
  noElements := fun d hd => by simp [mem_conjunction] at hd
  elements := fun _ hfirst hothers d hd =>
    (mem_conjunction_append.mp hd).elim (fun hd => hfirst d (mem_conjunction_element.mp hd)) (hothers d)

/-! ## The shape that is read -/

/-- The contents are not empty. -/
def HoldsSome (c : Contents) : Prop := c.children ≠ [] ∨ c.comparisons ≠ []

/-- Below the contents no node is empty, every NOT stands before one child, and comparisons are single operations. -/
structure Proper (c : Contents) : Prop where
  children : ∀ e ∈ c.children, e.Proper
  comparisons : ∀ d ∈ c.comparisons, ∃ op, d.operations = [op]

theorem Proper.append {a b : Contents} (ha : a.Proper) (hb : b.Proper) : (a ++ b).Proper where
  children := fun e he => (List.mem_append.mp he).elim (ha.children e) (hb.children e)
  comparisons := fun d hd => (List.mem_append.mp hd).elim (ha.comparisons d) (hb.comparisons d)

theorem HoldsSome.append {a b : Contents} (ha : a.HoldsSome) : (a ++ b).HoldsSome :=
  ha.imp (fun h => List.append_ne_nil_of_left_ne_nil h _) (fun h => List.append_ne_nil_of_left_ne_nil h _)

theorem proper_node {j : Junction} {c : Contents} (hc : c.Proper) (hne : c.HoldsSome) : (c.node j).Proper :=
  .junction (by cases j <;> simp [Junction.connective]) hne hc.children hc.comparisons

theorem proper_ofNode {e : Expression} {warnings : List Warning} (he : e.Proper) : (ofNode e warnings).Proper where
  children := by simpa [ofNode] using he
  comparisons := by simp [ofNode]

theorem proper_element {c : Contents} (hc : c.Proper) (hne : c.HoldsSome) :
    c.element.Proper ∧ c.element.HoldsSome := by
  unfold element
  split
  · exact ⟨hc, hne⟩
  · exact ⟨proper_ofNode (proper_node (j := .and) hc hne), .inl (by simp [ofNode])⟩

theorem keptByReading_proper : KeptByReading schema (fun _ _ c => c.Proper ∧ c.HoldsSome)
    (fun entries c => c.Proper ∧ (entries ≠ [] → c.HoldsSome))
    (fun _ items c => c.Proper ∧ (items ≠ [] → c.HoldsSome)) where
  field := by
    intro key value c _ h
    obtain ⟨cs, warnings, -, hcs, -, rfl⟩ := ofField_eq_ok.mp h
    refine ⟨⟨by simp, fun d hd => ?_⟩, .inr (Condition.ne_nil_of_comparisons hcs)⟩
    exact (Condition.written_of_comparisons hcs d hd).1.single
  junction := fun hne h => ⟨proper_ofNode (proper_node h.1 (h.2 hne)), .inl (by simp [ofNode])⟩
  negation := fun hne h =>
    ⟨proper_ofNode (.negation (proper_node (j := .and) h.1 (h.2 hne))), .inl (by simp [ofNode])⟩
  noEntries := ⟨⟨by simp, by simp⟩, by simp⟩
  entries := fun hfirst hothers => ⟨hfirst.1.append hothers.1, fun _ => hfirst.2.append⟩
  noElements := ⟨⟨by simp, by simp⟩, by simp⟩
  elements := by
    intro j entries items first others hne hfirst hothers
    have hel := proper_element hfirst.1 (hfirst.2 hne)
    exact ⟨hel.1.append hothers.1, fun _ => hel.2.append⟩

end Contents

/-! ## Parsed clauses -/

/-- What an accepted filter object and its clause obey. -/
structure Parsed (schema : Schema) (limits : Limits) (entries : List (String × Json)) (clause : Clause)
    (contents : Contents) : Prop where
  read : Contents.ofEntries schema entries = .ok contents
  operands : contents.conjunction.checkOperands limits = .ok ()
  identity : ∀ path, schema.identityPath? = some path →
    contents.conjunction.normalized.checkIdentity path = .ok ()
  clause : clause = ⟨contents.conjunction.normalized, schema.identityPath?, contents.warnings.eraseDups, true⟩

/-- A clause that has just been made is validated by the identity rules alone. -/
theorem validate_ofExpression {e : Expression} {identityPath : Option String} {warnings : List Warning}
    {clause : Clause} (h : (Clause.ofExpression e identityPath warnings).validate = .ok clause) :
    (∀ path, identityPath = some path → e.normalized.checkIdentity path = .ok ()) ∧
      clause = ⟨e.normalized, identityPath, warnings, true⟩ := by
  cases identityPath with
  | none =>
    cases h
    exact ⟨by simp, rfl⟩
  | some path =>
    obtain ⟨⟨⟩, hcheck, rfl⟩ := map_eq_ok.mp h
    refine ⟨?_, rfl⟩
    rintro _ ⟨⟩
    exact hcheck

/-- The empty clause is parsed from no filter and from null, every other clause from an object. -/
theorem parse_cases {schema : Schema} {limits : Limits} {filter : Option Json} {clause : Clause}
    (h : Clause.parse schema limits filter = .ok clause) :
    ((filter = none ∨ filter = some .null) ∧ clause = .empty) ∨
      ∃ entries contents, filter = some (.object entries) ∧ Parsed schema limits entries clause contents := by
  unfold Clause.parse at h
  split at h
  · cases h
    exact .inl ⟨.inl rfl, rfl⟩
  · cases h
    exact .inl ⟨.inr rfl, rfl⟩
  · rename_i entries
    simp only [bind_eq_ok] at h
    obtain ⟨contents, hread, _, hops, hvalid⟩ := h
    obtain ⟨hidentity, hclause⟩ := validate_ofExpression hvalid
    exact .inr ⟨entries, contents, rfl, hread, hops, hidentity, hclause⟩
  · cases h

end DocumentFilter
