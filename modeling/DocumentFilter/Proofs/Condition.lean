/-
What a condition on a field can write. Each function that reads a part of a
condition has one lemma that says exactly when it succeeds and with which
comparison; together they give `Written`, the two forms that a comparison of
a filter may have before negation: a single operation whose operand was
decoded for its path, or an element test on a component that fits the column.
-/
import DocumentFilter.Clause.Condition
import DocumentFilter.Proofs.Outcome

namespace DocumentFilter

namespace Operator

theorem key_of_ofKey? {key : String} {op : Operator} (h : ofKey? key = some op) : key = op.key := by
  unfold ofKey? at h
  split at h <;> cases h <;> rfl

theorem isDollarKey_key (op : Operator) : isDollarKey op.key = true := by cases op <;> decide

theorem selector_key (op : Operator) : Selector.ofKey? op.key = none := by cases op <;> rfl

end Operator

namespace Selector

theorem key_of_ofKey? {key : String} {selector : Selector} (h : ofKey? key = some selector) : key = selector.key := by
  unfold ofKey? at h
  split at h <;> cases h <;> rfl

theorem ofKey?_key (selector : Selector) : ofKey? selector.key = some selector := by cases selector <;> rfl

end Selector

/-- The components that tests on a container may look at. -/
def ContainerKind.components : ContainerKind → List Component
  | .list => [.listValue]
  | .set => [.setValue]
  | .map => [.mapKey, .mapValue, .mapEntry]

namespace Condition

variable {schema : Schema} {path key : String} {value : Json}

theorem ne_nil_of_isOperatorObject {entries : List (String × Json)} (h : isOperatorObject entries = true) :
    entries ≠ [] := by
  rintro rfl
  cases h

/-- An object with a dollar key is a list of operators, unless the key is a tag. -/
theorem isOperatorObject_of_mem {entries : List (String × Json)} (h : (key, value) ∈ entries)
    (hdollar : isDollarKey key = true) (hplain : ExtendedTag.ofKey? key = none) : isOperatorObject entries = true := by
  have hwrapper : ExtendedValue.wrapper? entries = none := by
    match entries with
    | [] | _ :: _ :: _ => rfl
    | [entry] =>
      rw [← List.mem_singleton.mp h]
      simp [ExtendedValue.wrapper?, hplain]
  rw [isOperatorObject, hwrapper, List.any_eq_true.mpr ⟨_, h, hdollar⟩]
  rfl

theorem operatorOf_eq_ok {op : Operator} : operatorOf path key = .ok op ↔ key = op.key := by
  constructor
  · intro h
    unfold operatorOf at h
    split at h
    · split at h
      · rename_i op' hop
        cases h
        exact Operator.key_of_ofKey? hop
      · cases h
    · cases h
  · rintro rfl
    rw [operatorOf, if_pos op.isDollarKey_key, Operator.ofKey?_key]

theorem comparison_eq_ok {c : Comparison} : comparison schema path key value = .ok c ↔
    ∃ op literal, key = op.key ∧ operand schema path op value = .ok literal ∧ c = .single path op literal := by
  simp only [comparison, bind_eq_ok, pure_eq_ok, operatorOf_eq_ok]
  constructor
  · rintro ⟨op, hkey, literal, hl, rfl⟩
    exact ⟨op, literal, hkey, hl, rfl⟩
  · rintro ⟨op, literal, hkey, hl, rfl⟩
    exact ⟨op, hkey, literal, hl, rfl⟩

theorem containerComparison_eq_ok {kind : ContainerKind} {c : Comparison} :
    containerComparison schema path kind key value = .ok c ↔ ∃ op literal, key = op.key ∧
      ((op.isContainerTest = true ∧ (kind = .map → checkEntries op value = .ok ()) ∧
          Literal.ofJson value = .ok literal ∧ c = .single path op literal (some kind.component)) ∨
        (op.isContainerTest = false ∧ operand schema path op value = .ok literal ∧
          c = .single path op literal)) := by
  simp only [containerComparison, bind_eq_ok, operatorOf_eq_ok]
  constructor
  · rintro ⟨op, hkey, h⟩
    split at h
    · rename_i htest
      split at h
      · simp only [bind_eq_ok, pure_eq_ok] at h
        obtain ⟨_, hpairs, literal, hl, rfl⟩ := h
        exact ⟨op, literal, hkey, .inl ⟨htest, fun _ => hpairs, hl, rfl⟩⟩
      · rename_i hmap
        simp only [bind_eq_ok, pure_eq_ok] at h
        obtain ⟨literal, hl, rfl⟩ := h
        exact ⟨op, literal, hkey, .inl ⟨htest, fun hk => absurd hk hmap, hl, rfl⟩⟩
    · rename_i htest
      simp only [bind_eq_ok, pure_eq_ok] at h
      obtain ⟨literal, hl, rfl⟩ := h
      exact ⟨op, literal, hkey, .inr ⟨by simpa using htest, hl, rfl⟩⟩
  · rintro ⟨op, literal, hkey, ⟨htest, hpairs, hl, rfl⟩ | ⟨htest, hl, rfl⟩⟩ <;> refine ⟨op, hkey, ?_⟩
    · rw [if_pos htest]
      split
      · rename_i hmap
        simp only [bind_eq_ok, pure_eq_ok]
        exact ⟨(), hpairs hmap, literal, hl, rfl⟩
      · simp only [bind_eq_ok, pure_eq_ok]
        exact ⟨literal, hl, rfl⟩
    · simp only [htest, Bool.false_eq_true, if_false, bind_eq_ok, pure_eq_ok]
      exact ⟨literal, hl, rfl⟩

theorem selectedComparison_eq_ok {selector : Selector} {c : Comparison} :
    selectedComparison path selector key value = .ok c ↔ ∃ op literal, key = op.key ∧
      op.isContainerTest = true ∧ Literal.ofJson value = .ok literal ∧
      c = .single path op literal (some selector.component) := by
  simp only [selectedComparison, bind_eq_ok, operatorOf_eq_ok]
  constructor
  · rintro ⟨op, hkey, h⟩
    split at h
    · rename_i htest
      simp only [bind_eq_ok, pure_eq_ok] at h
      obtain ⟨literal, hl, rfl⟩ := h
      exact ⟨op, literal, hkey, htest, hl, rfl⟩
    · cases h
  · rintro ⟨op, literal, hkey, htest, hl, rfl⟩
    refine ⟨op, hkey, ?_⟩
    rw [if_pos htest]
    simp only [bind_eq_ok, pure_eq_ok]
    exact ⟨literal, hl, rfl⟩

theorem containerEntry_eq_ok {kind : ContainerKind} {cs : List Comparison} :
    containerEntry schema path kind key value = .ok cs ↔
      (Selector.ofKey? key = none ∧ ∃ c, containerComparison schema path kind key value = .ok c ∧ cs = [c]) ∨
        ∃ selector entries, Selector.ofKey? key = some selector ∧ kind = .map ∧ value = .object entries ∧
          entries ≠ [] ∧
          List.Forall₂ (fun entry c => selectedComparison path selector entry.1 entry.2 = .ok c) entries cs := by
  unfold containerEntry
  split
  · rename_i hsel
    simp only [hsel, map_eq_ok, true_and, reduceCtorEq, false_and, exists_false, or_false, eq_comm (a := cs)]
  · rename_i selector hsel
    simp only [hsel, reduceCtorEq, false_and, false_or, Option.some.injEq]
    split
    · rename_i hkind
      constructor
      · rintro ⟨⟩
      · rintro ⟨_, _, _, hmap, _⟩
        exact absurd hmap hkind
    · rename_i hkind
      split
      · rename_i entry entries
        rw [mapM_eq_ok]
        constructor
        · exact fun h => ⟨selector, _, rfl, by simpa using hkind, rfl, by simp, h⟩
        · rintro ⟨_, _, rfl, _, he, _, h⟩
          cases he
          exact h
      · rename_i hobj
        constructor
        · rintro ⟨⟩
        · rintro ⟨_, entries, rfl, _, rfl, hne, _⟩
          obtain ⟨entry, rest, rfl⟩ := List.exists_cons_of_ne_nil hne
          exact absurd rfl (hobj entry rest)

theorem equality_eq_ok {cs : List Comparison} : equality schema path value = .ok cs ↔
    ∃ literal, operand schema path .eq value = .ok literal ∧ cs = [.single path .eq literal] := by
  simp only [equality, bind_eq_ok, pure_eq_ok, eq_comm (a := cs)]

/-! ## The comparisons of a condition -/

/-- A comparison as a condition writes it. -/
inductive Written (schema : Schema) : Comparison → Prop
  /-- An operator on the whole value, which on a container is no test of its elements. -/
  | whole {path op value literal} : (schema.containerKind? path ≠ none → op.isContainerTest = false) →
      operand schema path op value = .ok literal → Written schema (.single path op literal)
  /-- A test on a component of a container. -/
  | element {path op value literal kind component} : schema.containerKind? path = some kind →
      component ∈ kind.components → op.isContainerTest = true → Literal.ofJson value = .ok literal →
      (component = .mapEntry → checkEntries op value = .ok ()) →
      Written schema (.single path op literal (some component))

theorem written_of_containerEntry {kind : ContainerKind} {cs : List Comparison}
    (hkind : schema.containerKind? path = some kind)
    (h : containerEntry schema path kind key value = .ok cs) : ∀ c ∈ cs, Written schema c ∧ c.path = path := by
  rcases containerEntry_eq_ok.mp h with ⟨-, c, hc, rfl⟩ | ⟨selector, entries, -, rfl, -, -, hcs⟩
  · rw [List.forall_mem_singleton]
    obtain ⟨op, literal, -, ⟨htest, hpairs, hl, rfl⟩ | ⟨htest, hl, rfl⟩⟩ := containerComparison_eq_ok.mp hc
    · refine ⟨.element hkind ?_ htest hl fun hentry => hpairs ?_, rfl⟩
      · cases kind <;> simp [ContainerKind.components, ContainerKind.component]
      · cases kind <;> simp [ContainerKind.component] at hentry ⊢
    · exact ⟨.whole (fun _ => htest) hl, rfl⟩
  · intro c hc
    obtain ⟨⟨key, value⟩, -, h⟩ := exists_left_of_forall₂ hcs c hc
    obtain ⟨op, literal, -, htest, hl, rfl⟩ := selectedComparison_eq_ok.mp h
    refine ⟨.element hkind ?_ htest hl fun hentry => ?_, rfl⟩
    · cases selector <;> simp [ContainerKind.components, Selector.component]
    · cases selector <;> cases hentry

/-- What a condition on a path writes. -/
theorem written_of_comparisons {cs : List Comparison} (h : comparisons schema path value = .ok cs) :
    ∀ c ∈ cs, Written schema c ∧ c.path = path := by
  have plain {cs} (h : equality schema path value = .ok cs) : ∀ c ∈ cs, Written schema c ∧ c.path = path := by
    obtain ⟨literal, hl, rfl⟩ := equality_eq_ok.mp h
    rw [List.forall_mem_singleton]
    exact ⟨.whole (fun _ => rfl) hl, rfl⟩
  unfold comparisons at h
  split at h
  · split at h
    · unfold operatorObject at h
      split at h
      · rename_i hkind
        intro c hc
        obtain ⟨⟨key, value⟩, -, h⟩ := exists_left_of_forall₂ (mapM_eq_ok.mp h) c hc
        obtain ⟨op, literal, -, hl, rfl⟩ := comparison_eq_ok.mp h
        exact ⟨.whole (fun hne => absurd hkind hne) hl, rfl⟩
      · rename_i kind hkind
        obtain ⟨lists, hlists, rfl⟩ := map_eq_ok.mp h
        intro c hc
        obtain ⟨cs, hcs, hc⟩ := List.mem_flatten.mp hc
        obtain ⟨⟨key, value⟩, -, h⟩ := exists_left_of_forall₂ (mapM_eq_ok.mp hlists) cs hcs
        exact written_of_containerEntry hkind h c hc
    · exact plain h
  · exact plain h

/-- A written comparison is a single operation. -/
theorem Written.single {c : Comparison} (h : Written schema c) : ∃ op, c.operations = [op] := by
  cases h <;> exact ⟨_, rfl⟩

theorem ne_nil_of_containerEntry {kind : ContainerKind} {cs : List Comparison}
    (h : containerEntry schema path kind key value = .ok cs) : cs ≠ [] := by
  rcases containerEntry_eq_ok.mp h with ⟨-, c, -, rfl⟩ | ⟨_, entries, -, -, -, hne, hcs⟩
  · simp
  · rintro rfl
    exact hne (List.forall₂_nil_right_iff.mp hcs)

/-- A condition writes at least one comparison. -/
theorem ne_nil_of_comparisons {cs : List Comparison} (h : comparisons schema path value = .ok cs) : cs ≠ [] := by
  have plain {cs} (h : equality schema path value = .ok cs) : cs ≠ [] := by
    obtain ⟨literal, -, rfl⟩ := equality_eq_ok.mp h
    simp
  unfold comparisons at h
  split at h
  · split at h
    · rename_i entries hentries
      have hne : entries ≠ [] := ne_nil_of_isOperatorObject hentries
      unfold operatorObject at h
      split at h
      · rintro rfl
        exact hne (List.forall₂_nil_right_iff.mp (mapM_eq_ok.mp h))
      · obtain ⟨lists, hlists, rfl⟩ := map_eq_ok.mp h
        obtain ⟨entry, rest, rfl⟩ := List.exists_cons_of_ne_nil hne
        obtain ⟨cs, others, hcs, -, rfl⟩ := List.forall₂_cons_left_iff.mp (mapM_eq_ok.mp hlists)
        rw [List.flatten_cons]
        exact List.append_ne_nil_of_left_ne_nil (ne_nil_of_containerEntry hcs) _
    · exact plain h
  · exact plain h

/-- A condition has comparisons on its own path and on no other. -/
theorem exists_path_of_comparisons (other : String) {cs : List Comparison}
    (h : comparisons schema path value = .ok cs) : (∃ d ∈ cs, d.path = other) ↔ path = other := by
  have hpaths : ∀ d ∈ cs, d.path = path := fun d hd => (written_of_comparisons h d hd).2
  constructor
  · rintro ⟨d, hd, rfl⟩
    exact (hpaths d hd).symm
  · intro hpath
    obtain ⟨d, hd⟩ := List.exists_mem_of_ne_nil cs (ne_nil_of_comparisons h)
    exact ⟨d, hd, (hpaths d hd).trans hpath⟩

end Condition

end DocumentFilter
