/-
The sign of a size, in filters and in their negations.

NOT reaches a size as the sign of its count, so a sign that the count brought
along is taken for one. Counts are checked not to be below zero, and of the
numbers that pass only `-0.0` has a sign: a size that stands alone compiles to a
size that is not negated, and its negation to the same one negated, unless the
count is `-0.0`, where it is the other way round (`compile_sizeSign`).
-/
import DocumentFilter.Proofs.SizeCount

namespace DocumentFilter

namespace CollectionFilter

open Document

section SingleSize

variable {schema : CollectionSchema} {limits : Limits} {path : String} {n : Number}

theorem comparisons_size :
    Condition.comparisons (.collection schema) path (sizeOnly n) = .ok [.single path .size (.number n)] := by
  have hoperand : Condition.operand (.collection schema) path .size (.number n) = .ok (.number n) := by
    unfold Condition.operand
    split <;> rfl
  have hcomparison : Condition.comparison (.collection schema) path "$size" (.number n) =
      .ok (.single path .size (.number n)) := Condition.comparison_eq_ok.mpr ⟨.size, _, rfl, hoperand, rfl⟩
  have hoperators : Condition.isOperatorObject [("$size", .number n)] = true :=
    Condition.isOperatorObject_of_mem List.mem_cons_self (by decide) rfl
  rw [sizeOnly, Condition.comparisons_of_operators hoperators]
  exact mapM_eq_ok.mpr (.cons hcomparison .nil)

theorem tree_size (hpath : IsFieldKey path) :
    tree (.collection schema) [(path, sizeOnly n)] = ⟨.and, [], [.single path .size (.number n)]⟩ := by
  simp [tree, allNodes, nodes_of_field hpath, conditions, condition, hpath,
    Condition.asks_of_comparisons comparisons_size]

theorem tree_notSize (hpath : IsFieldKey path) : tree (.collection schema) [("$not", sizeFilter path n)] =
    ⟨.and, [⟨.not, [⟨.and, [], [.single path .size (.number n)]⟩], []⟩], []⟩ := by
  have hnodes : nodes (.collection schema) "$not" (sizeFilter path n) =
      [⟨.not, [⟨.and, [], [.single path .size (.number n)]⟩], []⟩] := by
    rw [sizeFilter, nodes_negation, tree_size hpath]
  simp [tree, allNodes, hnodes, conditions, condition, IsFieldKey]

/-! ### Reading -/

theorem field_of_entry_number {Field : String → Json → Prop} (h : Document.Entry Field path (.number n)) :
    Field path (.number n) := by
  cases h with
  | field hfield => exact hfield

/-- An operator stands behind a field; below a NOT it would be an entry of its own, and it is none. -/
theorem readsField_of_entry_size (h : Entry (Contents.ReadsField (.collection schema) limits) path (sizeOnly n)) :
    Contents.ReadsField (.collection schema) limits path (sizeOnly n) := by
  cases h with
  | field hread => exact hread
  | negation _ hentries =>
    have hread := field_of_entry_number (hentries ("$size", .number n) List.mem_cons_self)
    have hunknown : EntryKind.ofKey (.collection schema) "$size" = .unknown := rfl
    cases hunknown.symm.trans hread.1

/-- The path of a size that is read is a field, and not the identity. -/
theorem readsField_of_parse_size {clause : Clause}
    (h : Clause.parse (.collection schema) limits (some (sizeFilter path n)) = .ok clause) :
    Contents.ReadsField (.collection schema) limits path (sizeOnly n) ∧ path ≠ CollectionSchema.identityPath := by
  rcases (parse_ok_iff fun _ _ => Iff.rfl).mp ⟨clause, h⟩ with hnone | hnull | ⟨entries, heq, hentries, hidentity⟩
  · cases hnone
  · cases hnull
  · cases heq
    have hread := readsField_of_entry_size (hentries _ List.mem_cons_self)
    refine ⟨hread, ?_⟩
    rintro rfl
    have hrule := hidentity _ rfl
    rw [tree_size (EntryKind.key_of_field hread.1)] at hrule
    cases hrule.tests (.single _ .size (.number n)) List.mem_cons_self rfl _ List.mem_cons_self

/-- If a size can be read, so can its negation. -/
theorem parse_notSizeFilter {clause : Clause}
    (h : Clause.parse (.collection schema) limits (some (sizeFilter path n)) = .ok clause) :
    ∃ clause', Clause.parse (.collection schema) limits (some (notSizeFilter path n)) = .ok clause' := by
  obtain ⟨hread, hpath⟩ := readsField_of_parse_size h
  have hentry : Entry (Contents.ReadsField (.collection schema) limits) "$not" (sizeFilter path n) :=
    .negation (by simp) fun entry hentry => by
      obtain rfl := List.mem_singleton.mp hentry
      exact .field hread
  have hunused : (tree (.collection schema) [("$not", sizeFilter path n)]).normalized.usesOf
      CollectionSchema.identityPath = [] := by
    have hnormalized : (tree (.collection schema) [("$not", sizeFilter path n)]).normalized =
        ⟨.and, [⟨.and, [], [.single path .size (.number n.negated)]⟩], []⟩ := by
      rw [tree_notSize (EntryKind.key_of_field hread.1)]
      rfl
    rw [hnormalized]
    simp [Expression.usesOf, Expression.attributed, Expression.attributedAll, Comparison.single, hpath]
  refine (parse_ok_iff fun _ _ => Iff.rfl).mpr (.inr (.inr ⟨_, rfl, by simpa using hentry, ?_⟩))
  intro identity hidentity
  obtain rfl : CollectionSchema.identityPath = identity := Option.some.inj hidentity
  rw [Expression.identityRule_iff, hunused]
  simp

/-! ### Resolving -/

variable {limits' : Limits} {filter : Option Json} {clause : Clause} {s : SizeCondition}

/-- A filter with a single field that asks for a size asks for nothing else. -/
theorem atoms_of_single (hparse : Clause.parse (.collection schema) limits filter = .ok clause)
    (hfields : fieldsOf filter = [s.field]) :
    ((fieldsOf filter).flatMap fun field => field.atoms (.collection schema)) = [s.atom] := by
  have hread := (parse_ofFields hparse).isRead s.field (by simp [hfields])
  obtain ⟨cs, warnings, hcs, -, hc⟩ := hread.condition
  obtain rfl := Except.ok.inj (comparisons_size.symm.trans hcs)
  rw [hfields, List.flatMap_singleton, Field.atoms, hc]
  rfl

/-- A filter with a single size is resolved to what that becomes. -/
theorem filters_of_single {r : Resolved CollectionFilter}
    (hparse : Clause.parse (.collection schema) limits filter = .ok clause)
    (hfields : fieldsOf filter = [s.field])
    (hresolve : resolve limits' clause = .ok r) : ∃ p, r.tree.filters = [p] ∧ s.CompilesTo p := by
  have hread := parse_ofFields hparse
  have hmem : s.field ∈ fieldsOf filter := by simp [hfields]
  have hsize : s ∈ s.field.sizes := List.mem_cons_self
  have hchecked := (hread.isRead _ hmem).check_of_mem_sizes (hread.checked _ hmem) hsize
  obtain ⟨primitives, hperm, hstands⟩ := standsFor_of_resolve hparse hresolve
  rw [atoms_of_single hparse hfields] at hstands
  obtain ⟨p, _, hp, hnil, rfl⟩ := List.forall₂_cons_right_iff.mp hstands
  cases hnil
  exact ⟨p, List.perm_singleton.mp hperm, SizeCondition.compilesTo_of_standsFor hchecked hp⟩

/-- A filter with a single size is resolved wherever one primitive is allowed. -/
theorem exists_resolve_single (hparse : Clause.parse (.collection schema) limits filter = .ok clause)
    (hfields : fieldsOf filter = [s.field])
    (hlimit : 1 ≤ limits'.maxFilters) : ∃ r, resolve limits' clause = .ok r := by
  have hatoms := (parse_ofFields hparse).atoms
  rw [atoms_of_single hparse hfields] at hatoms
  rcases apply_rules_cases hparse with ⟨-, tree, htree⟩ | ⟨c, _, hfind, -⟩
  · have hcount : tree.count = 1 := by
      have hresolve : resolve { maxFilters := tree.count } clause = .ok ⟨tree, clause.warnings⟩ :=
        RuleTable.resolve_eq_ok.mpr ⟨tree, htree, Nat.le_refl _, rfl⟩
      obtain ⟨p, hfilters, -⟩ := filters_of_single hparse hfields hresolve
      rw [← tree.length_filters, hfilters]
      rfl
    exact ⟨_, RuleTable.resolve_eq_ok.mpr ⟨tree, htree, hcount ▸ hlimit, rfl⟩⟩
  · have hunordered : c.ordersUnordered = true := List.find?_some hfind
    obtain ⟨op, hop, horder⟩ := List.any_eq_true.mp hunordered
    have hmem : (⟨c.path, c.component, op⟩ : Atom) ∈ clause.expression.atoms :=
      List.mem_flatMap.mpr ⟨c, Expression.mem_flatten_iff.mpr (List.mem_of_find?_eq_some hfind),
        Comparison.mem_atoms.mpr ⟨rfl, rfl, hop⟩⟩
    have hsize : Atom.isSize ⟨c.path, c.component, op⟩ = true := by
      rw [List.mem_singleton.mp (hatoms.mem_iff.mp hmem), SizeCondition.atom, Atom.isSize_signed]
      rfl
    have hoperator : op.operator = .size := eq_of_beq hsize
    simp [ordersUnordered, hoperator] at horder

theorem fieldsOf_sizeFilter (hpath : IsFieldKey path) :
    fieldsOf (some (sizeFilter path n)) = [SizeCondition.field ⟨false, path, n⟩] := by
  simp [fieldsOf, sizeFilter, Document.fields, entryFields_of_field hpath, SizeCondition.field]

theorem fieldsOf_notSizeFilter (hpath : IsFieldKey path) :
    fieldsOf (some (notSizeFilter path n)) = [SizeCondition.field ⟨true, path, n⟩] := by
  simp [fieldsOf, notSizeFilter, sizeFilter, Document.fields, entryFields_negation, entryFields_of_field hpath,
    SizeCondition.field]

/-- A size that compiles is negated if its count is `-0.0`; its negation has the same length and the other sign. -/
theorem compile_of_sizeFilter {r : Resolved CollectionFilter}
    (h : compile schema limits (some (sizeFilter path n)) = .ok r) :
    ∃ length, r.tree.filters = [.size path length n.isNegativeZero] ∧
      ∃ r', compile schema limits (some (notSizeFilter path n)) = .ok r' ∧
        r'.tree.filters = [.size path length (!n.isNegativeZero)] := by
  obtain ⟨clause, hparse, hresolve⟩ := bind_eq_ok.mp h
  have hpath : IsFieldKey path := EntryKind.key_of_field (readsField_of_parse_size hparse).1.1
  obtain ⟨_, hfilters, x, hx, -, rfl⟩ := filters_of_single hparse (fieldsOf_sizeFilter hpath) hresolve
  have hlimit : 1 ≤ limits.maxFilters := by
    obtain ⟨tree, -, hcount, rfl⟩ := RuleTable.resolve_eq_ok.mp hresolve
    rwa [← tree.length_filters, hfilters] at hcount
  obtain ⟨clause', hparse'⟩ := parse_notSizeFilter hparse
  have hfields' := fieldsOf_notSizeFilter (n := n) hpath
  obtain ⟨r', hresolve'⟩ := exists_resolve_single hparse' hfields' hlimit
  obtain ⟨_, hfilters', x', hx', -, rfl⟩ := filters_of_single hparse' hfields' hresolve'
  obtain rfl := Option.some.inj (hx.symm.trans hx')
  rw [Bool.false_xor] at hfilters
  rw [Bool.true_xor] at hfilters'
  exact ⟨x.wholePart, hfilters, r', bind_eq_ok.mpr ⟨clause', hparse', hresolve'⟩, hfilters'⟩

end SingleSize

/-- **The sign of a size is that of NOT, but for `-0.0`.** A size alone that compiles becomes one primitive, negated if
and only if its count is `-0.0`; its negation compiles too, to the same length with the other sign. In any filter a
negated size comes from a condition below an odd number of NOTs, or with the count `-0.0` below an even one. -/
theorem compile_sizeSign (schema : CollectionSchema) (limits : Limits) :
    (∀ path n r, compile schema limits (some (sizeFilter path n)) = .ok r →
        ∃ length, r.tree.filters = [.size path length n.isNegativeZero] ∧
          ∃ r', compile schema limits (some (notSizeFilter path n)) = .ok r' ∧
            r'.tree.filters = [.size path length (!n.isNegativeZero)]) ∧
      ∀ filter r, compile schema limits filter = .ok r → ∀ path length,
        .size path length true ∈ r.tree.filters → ∃ s ∈ sizes filter, s.path = path ∧
          (s.negative ^^ s.count.isNegativeZero) = true := by
  refine ⟨fun _ _ _ => compile_of_sizeFilter, fun filter r h path length hmem => ?_⟩
  obtain ⟨primitives, hperm, hsizes⟩ := sizes_of_compile h
  have hmem : CollectionFilter.size path length true ∈ primitives :=
    hperm.mem_iff.mp (List.mem_filter.mpr ⟨hmem, rfl⟩)
  obtain ⟨s, hs, x, -, -, heq⟩ := exists_left_of_forall₂ hsizes _ hmem
  injection heq with hpath _ hsign
  exact ⟨s, hs, hpath.symm, hsign.symm⟩

theorem compile_sizeSign_zero :
    ∃ r, compile { name := "users" } {} (some (sizeFilter "tags" (.int 0))) = .ok r ∧
      (∃ length, r.tree.filters = [.size "tags" length false] ∧
        ∃ r', compile { name := "users" } {} (some (notSizeFilter "tags" (.int 0))) = .ok r' ∧
          r'.tree.filters = [.size "tags" length true]) ∧
      ∃ s ∈ sizes (some (notSizeFilter "tags" (.int 0))), s.path = "tags" ∧
        (s.negative ^^ s.count.isNegativeZero) = true := by
  have hfilters : (compile { name := "users" } {} (some (sizeFilter "tags" (.int 0)))).map (·.tree.filters) =
      .ok [.size "tags" 0 false] := by
    decide +kernel
  obtain ⟨r, hcompile, -⟩ := map_eq_ok.mp hfilters
  obtain ⟨length, hr, r', hcompile', hr'⟩ := (compile_sizeSign { name := "users" } {}).1 "tags" (.int 0) r hcompile
  have hmem : CollectionFilter.size "tags" length true ∈ r'.tree.filters := hr' ▸ List.mem_cons_self
  exact ⟨r, hcompile, ⟨length, hr, r', hcompile', hr'⟩,
    (compile_sizeSign { name := "users" } {}).2 _ r' hcompile' "tags" length hmem⟩

/-- `-0.0` is a count that is accepted: it asks for any length but zero, and its negation for length zero. -/
theorem compile_sizeFilter_negativeZero :
    (∃ r, compile { name := "users" } {} (some (sizeFilter "tags" (.float (Binary64.zero true)))) = .ok r ∧
        r.tree.filters = [.size "tags" 0 true]) ∧
      ∃ r, compile { name := "users" } {} (some (notSizeFilter "tags" (.float (Binary64.zero true)))) = .ok r ∧
        r.tree.filters = [.size "tags" 0 false] := by
  have hfilters : (compile { name := "users" } {} (some (sizeFilter "tags" (.float (Binary64.zero true))))).map
      (·.tree.filters) = .ok [.size "tags" 0 true] := by
    decide +kernel
  have hnegated : (compile { name := "users" } {} (some (notSizeFilter "tags" (.float (Binary64.zero true))))).map
      (·.tree.filters) = .ok [.size "tags" 0 false] := by
    decide +kernel
  exact ⟨map_eq_ok.mp hfilters, map_eq_ok.mp hnegated⟩

end CollectionFilter

end DocumentFilter
