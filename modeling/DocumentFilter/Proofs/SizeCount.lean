/-
The counts of `$size`, from the filter to the primitives.

A count reaches its primitive as the whole part of its binary64 value, and NOT as
the sign of that value. So over a collection the sizes of a compiled filter are,
up to order, one for each `$size` condition of the filter: on its path, negated
if an odd number of NOTs stands above it, and of the length that rounding leaves
of the count (`compile_counts`).
-/
import DocumentFilter.Compile
import DocumentFilter.Proofs.Count
import DocumentFilter.Proofs.Fields
import DocumentFilter.Proofs.ReadBack
import DocumentFilter.Proofs.Rounding

namespace DocumentFilter

/-- The atom asks for a size. -/
def Atom.isSize (a : Atom) : Bool := a.operation.operator == .size

@[simp]
theorem Atom.isSize_signed (negative : Bool) (a : Atom) : (a.signed negative).isSize = a.isSize := by
  cases negative with
  | false => rfl
  | true =>
    obtain ⟨path, component, operator, operand⟩ := a
    cases operator <;> rfl

/-! ## The sizes of a filter -/

/-- The condition that asks for a size and nothing else. -/
def sizeOnly (n : Number) : Json := .object [("$size", .number n)]

/-- The filter that asks for a size and nothing else. -/
def sizeFilter (path : String) (n : Number) : Json := .object [(path, sizeOnly n)]

/-- The filter that asks for any other size. -/
def notSizeFilter (path : String) (n : Number) : Json := .object [("$not", sizeFilter path n)]

/-- The counts that a condition asks for with `$size`. -/
def Condition.counts : Json → List Number
  | .object entries => entries.filterMap fun
    | ("$size", .number n) => some n
    | _ => none
  | _ => []

namespace Document

/-- A `$size` condition of a filter; `negative` if it stands below an odd number of NOTs. -/
structure SizeCondition where
  negative : Bool
  path : String
  count : Number

/-- The condition as a field that asks for nothing else. -/
def SizeCondition.field (s : SizeCondition) : Field := ⟨s.negative, s.path, sizeOnly s.count⟩

/-- What the condition asks. -/
def SizeCondition.atom (s : SizeCondition) : Atom :=
  Atom.signed s.negative ⟨s.path, none, ⟨.size, .number s.count⟩⟩

/-- The `$size` conditions of a field. -/
def Field.sizes (field : Field) : List SizeCondition :=
  (Condition.counts field.condition).map fun n => ⟨field.negative, field.path, n⟩

/-- The `$size` conditions of a filter, at any depth, in the order in which they stand there. -/
def sizes (filter : Option Json) : List SizeCondition := (fieldsOf filter).flatMap Field.sizes

end Document

namespace Condition

variable {schema : CollectionSchema} {limits : Limits} {path : String}

/-- An object that is no list of operators has no `$size`. -/
theorem counts_eq_nil {entries : List (String × Json)} (h : isOperatorObject entries = false) :
    counts (.object entries) = [] := by
  refine List.filterMap_eq_nil_iff.mpr fun entry hentry => ?_
  split
  · cases h.symm.trans (isOperatorObject_of_mem hentry (by decide) rfl)
  · rfl

/-- The sizes that an entry of an operator object writes are its counts. -/
theorem filter_isSize_of_comparison {key : String} {value : Json} {c : Comparison}
    (h : comparison (.collection schema) path key value = .ok c)
    (hchecked : ∀ op ∈ c.operations, op.check limits = .ok ()) :
    c.atoms.filter Atom.isSize = (counts (.object [(key, value)])).map fun n => ⟨path, none, ⟨.size, .number n⟩⟩ := by
  obtain ⟨op, literal, rfl, hoperand, rfl⟩ := comparison_eq_ok.mp h
  by_cases hop : op = .size
  · subst hop
    obtain ⟨n, x, rfl, -⟩ := Operation.checkSize_eq_ok.mp (hchecked ⟨.size, literal⟩ List.mem_cons_self)
    have hwrites := writes_of_operand (by simp) hoperand
    cases hwrites
    rfl
  · have hcounts : counts (.object [(op.key, value)]) = [] := by
      cases op <;> first | exact absurd rfl hop | rfl
    have hatoms : (Comparison.single path op literal).atoms.filter Atom.isSize = [] := by
      simp [Comparison.atoms, Comparison.single, Atom.isSize, hop]
    rw [hcounts, hatoms]
    rfl

/-- The sizes that an operator object writes are its counts, entry by entry. -/
theorem filter_isSize_of_entries {entries : List (String × Json)} {cs : List Comparison}
    (h : List.Forall₂ (fun entry c => comparison (.collection schema) path entry.1 entry.2 = .ok c) entries cs)
    (hchecked : ∀ c ∈ cs, ∀ op ∈ c.operations, op.check limits = .ok ()) :
    (cs.flatMap Comparison.atoms).filter Atom.isSize =
      (counts (.object entries)).map fun n => ⟨path, none, ⟨.size, .number n⟩⟩ := by
  induction h with
  | nil => rfl
  | @cons entry c entries cs hfirst _ ih =>
    rw [List.forall_mem_cons] at hchecked
    have hcounts : counts (.object (entry :: entries)) = counts (.object [entry]) ++ counts (.object entries) := by
      rw [← List.singleton_append, counts, List.filterMap_append]
      rfl
    rw [List.flatMap_cons, List.filter_append, filter_isSize_of_comparison hfirst hchecked.1, ih hchecked.2, hcounts,
      List.map_append]

/-- The sizes that a condition writes are its counts. -/
theorem filter_isSize_of_comparisons {value : Json} {cs : List Comparison}
    (h : comparisons (.collection schema) path value = .ok cs)
    (hchecked : ∀ c ∈ cs, ∀ op ∈ c.operations, op.check limits = .ok ()) :
    (cs.flatMap Comparison.atoms).filter Atom.isSize =
      (counts value).map fun n => ⟨path, none, ⟨.size, .number n⟩⟩ := by
  have plain {cs : List Comparison} (h : equality (.collection schema) path value = .ok cs) :
      (cs.flatMap Comparison.atoms).filter Atom.isSize = [] := by
    obtain ⟨literal, -, rfl⟩ := equality_eq_ok.mp h
    rfl
  unfold comparisons at h
  split at h
  · rename_i entries
    split at h
    · exact filter_isSize_of_entries (mapM_eq_ok.mp h) hchecked
    · rename_i hplain
      rw [plain h, counts_eq_nil (by simpa using hplain)]
      rfl
  · rename_i hother
    have hnone : counts value = [] := by
      cases value with
      | object entries => exact absurd rfl (hother entries)
      | _ => rfl
    rw [plain h, hnone]
    rfl

end Condition

namespace Document

variable {schema : CollectionSchema} {limits : Limits}

/-- The sizes that a field asks for are those of its conditions. -/
theorem Field.IsRead.filter_isSize {field : Field} (h : field.IsRead (.collection schema))
    (hchecked : ∀ c ∈ (field.contents (.collection schema)).comparisons,
      ∀ op ∈ c.operations, op.check limits = .ok ()) :
    (field.atoms (.collection schema)).filter Atom.isSize = field.sizes.map SizeCondition.atom := by
  obtain ⟨cs, warnings, hcs, -, hc⟩ := h.condition
  rw [hc] at hchecked
  have hsigned : Atom.isSize ∘ Atom.signed field.negative = Atom.isSize := funext (Atom.isSize_signed _)
  rw [Field.atoms, hc, List.filter_map, hsigned, Condition.filter_isSize_of_comparisons hcs hchecked, List.map_map,
    Field.sizes, List.map_map]
  rfl

/-- The count of a `$size` condition of a filter that is read has been checked. -/
theorem Field.IsRead.check_of_mem_sizes {field : Field} (h : field.IsRead (.collection schema))
    (hchecked : ∀ c ∈ (field.contents (.collection schema)).comparisons,
      ∀ op ∈ c.operations, op.check limits = .ok ())
    {s : SizeCondition} (hs : s ∈ field.sizes) : Operation.check limits ⟨.size, .number s.count⟩ = .ok () := by
  obtain ⟨cs, warnings, hcs, -, hc⟩ := h.condition
  rw [hc] at hchecked
  obtain ⟨n, hn, rfl⟩ := List.mem_map.mp hs
  have hatom : (⟨field.path, none, ⟨.size, .number n⟩⟩ : Atom) ∈ (cs.flatMap Comparison.atoms).filter Atom.isSize := by
    rw [Condition.filter_isSize_of_comparisons hcs hchecked]
    exact List.mem_map_of_mem hn
  obtain ⟨c, hmem, ha⟩ := List.mem_flatMap.mp (List.mem_of_mem_filter hatom)
  exact hchecked c hmem _ (Comparison.mem_atoms.mp ha).2.2

end Document

/-! ## The sizes of a compiled filter -/

namespace CollectionFilter

/-- The primitive is a size. -/
def isSize : CollectionFilter → Bool
  | .size .. => true
  | _ => false

theorem StandsFor.isSize_eq {p : CollectionFilter} {a : Atom} (h : StandsFor p a) : p.isSize = a.isSize := by
  cases h with
  | id test | idIn test | isIn _ test | number _ test | text _ test | bool _ test | isNull _ test | date _ test
  | arrayEquals _ test | subDocumentEquals _ test => cases test <;> rfl
  | _ => rfl

end CollectionFilter

/-- A primitive that stands for a size is a size, with the sign of the count. -/
theorem CollectionFilter.StandsFor.of_size {p : CollectionFilter} {path : String} {n : Number}
    (h : StandsFor p ⟨path, none, ⟨.size, .number n⟩⟩) :
    ∃ x, n.toBinary64? = some x ∧ p = .size path x.wholePart x.negative := by
  generalize ha : (⟨path, none, ⟨.size, .number n⟩⟩ : Atom) = a at h
  cases h with
  | size _ hx =>
    cases ha
    exact ⟨_, hx, rfl⟩
  | id test | idIn test | isIn _ test | number _ test | text _ test | bool _ test | isNull _ test | date _ test
  | arrayEquals _ test | subDocumentEquals _ test => cases test <;> cases ha
  | presence | all | notAny => cases ha

namespace Document.SizeCondition

open CollectionFilter

/-- What the condition becomes: a size on its path, of the whole part of the count, which is negated if either an odd
number of NOTs stands above or the count is `-0.0`. -/
def CompilesTo (s : SizeCondition) (p : CollectionFilter) : Prop :=
  ∃ x, s.count.toBinary64? = some x ∧ x.isBelowZero = false ∧
    p = .size s.path x.wholePart (s.negative ^^ s.count.isNegativeZero)

theorem compilesTo_of_standsFor {limits : Limits} {s : SizeCondition} {p : CollectionFilter}
    (hchecked : Operation.check limits ⟨.size, .number s.count⟩ = .ok ()) (h : StandsFor p s.atom) :
    s.CompilesTo p := by
  have hsize : Operation.checkSize ⟨.size, .number s.count⟩ = .ok () := hchecked
  obtain ⟨n, x, heq, hx, hzero, -⟩ := Operation.checkSize_eq_ok.mp hsize
  obtain ⟨negative, path, count⟩ := s
  cases heq
  refine ⟨x, hx, hzero, ?_⟩
  rw [← Number.negative_of_toBinary64? hx hzero]
  cases negative with
  | false =>
    obtain ⟨y, hy, rfl⟩ := StandsFor.of_size h
    cases hx.symm.trans hy
    rw [Bool.false_xor]
  | true =>
    obtain ⟨y, hy, rfl⟩ := StandsFor.of_size h
    cases (Number.toBinary64?_negated hx).symm.trans hy
    rw [Bool.true_xor]
    rfl

end Document.SizeCondition

namespace CollectionFilter

open Document

section Sizes

variable {schema : CollectionSchema} {limits limits' : Limits} {filter : Option Json} {clause : Clause}
  {r : Resolved CollectionFilter}

/-- The primitives of a resolved filter stand, up to order, for what its fields ask. -/
theorem standsFor_of_resolve (hparse : Clause.parse (.collection schema) limits filter = .ok clause)
    (hresolve : resolve limits' clause = .ok r) : ∃ primitives, r.tree.filters.Perm primitives ∧
      List.Forall₂ StandsFor primitives ((fieldsOf filter).flatMap fun field => field.atoms (.collection schema)) :=
  (readsBackAs hparse hresolve).filters (parse_ofFields hparse).atoms

/-- **A compiled filter has one size for each `$size` condition**, up to order. -/
theorem sizes_of_compile (h : compile schema limits filter = .ok r) :
    ∃ primitives, (r.tree.filters.filter isSize).Perm primitives ∧
      List.Forall₂ SizeCondition.CompilesTo (sizes filter) primitives := by
  obtain ⟨clause, hparse, hresolve⟩ := bind_eq_ok.mp h
  obtain ⟨primitives, hperm, hstands⟩ := standsFor_of_resolve hparse hresolve
  have hfields := parse_ofFields hparse
  have hsizes : ((fieldsOf filter).flatMap fun field => field.atoms (.collection schema)).filter Atom.isSize =
      (sizes filter).map SizeCondition.atom := by
    rw [List.filter_flatMap, sizes, List.map_flatMap]
    exact List.flatMap_congr fun field hfield =>
      (hfields.isRead field hfield).filter_isSize (hfields.checked field hfield)
  have hchecked : ∀ s ∈ sizes filter, Operation.check limits ⟨.size, .number s.count⟩ = .ok () := by
    intro s hs
    obtain ⟨field, hfield, hs⟩ := List.mem_flatMap.mp hs
    exact (hfields.isRead field hfield).check_of_mem_sizes (hfields.checked field hfield) hs
  refine ⟨primitives.filter isSize, hperm.filter _, ?_⟩
  have hfiltered : List.Forall₂ StandsFor (primitives.filter isSize) ((sizes filter).map SizeCondition.atom) := by
    rw [← hsizes]
    exact List.rel_filter (fun _ _ hpa => Bool.eq_iff_iff.mp hpa.isSize_eq) hstands
  have hatoms := (List.forall₂_map_right_iff.mp hfiltered).flip
  exact ((List.forall₂_and_left _ _).mpr ⟨hchecked, hatoms⟩).imp fun s p hs =>
    SizeCondition.compilesTo_of_standsFor hs.1 hs.2

/-! ## Integer counts -/

/-- How a `$size` condition is kept where its count is an integer: the count is natural, the length is what rounding
leaves of it, and the size is negated if and only if an odd number of NOTs stands above the condition. -/
def KeepsSize (s : SizeCondition) (p : CollectionFilter) : Prop :=
  ∃ length negated, p = .size s.path length negated ∧ ∀ i : Int, s.count = .int i →
    negated = s.negative ∧ ∃ n : Nat, i = n ∧ Binary64.RoundsTo n length

theorem keepsSize_of_compilesTo {s : SizeCondition} {p : CollectionFilter} (h : s.CompilesTo p) : KeepsSize s p := by
  obtain ⟨x, hx, hzero, rfl⟩ := h
  refine ⟨_, _, rfl, fun i hi => ?_⟩
  rw [hi] at hx ⊢
  exact ⟨Bool.xor_false _, Binary64.roundsTo_of_ofInt? hx hzero⟩

/-- **A count survives as far as binary64 numbers go**, at any depth: up to `2^53` exactly, above it rounded to 53
binary digits, and negated only by NOT. -/
theorem compile_counts (h : compile schema limits filter = .ok r) :
    ∃ primitives, (r.tree.filters.filter isSize).Perm primitives ∧
      List.Forall₂ KeepsSize (sizes filter) primitives := by
  obtain ⟨primitives, hperm, hsizes⟩ := sizes_of_compile h
  exact ⟨primitives, hperm, hsizes.imp fun _ _ => keepsSize_of_compilesTo⟩

end Sizes

/-- A count above `2^53` in an OR, and two counts below one and two NOTs. -/
def nestedCounts : Json :=
  .object [("$or", .array [.object [("tags", .object [("$size", .number (.int 9007199254740995))])],
    .object [("$not", .object [("tags", .object [("$size", .number (.int 3))]),
      ("$not", .object [("a.b", .object [("$size", .number (.int 0))])])])]])]

theorem compile_counts_nested :
    ∃ r, compile { name := "users" } {} (some nestedCounts) = .ok r ∧
      r.tree.filters.filter isSize =
        [.size "tags" 9007199254740996 false, .size "tags" 3 true, .size "a.b" 0 false] ∧
      ∃ primitives, (r.tree.filters.filter isSize).Perm primitives ∧
        List.Forall₂ KeepsSize (sizes (some nestedCounts)) primitives := by
  have hfilters : (compile { name := "users" } {} (some nestedCounts)).map (·.tree.filters.filter isSize) =
      .ok [.size "tags" 9007199254740996 false, .size "tags" 3 true, .size "a.b" 0 false] := by
    decide +kernel
  obtain ⟨r, hcompile, hr⟩ := map_eq_ok.mp hfilters
  exact ⟨r, hcompile, hr, compile_counts hcompile⟩

/-- `2^53 + 1` is a count that is accepted, and compiles to `2^53`. -/
theorem compile_sizeFilter_rounded :
    ∃ r, compile { name := "users" } {} (some (sizeFilter "tags" (.int 9007199254740993))) = .ok r ∧
      r.tree.filters = [.size "tags" 9007199254740992 false] := by
  have hfilters : (compile { name := "users" } {} (some (sizeFilter "tags" (.int 9007199254740993)))).map
      (·.tree.filters) = .ok [.size "tags" 9007199254740992 false] := by
    decide +kernel
  exact map_eq_ok.mp hfilters

end CollectionFilter

end DocumentFilter
