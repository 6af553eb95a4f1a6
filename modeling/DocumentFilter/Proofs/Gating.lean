/-
The configured limits gate, and do nothing else.

One limit is on the lists that membership tests write, wherever they stand in
the filter: every such list becomes the operand of a comparison, one with as
many members (`exists_lists_iff`), and operands are checked before anything is
rewritten. The other is on the primitives of the resolved tree. No other step
looks at the limits, so of a filter that compiles under some limits it is known
how it fares under any others (`Gated`).
-/
import DocumentFilter.Compile
import DocumentFilter.Proofs.Grammar
import DocumentFilter.Proofs.Occurrence
import DocumentFilter.Proofs.Resolution

namespace DocumentFilter

/-! ## Operators and what they write -/

namespace Condition

variable {schema : Schema} {path key : String} {value : Json}

/-- The operators of an operator object with their operands, those below a selector in its place. -/
def operators (entries : List (String × Json)) : List (String × Json) :=
  entries.flatMap fun entry =>
    match Selector.ofKey? entry.1, entry.2 with
    | some _, .object inner => inner
    | _, _ => [entry]

/-- The comparison is a single operation, with the operator of the key and an operand of the form of the JSON; the
operand of an equality may also be an id. -/
def Spells (entry : String × Json) (c : Comparison) : Prop :=
  ∃ op literal, entry.1 = op.key ∧ c.operations = [⟨op, literal⟩] ∧ (op ≠ .eq ∧ op ≠ .ne → Writes entry.2 literal)

theorem spells_of_comparison {c : Comparison} (h : comparison schema path key value = .ok c) :
    Spells (key, value) c := by
  obtain ⟨op, literal, hkey, hl, rfl⟩ := comparison_eq_ok.mp h
  exact ⟨op, literal, hkey, rfl, fun hop => writes_of_operand hop hl⟩

theorem spells_of_containerComparison {kind : ContainerKind} {c : Comparison}
    (h : containerComparison schema path kind key value = .ok c) : Spells (key, value) c := by
  obtain ⟨op, literal, hkey, ⟨-, -, hl, rfl⟩ | ⟨-, hl, rfl⟩⟩ := containerComparison_eq_ok.mp h
  · exact ⟨op, literal, hkey, rfl, fun _ => writes_of_ofJson hl⟩
  · exact ⟨op, literal, hkey, rfl, fun hop => writes_of_operand hop hl⟩

theorem spells_of_selectedComparison {selector : Selector} {c : Comparison}
    (h : selectedComparison path selector key value = .ok c) : Spells (key, value) c := by
  obtain ⟨op, literal, hkey, -, hl, rfl⟩ := selectedComparison_eq_ok.mp h
  exact ⟨op, literal, hkey, rfl, fun _ => writes_of_ofJson hl⟩

/-- The comparisons of an operator object, operator by operator. -/
theorem spells_of_operatorObject {entries : List (String × Json)} {cs : List Comparison}
    (h : operatorObject schema path entries = .ok cs) : List.Forall₂ Spells (operators entries) cs := by
  unfold operatorObject at h
  split at h
  · have hcs := mapM_eq_ok.mp h
    have hsingle : cs = (cs.map fun c => [c]).flatten := by rw [← List.flatMap_def, List.flatMap_singleton']
    rw [hsingle]
    refine forall₂_flatMap (List.forall₂_map_right_iff.mpr (hcs.imp fun entry c hc => ?_))
    obtain ⟨op, _, hkey, -⟩ := spells_of_comparison hc
    simp only [show entry.1 = op.key from hkey, op.selector_key]
    exact .cons (spells_of_comparison hc) .nil
  · obtain ⟨lists, hlists, rfl⟩ := map_eq_ok.mp h
    refine forall₂_flatMap ((mapM_eq_ok.mp hlists).imp fun entry list hlist => ?_)
    rcases containerEntry_eq_ok.mp hlist with ⟨hselector, c, hc, rfl⟩ | ⟨selector, inner, hselector, -, hvalue, -, hcs⟩
    · simp only [hselector]
      exact .cons (spells_of_containerComparison hc) .nil
    · simp only [hselector, hvalue]
      exact hcs.imp fun _ _ => spells_of_selectedComparison

/-! ## Lists -/

/-- The condition applies the operator to the list. -/
def Lists (op : Operator) (items : List Json) (condition : Json) : Prop :=
  ∃ entries, condition = .object entries ∧ (op.key, .array items) ∈ operators entries

theorem Lists.isOperatorObject {op : Operator} {items : List Json} {entries : List (String × Json)}
    (h : Lists op items (.object entries)) : isOperatorObject entries = true := by
  obtain ⟨_, heq, hmem⟩ := h
  cases heq
  obtain ⟨⟨key, value⟩, hentry, hmem⟩ := List.mem_flatMap.mp hmem
  split at hmem
  · rename_i selector inner hselector _
    obtain rfl : key = selector.key := Selector.key_of_ofKey? hselector
    exact isOperatorObject_of_mem hentry (by cases selector <;> decide) (by cases selector <;> rfl)
  · cases List.mem_singleton.mp hmem
    exact isOperatorObject_of_mem hentry op.isDollarKey_key (by cases op <;> rfl)

end Condition

/-- The comparison applies the operator to a list of so many members. -/
def Comparison.Lists (op : Operator) (count : Nat) (c : Comparison) : Prop :=
  ∃ values, ⟨op, .array values⟩ ∈ c.operations ∧ values.length = count

theorem Condition.Spells.lists_iff {entry : String × Json} {c : Comparison} (h : Spells entry c) {op : Operator}
    (hop : op ≠ .eq ∧ op ≠ .ne) {count : Nat} :
    c.Lists op count ↔ ∃ items, entry = (op.key, .array items) ∧ items.length = count := by
  obtain ⟨key, value⟩ := entry
  obtain ⟨written, literal, rfl, hsingle, hwrites⟩ := h
  simp only [Comparison.Lists, hsingle, List.mem_singleton, Operation.mk.injEq, Prod.mk.injEq]
  constructor
  · rintro ⟨values, ⟨rfl, rfl⟩, rfl⟩
    cases hwrites hop with
    | array hlength => exact ⟨_, ⟨rfl, rfl⟩, hlength.symm⟩
  · rintro ⟨items, ⟨hkey, rfl⟩, rfl⟩
    obtain rfl : written = op := Option.some.inj (by rw [← Operator.ofKey?_key, hkey, Operator.ofKey?_key])
    cases hwrites hop with
    | array hlength => exact ⟨_, ⟨rfl, rfl⟩, hlength⟩

/-- A condition has a comparison with a list exactly if it writes one. -/
theorem Condition.exists_lists_iff {schema : Schema} {path : String} {value : Json} {cs : List Comparison}
    (h : comparisons schema path value = .ok cs) {op : Operator} (hop : op ≠ .eq ∧ op ≠ .ne) {count : Nat} :
    (∃ c ∈ cs, c.Lists op count) ↔ ∃ items, Lists op items value ∧ items.length = count := by
  rcases isPlain_or_operators value with hplain | ⟨entries, rfl, hoperators⟩
  · rw [comparisons_of_isPlain hplain] at h
    obtain ⟨literal, -, rfl⟩ := equality_eq_ok.mp h
    constructor
    · rintro ⟨c, hc, values, hmem, -⟩
      rw [List.mem_singleton.mp hc] at hmem
      cases List.mem_singleton.mp hmem
      exact absurd rfl hop.1
    · rintro ⟨items, hlists, -⟩
      obtain ⟨entries, rfl, -⟩ := id hlists
      cases hlists.isOperatorObject.symm.trans (hplain entries rfl)
  · rw [comparisons_of_operators hoperators] at h
    have hspells := spells_of_operatorObject h
    constructor
    · rintro ⟨c, hc, hlists⟩
      obtain ⟨entry, hmem, hspell⟩ := exists_left_of_forall₂ hspells c hc
      obtain ⟨items, rfl, hcount⟩ := (hspell.lists_iff hop).mp hlists
      exact ⟨items, ⟨entries, rfl, hmem⟩, hcount⟩
    · rintro ⟨items, ⟨_, heq, hmem⟩, hcount⟩
      cases heq
      obtain ⟨c, hc, hspell⟩ := exists_right_of_forall₂ hspells _ hmem
      exact ⟨c, hc, (hspell.lists_iff hop).mpr ⟨items, rfl, hcount⟩⟩

/-! ## The limit on lists -/

/-- Some membership test of the filter, wherever it stands, has the list. -/
def Document.Lists (filter : Option Json) (op : Operator) (items : List Json) : Prop :=
  (op = .isIn ∨ op = .notIn) ∧ ∃ entries, filter = some (.object entries) ∧
    ∃ entry ∈ entries, Document.SomeCondition (fun _ condition => Condition.Lists op items condition) entry

/-- Every list of the filter's membership tests is within the limit. -/
def Document.ListsWithin (limits : Limits) (filter : Option Json) : Prop :=
  ∀ op items, Document.Lists filter op items → items.length ≤ limits.maxInValues

/-- The lists of a document are those of the comparisons that are read from it. -/
theorem Contents.exists_lists_iff {schema : Schema} {entries : List (String × Json)} {c : Contents}
    (h : ofEntries schema entries = .ok c) {op : Operator} (hop : op = .isIn ∨ op = .notIn) {count : Nat} :
    (∃ d ∈ c.conjunction.childrenFirst, d.Lists op count) ↔
      ∃ items, Document.Lists (some (.object entries)) op items ∧ items.length = count := by
  have hplain : op ≠ .eq ∧ op ≠ .ne := by rcases hop with rfl | rfl <;> simp
  refine ((keptByReading_comparesBy fun _ _ _ hcs => Condition.exists_lists_iff hcs hplain).ofEntries entries h).trans ?_
  constructor
  · rintro ⟨entry, hmem, path, condition, hpath, hcondition, items, hlists, hcount⟩
    exact ⟨items, ⟨hop, entries, rfl, entry, hmem, path, condition, hpath, hcondition, hlists⟩, hcount⟩
  · rintro ⟨items, ⟨-, _, heq, entry, hmem, path, condition, hpath, hcondition, hlists⟩, hcount⟩
    cases heq
    exact ⟨entry, hmem, path, condition, hpath, hcondition, items, hlists, hcount⟩

section Check

variable {limits limits' : Limits}

/-- An operation that is checked under some limits fails under others only by the length of its list. -/
theorem Operation.check_error {op : Operation} (h : op.check limits' = .ok ()) {err : FilterError}
    (herr : op.check limits = .error err) : (op.operator = .isIn ∨ op.operator = .notIn) ∧
      ∃ values, op.operand = .array values ∧ limits.maxInValues < values.length ∧
        err = .tooManyValues op.operator limits.maxInValues values.length := by
  have members (h : op.checkMembership limits' = .ok ()) (herr : op.checkMembership limits = .error err) :
      ∃ values, op.operand = .array values ∧ limits.maxInValues < values.length ∧
        err = .tooManyValues op.operator limits.maxInValues values.length := by
    obtain ⟨values, hvalues, -⟩ := checkMembership_eq_ok.mp h
    simp only [checkMembership, hvalues] at herr
    split at herr
    · cases herr
    · rename_i hmany
      cases herr
      exact ⟨values, hvalues, by simpa using hmany, rfl⟩
  unfold check at h herr
  split at h <;> rename_i hop <;> simp only [hop] at herr
  · exact ⟨.inl hop, members h herr⟩
  · exact ⟨.inr hop, members h herr⟩
  all_goals cases h.symm.trans herr

/-- What is checked is within the limit. -/
theorem Operation.length_le_of_check {op : Operator} (hop : op = .isIn ∨ op = .notIn) {values : List Literal}
    (h : check limits ⟨op, .array values⟩ = .ok ()) : values.length ≤ limits.maxInValues := by
  have h : checkMembership limits ⟨op, .array values⟩ = .ok () := by rcases hop with rfl | rfl <;> exact h
  obtain ⟨_, heq, hlength⟩ := checkMembership_eq_ok.mp h
  cases heq
  exact hlength

/-- **Under other limits a filter parses to the same clause**, or one of its lists is too long and is named. -/
theorem parse_gated {schema : Schema} {filter : Option Json} {clause : Clause}
    (h : Clause.parse schema limits' filter = .ok clause) :
    (Document.ListsWithin limits filter ∧ Clause.parse schema limits filter = .ok clause) ∨
      ∃ op items, Document.Lists filter op items ∧ limits.maxInValues < items.length ∧
        Clause.parse schema limits filter = .error (.tooManyValues op limits.maxInValues items.length) := by
  have hnone (hfilter : ∀ entries, filter ≠ some (.object entries)) : Document.ListsWithin limits filter := by
    rintro op items ⟨-, entries, heq, -⟩
    exact absurd heq (hfilter entries)
  unfold Clause.parse at h ⊢
  split at h
  · cases h
    exact .inl ⟨hnone (by simp), rfl⟩
  · cases h
    exact .inl ⟨hnone (by simp), rfl⟩
  · rename_i entries
    obtain ⟨contents, hread, h⟩ := bind_eq_ok.mp h
    obtain ⟨⟨⟩, hchecked', hvalid⟩ := bind_eq_ok.mp h
    cases hchecked : contents.conjunction.checkOperands limits with
    | ok _ =>
      refine .inl ⟨?_, bind_eq_ok.mpr ⟨contents, hread, bind_eq_ok.mpr ⟨_, hchecked, hvalid⟩⟩⟩
      rintro op items ⟨hop, hlists⟩
      obtain ⟨d, hd, values, hmem, hlength⟩ :=
        (Contents.exists_lists_iff hread hop).mpr ⟨items, ⟨hop, hlists⟩, rfl⟩
      rw [← hlength]
      exact Operation.length_le_of_check hop (Expression.checkOperands_eq_ok.mp hchecked d hd _ hmem)
    | error err =>
      obtain ⟨d, hd, herr⟩ := forM_eq_error hchecked
      obtain ⟨op, hmem, herr⟩ := forM_eq_error herr
      obtain ⟨hop, values, hvalues, hmany, rfl⟩ :=
        Operation.check_error (Expression.checkOperands_eq_ok.mp hchecked' d hd op hmem) herr
      obtain ⟨items, hlists, hlength⟩ :=
        (Contents.exists_lists_iff hread hop).mp ⟨d, hd, values, hvalues ▸ hmem, rfl⟩
      refine .inr ⟨op.operator, items, hlists, hlength ▸ hmany, ?_⟩
      rw [hlength]
      exact bind_eq_error.mpr (.inr ⟨contents, hread, bind_eq_error.mpr (.inl hchecked)⟩)
  · cases h

end Check

/-! ## Both limits -/

/-- How a filter that compiles to `r` under some limits fares under others: it is refused for a list that is too
long, or else for the number of its primitives, or it compiles to the same. -/
structure Gated {F : Type} (limits : Limits) (filter : Option Json) (r : Resolved F)
    (outcome : Except FilterError (Resolved F)) : Prop where
  listed : ¬ Document.ListsWithin limits filter → ∃ op items, Document.Lists filter op items ∧
    limits.maxInValues < items.length ∧ outcome = .error (.tooManyValues op limits.maxInValues items.length)
  counted : Document.ListsWithin limits filter → limits.maxFilters < r.tree.filters.length →
    outcome = .error (.tooManyFilters limits.maxFilters r.tree.filters.length)
  within : Document.ListsWithin limits filter → r.tree.filters.length ≤ limits.maxFilters → outcome = .ok r

/-- Resolving looks at the limit on primitives only, after everything else. -/
theorem gated_of_parse {F : Type} {schema : Schema} {limits limits' : Limits} {filter : Option Json}
    {resolve : Limits → Clause → Except FilterError (Resolved F)} {apply : Expression → Except FilterError (FilterTree F)}
    (hresolve : ∀ limits clause, resolve limits clause = apply clause.expression >>= Resolved.ofTree limits clause)
    {r : Resolved F} (h : Clause.parse schema limits' filter >>= resolve limits' = .ok r) :
    Gated limits filter r (Clause.parse schema limits filter >>= resolve limits) := by
  obtain ⟨clause, hparse, hr⟩ := bind_eq_ok.mp h
  rw [hresolve] at hr
  obtain ⟨tree, htree, hlimit⟩ := bind_eq_ok.mp hr
  obtain ⟨-, hr⟩ := Resolved.ofTree_eq_ok.mp hlimit
  rcases parse_gated hparse with ⟨hwithin, hparse⟩ | ⟨op, items, hlists, hmany, hparse⟩
  · have houtcome : Clause.parse schema limits filter >>= resolve limits = Resolved.ofTree limits clause tree := by
      rw [hparse]
      exact (hresolve limits clause).trans (by rw [htree]; rfl)
    rw [houtcome, hr]
    unfold Resolved.ofTree
    refine ⟨fun hlong => absurd hwithin hlong, fun _ hmany => ?_, fun _ hfew => ?_⟩ <;>
      rw [FilterTree.length_filters] at *
    · exact if_neg (Nat.not_le.mpr hmany)
    · exact if_pos hfew
  · have houtcome : Clause.parse schema limits filter >>= resolve limits =
        .error (.tooManyValues op limits.maxInValues items.length) := bind_eq_error.mpr (.inl hparse)
    have hlong : ¬ Document.ListsWithin limits filter :=
      fun hwithin => absurd (hwithin op items hlists) (Nat.not_le.mpr hmany)
    exact ⟨fun _ => ⟨op, items, hlists, hmany, houtcome⟩, fun hwithin => absurd hwithin hlong,
      fun hwithin => absurd hwithin hlong⟩

/-- **The limits hold and do nothing but gate**: how a filter that compiles under some limits fares under any others. -/
theorem compile_gated (limits limits' : Limits) (filter : Option Json) :
    (∀ schema r, CollectionFilter.compile schema limits' filter = .ok r →
        Gated limits filter r (CollectionFilter.compile schema limits filter)) ∧
      ∀ table r, TableFilter.compile table limits' filter = .ok r →
        Gated limits filter r (TableFilter.compile table limits filter) :=
  ⟨fun _ _ h => gated_of_parse (fun _ _ => rfl) h, fun _ _ h => gated_of_parse (fun _ _ => rfl) h⟩

/-- A filter that leaves out listed identities and the grown-up. -/
def neitherListedNorGrown : Json :=
  .object [("$not", .object [("$or", .array [
    .object [("_id", .object [("$in", .array [.string "a", .string "b", .string "c"])])],
    .object [("age", .object [("$gte", .number (.int 18))])]])])]

theorem lists_neitherListedNorGrown :
    Document.Lists (some neitherListedNorGrown) .isIn [.string "a", .string "b", .string "c"] :=
  ⟨.inl rfl, _, rfl, _, List.mem_cons_self, "_id", _, by decide,
    .negation List.mem_cons_self (.junction (j := .or) List.mem_cons_self List.mem_cons_self .field),
    _, rfl, List.mem_cons_self⟩

theorem compile_gated_neitherListedNorGrown :
    ∃ r, CollectionFilter.compile { name := "users" } {} (some neitherListedNorGrown) = .ok r ∧
      r.tree.filters = [.idIn .notIn [.string "a", .string "b", .string "c"], .number "age" .lt (.int 18)] ∧
      (∃ op count, CollectionFilter.compile { name := "users" } { maxInValues := 2 } (some neitherListedNorGrown) =
        .error (.tooManyValues op 2 count)) ∧
      CollectionFilter.compile { name := "users" } { maxFilters := 1 } (some neitherListedNorGrown) =
        .error (.tooManyFilters 1 2) ∧
      CollectionFilter.compile { name := "users" } { maxFilters := 2 } (some neitherListedNorGrown) = .ok r := by
  have hfilters : (CollectionFilter.compile { name := "users" } {} (some neitherListedNorGrown)).map (·.tree.filters) =
      .ok [.idIn .notIn [.string "a", .string "b", .string "c"], .number "age" .lt (.int 18)] := by decide +kernel
  obtain ⟨r, hr, hprimitives⟩ := map_eq_ok.mp hfilters
  have hgated (limits : Limits) := (compile_gated limits {} (some neitherListedNorGrown)).1 _ r hr
  have hlong : ¬ Document.ListsWithin { maxInValues := 2 } (some neitherListedNorGrown) :=
    fun hwithin => absurd (hwithin _ _ lists_neitherListedNorGrown) (by decide)
  have hwithin (count : Nat) : Document.ListsWithin { maxFilters := count } (some neitherListedNorGrown) := by
    obtain ⟨clause, hparse, -⟩ := bind_eq_ok.mp hr
    rcases parse_gated hparse with ⟨hwithin, -⟩ | ⟨op, items, -, -, herror⟩
    · exact hwithin
    · cases hparse.symm.trans herror
  have hcounted := (hgated { maxFilters := 1 }).counted (hwithin 1)
  have hsame := (hgated { maxFilters := 2 }).within (hwithin 2)
  rw [hprimitives] at hcounted hsame
  obtain ⟨op, items, -, -, hlisted⟩ := (hgated { maxInValues := 2 }).listed hlong
  exact ⟨r, hr, hprimitives, ⟨op, _, hlisted⟩, hcounted (by decide), hsame (by decide)⟩

end DocumentFilter
