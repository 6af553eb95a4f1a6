/-
The order of the source does not matter.

Filters that are the same up to order parse to clauses that are
(`Clause.Rearranged`), since the rules on operands and identities only look at
which comparisons there are and below which connectives. Whether a clause
resolves depends on its comparisons alone, too, and what it resolves to is an
image of it, node by node: the last rule of a table gives each comparison to the
first capture that accepts it, whatever came before. Grouping therefore orders
primitives within their node and does nothing else.
-/
import DocumentFilter.Compile
import DocumentFilter.Proofs.CollectionRefusal
import DocumentFilter.Proofs.Distinct
import DocumentFilter.Proofs.Grammar
import DocumentFilter.Proofs.ReadingOrder
import DocumentFilter.Proofs.RuleOrder
import DocumentFilter.Proofs.TableTyping

namespace DocumentFilter

/-- Both computations fail, or both succeed with related results. -/
inductive Agree {ε α β : Type} (R : α → β → Prop) : Except ε α → Except ε β → Prop
  | ok {a b} : R a b → Agree R (.ok a) (.ok b)
  | error {e e'} : Agree R (.error e) (.error e')

theorem agree_of_ok {ε α β : Type} {R : α → β → Prop} {x : Except ε α} {y : Except ε β}
    (h : ∀ a, x = .ok a → ∃ b, y = .ok b ∧ R a b) (h' : ∀ b, y = .ok b → ∃ a, x = .ok a) : Agree R x y := by
  cases x with
  | ok a =>
    obtain ⟨b, rfl, hR⟩ := h a rfl
    exact .ok hR
  | error e =>
    cases y with
    | ok b =>
      obtain ⟨_, hok⟩ := h' b rfl
      cases hok
    | error e' => exact .error

/-! ## Clauses -/

theorem Expression.IdentityRule.of_rearranged {path : String} {e e' : Expression} (h : e.Rearranged e')
    (hrule : e.IdentityRule path) : e'.IdentityRule path := by
  have huses : (e.usesOf path).Perm (e'.usesOf path) := h.attributed.filter _
  rw [identityRule_iff] at hrule ⊢
  exact ⟨huses.length_eq ▸ hrule.1, fun x hx => hrule.2 x (huses.mem_iff.mpr hx)⟩

theorem Expression.Checked.of_rearranged {limits : Limits} {e e' : Expression} (h : e.Rearranged e')
    (hchecked : e.Checked limits) : e'.Checked limits :=
  fun c hc => hchecked c (h.mem_childrenFirst.mpr hc)

/-- The clauses are the same up to order. -/
structure Clause.Rearranged (a b : Clause) : Prop where
  expression : a.expression.Rearranged b.expression
  warnings : a.warnings.Perm b.warnings

/-- Filters that are the same up to order: reordered documents, or the very same. -/
inductive ReorderedFilters : Option Json → Option Json → Prop
  | same (filter) : ReorderedFilters filter filter
  | document {entries entries'} : Document.Reordered entries entries' →
      ReorderedFilters (some (.object entries)) (some (.object entries'))

theorem ReorderedFilters.symm {filter filter' : Option Json} (h : ReorderedFilters filter filter') :
    ReorderedFilters filter' filter := by
  cases h with
  | same => exact .same _
  | document h => exact .document h.symm

theorem parse_reordered {schema : Schema} {limits : Limits} {filter filter' : Option Json} {clause : Clause}
    (h : ReorderedFilters filter filter') (hclause : Clause.parse schema limits filter = .ok clause) :
    ∃ clause', Clause.parse schema limits filter' = .ok clause' ∧ clause.Rearranged clause' := by
  cases h with
  | same => exact ⟨clause, hclause, .refl _, .refl _⟩
  | @document entries entries' h =>
    rcases parse_cases hclause with ⟨hnone | hnull, -⟩ | ⟨_, contents, hfilter, hparsed⟩
    · cases hnone
    · cases hnull
    · cases hfilter
      obtain ⟨contents', hread', hrearranged⟩ := Contents.ofEntries_of_reordered h hparsed.read
      have hchecked := (Expression.checkOperands_eq_ok.mp hparsed.operands).of_rearranged hrearranged.node
      have hidentity : ∀ path, schema.identityPath? = some path →
          contents'.conjunction.normalized.IdentityRule path := fun path hpath =>
        (Expression.checkIdentity_eq_ok.mp (hparsed.identity path hpath)).of_rearranged hrearranged.node.normalized
      obtain ⟨clause', hvalid⟩ := validate_ofExpression_iff.mpr hidentity
      refine ⟨clause', bind_eq_ok.mpr ⟨contents', hread',
        bind_eq_ok.mpr ⟨(), Expression.checkOperands_eq_ok.mpr hchecked, hvalid⟩⟩, ?_⟩
      rw [hparsed.clause, (validate_ofExpression hvalid).2]
      exact ⟨hrearranged.node.normalized, perm_eraseDups hrearranged.warnings⟩

/-! ## Resolving -/

/-- The resolved filters are the same up to order. -/
structure Resolved.Rearranged {F : Type} (a b : Resolved F) : Prop where
  tree : a.tree.Rearranged b.tree
  warnings : a.warnings.Perm b.warnings

section Resolve

variable {M F : Type} [DecidableEq M] {captures : List (Capture M)}
  {primitives : CaptureGroup M → Except FilterError (List F)} {translate : M → Atom → Except FilterError F}

/-- The primitives that the captures and the translation make of a comparison. -/
def Matcher.primitivesOf (captures : List (Capture M)) (translate : M → Atom → Except FilterError F)
    (c : Comparison) : List F :=
  (Matcher.marked captures c).filterMap fun x => (translate x.1 x.2).toOption

theorem filterMap_of_forall₂ {α β : Type} {f : α → Except FilterError β} {l : List α} {r : List β}
    (h : List.Forall₂ (fun a b => f a = .ok b) l r) : l.filterMap (fun a => (f a).toOption) = r := by
  induction h with
  | nil => rfl
  | cons hab _ ih => rw [List.filterMap_cons, hab, ih]; rfl

/-- What a greedy matcher captures is built into an image of the expression, up to order. -/
theorem rearranged_image_of_build (hentry : FilterTree.EntryWise primitives translate) {e : Expression}
    {t : CaptureTree M} {tree : FilterTree F} (hmatch : Matcher.apply ⟨.greedy, captures⟩ e = .ok t)
    (hbuild : FilterTree.build primitives t = .ok tree) :
    tree.Rearranged (e.image (Matcher.primitivesOf captures translate)) := by
  refine Expression.Mirrored.rearranged (Expression.Mirrored.comp (P := fun _ => True) ?_ (fun _ _ => trivial)
    (Matcher.marked_of_greedy hmatch) (FilterTree.parallel_of_build hbuild))
  intro cs groups own _ hmarked hmakes
  rw [← filterMap_of_forall₂ (hentry.of_makes hmakes)]
  refine (hmarked.filterMap _).trans ?_
  rw [List.filterMap_flatMap]
  exact .refl _

/-- Rearranged clauses of which one resolves resolve to the same up to order, by a table that is decided by a greedy
rule. -/
theorem resolve_of_rearranged {table : RuleTable M F}
    (hlast : table.lastOnly.first = ⟨⟨.greedy, captures⟩, FilterTree.build primitives⟩)
    (hentry : FilterTree.EntryWise primitives translate) {clause clause' : Clause}
    (hclause : clause.Rearranged clause') (hdecided : table.DecidedByLast clause.expression)
    (hdecided' : table.DecidedByLast clause'.expression) {limits : Limits} {r : Resolved F}
    (hr : table.apply clause.expression >>= Resolved.ofTree limits clause = .ok r)
    (hok : ∃ tree, table.apply clause'.expression = .ok tree) :
    ∃ r', table.apply clause'.expression >>= Resolved.ofTree limits clause' = .ok r' ∧ r.Rearranged r' := by
  have himage {e : Expression} {tree : FilterTree F} (hdecided : table.DecidedByLast e)
      (h : table.apply e = .ok tree) : tree.Rearranged (e.image (Matcher.primitivesOf captures translate)) := by
    rw [hdecided.last] at h
    obtain ⟨rule, hrule, t, hmatch, hbuild⟩ := RuleTable.apply_eq_ok h
    obtain rfl : rule = table.lastOnly.first := List.mem_singleton.mp hrule
    rw [hlast] at hmatch hbuild
    exact rearranged_image_of_build hentry hmatch hbuild
  obtain ⟨tree, htree, hcount, rfl⟩ := RuleTable.resolve_eq_ok.mp hr
  obtain ⟨tree', htree'⟩ := hok
  have hrearranged : tree.Rearranged tree' :=
    ((himage hdecided htree).trans hclause.expression.image).trans (himage hdecided' htree').symm
  rw [hrearranged.count_eq] at hcount
  exact ⟨⟨tree', clause'.warnings⟩, RuleTable.resolve_eq_ok.mpr ⟨tree', htree', hcount, rfl⟩, hrearranged,
    hclause.warnings⟩

end Resolve

theorem CollectionFilter.compile_of_reordered {schema : CollectionSchema} {limits : Limits}
    {filter filter' : Option Json} (h : ReorderedFilters filter filter') {r : Resolved CollectionFilter}
    (hr : compile schema limits filter = .ok r) :
    ∃ r', compile schema limits filter' = .ok r' ∧ r.Rearranged r' := by
  obtain ⟨clause, hparse, hresolve⟩ := bind_eq_ok.mp hr
  obtain ⟨clause', hparse', hclause⟩ := parse_reordered h hparse
  have hok : ∃ tree, rules.apply clause'.expression = .ok tree := by
    rcases apply_rules_cases hparse' with ⟨-, htree⟩ | ⟨c, -, hc, -⟩
    · exact htree
    · -- A comparison that one clause cannot resolve the other one cannot, either.
      have hmem := hclause.expression.mem_childrenFirst.mpr (List.mem_of_find?_eq_some hc)
      rcases apply_rules_cases hparse with ⟨hnone, -⟩ | ⟨_, _, -, herror⟩
      · exact absurd (List.find?_some hc) (List.find?_eq_none.mp hnone c hmem)
      · obtain ⟨tree, htree, -⟩ := bind_eq_ok.mp hresolve
        cases herror.symm.trans htree
  have hdecided {filter clause} (h : Clause.parse (.collection schema) limits filter = .ok clause) :
      rules.DecidedByLast clause.expression :=
    rules_decidedByLast (parse_shape h).1 (operations_ne_nil_of_parse h)
  obtain ⟨r', hr', hrearranged⟩ :=
    resolve_of_rearranged rfl entryWise_ofGroup hclause (hdecided hparse) (hdecided hparse') hresolve hok
  exact ⟨r', bind_eq_ok.mpr ⟨clause', hparse', hr'⟩, hrearranged⟩

theorem TableFilter.compile_of_reordered {table : TableSchema} {limits : Limits} {filter filter' : Option Json}
    (h : ReorderedFilters filter filter') {r : Resolved TableFilter} (hr : compile table limits filter = .ok r) :
    ∃ r', compile table limits filter' = .ok r' ∧ r.Rearranged r' := by
  obtain ⟨clause, hparse, hresolve⟩ := bind_eq_ok.mp hr
  obtain ⟨clause', hparse', hclause⟩ := parse_reordered h hparse
  have hok : ∃ tree, (rules table).apply clause'.expression = .ok tree := by
    rcases apply_rules_cases hparse' with ⟨htree, -⟩ | ⟨_, -, -, hunfit⟩
    · exact htree
    · -- What does not fit in one clause stands in the other one, too.
      refine absurd (fun c hc => ?_) hunfit
      rcases apply_rules_cases hparse with ⟨-, hfits⟩ | ⟨_, herror, -⟩
      · exact hfits c (hclause.expression.mem_childrenFirst.mpr hc)
      · obtain ⟨tree, htree, -⟩ := bind_eq_ok.mp hresolve
        cases herror.symm.trans htree
  have hdecided {filter clause} (h : Clause.parse (.table table) limits filter = .ok clause) :
      (rules table).DecidedByLast clause.expression :=
    rules_decidedByLast table (parse_shape h).1
  obtain ⟨r', hr', hrearranged⟩ :=
    resolve_of_rearranged rfl (entryWise_ofGroup table) hclause (hdecided hparse) (hdecided hparse') hresolve hok
  exact ⟨r', bind_eq_ok.mpr ⟨clause', hparse', hr'⟩, hrearranged⟩

/-- **The order of the source does not matter**: of two filters that are the same up to order both compile or none
does, over collections and over tables, and what they compile to is the same up to order. -/
theorem compile_reordered {filter filter' : Option Json} (h : ReorderedFilters filter filter') (limits : Limits) :
    (∀ schema, Agree Resolved.Rearranged (CollectionFilter.compile schema limits filter)
        (CollectionFilter.compile schema limits filter')) ∧
      ∀ table, Agree Resolved.Rearranged (TableFilter.compile table limits filter)
        (TableFilter.compile table limits filter') := by
  refine ⟨fun schema => agree_of_ok (fun r hr => CollectionFilter.compile_of_reordered h hr) fun r' hr' => ?_,
    fun table => agree_of_ok (fun r hr => TableFilter.compile_of_reordered h hr) fun r' hr' => ?_⟩
  · obtain ⟨r, hr, -⟩ := CollectionFilter.compile_of_reordered h.symm hr'
    exact ⟨r, hr⟩
  · obtain ⟨r, hr, -⟩ := TableFilter.compile_of_reordered h.symm hr'
    exact ⟨r, hr⟩

/-- A filter over `shelves` that leaves out some stock and labels and chooses among tags and labels. -/
def stockThenTags : List (String × Json) :=
  [("$not", .object [
      ("stock", .object [("$keys", .object [("$in", .array [.string "pens"]), ("$all", .array [.string "ink"])]),
        ("$all", .array [.array [.string "ink", .number (.int 3)]])]),
      ("label", .object [("$gte", .string "b")])]),
    ("$or", .array [.object [("tags", .object [("$in", .array [.string "new"])])],
      .object [("label", .object [("$lt", .string "m"), ("$ne", .string "k")])]])]

/-- The same filter with everything in another order. -/
def tagsThenStock : List (String × Json) :=
  [("$or", .array [.object [("label", .object [("$ne", .string "k"), ("$lt", .string "m")])],
      .object [("tags", .object [("$in", .array [.string "new"])])]]),
    ("$not", .object [("label", .object [("$gte", .string "b")]),
      ("stock", .object [("$all", .array [.array [.string "ink", .number (.int 3)]]),
        ("$keys", .object [("$all", .array [.string "ink"]), ("$in", .array [.string "pens"])])])])]

theorem reordered_stockThenTags : Document.Reordered stockThenTags tagsThenStock := by
  refine .trans (.negation ?_) (.trans (.order (.swap ..)) (.junction .or ?_))
  · refine .trans (.condition (by decide) ?_) (.order (.swap ..))
    exact .trans (.selector .keys (.swap ..)) (.order (by decide) (.swap ..))
  · exact .trans (.order (.swap ..)) (.element (.condition (by decide) (.order (by decide) (.swap ..))))

theorem compile_reordered_shelves :
    ReorderedFilters (some (.object stockThenTags)) (some (.object tagsThenStock)) ∧
      ∃ r r', TableFilter.compile TableFilter.shelves {} (some (.object stockThenTags)) = .ok r ∧
        TableFilter.compile TableFilter.shelves {} (some (.object tagsThenStock)) = .ok r' ∧ r.Rearranged r' := by
  have hcount : (TableFilter.compile TableFilter.shelves {} (some (.object stockThenTags))).map (·.tree.count) =
      .ok 7 := by decide +kernel
  obtain ⟨r, hr, -⟩ := map_eq_ok.mp hcount
  have hreordered := ReorderedFilters.document reordered_stockThenTags
  have hagree := (compile_reordered hreordered {}).2 TableFilter.shelves
  refine ⟨hreordered, r, ?_⟩
  rw [hr] at hagree ⊢
  generalize TableFilter.compile TableFilter.shelves {} (some (.object tagsThenStock)) = outcome at hagree
  cases hagree with
  | ok hrearranged => exact ⟨_, rfl, rfl, hrearranged⟩

end DocumentFilter
