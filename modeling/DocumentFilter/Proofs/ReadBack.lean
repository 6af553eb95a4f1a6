/-
Resolving loses, invents and distorts nothing. The primitives of a resolved
filter, each read as the operation that it stands for, make a tree with the
nodes and connectives of the clause, in which every node asks what the clause
asks there, in some order; so both select the same.
-/
import DocumentFilter.Proofs.CollectionRefusal
import DocumentFilter.Proofs.Polarity
import DocumentFilter.Proofs.TableTyping
import Mathlib.Data.List.Perm.Basic

namespace DocumentFilter

/-- The tree can be read back as the expression: there is a tree of the atoms that its primitives stand for, which
asks the same as the expression at every node, and selects the same under every assignment. -/
def FilterTree.ReadsBackAs {F : Type} (StandsFor : F → Atom → Prop) (tree : FilterTree F) (e : Expression) : Prop :=
  ∃ reading : FilterTree Atom, tree.Parallel (List.Forall₂ StandsFor) reading ∧
    e.Mirrored Expression.SameAtoms reading ∧ ∀ v : Assignment, reading.holds v = e.holds v

/-! ## The primitives of a tree that can be read back -/

section Filters

variable {F G : Type} {S : F → G → Prop}

theorem FilterTree.Parallel.filters {t : FilterTree F} {t' : FilterTree G} (h : t.Parallel (List.Forall₂ S) t') :
    List.Forall₂ S t.filters t'.filters :=
  h.whole .nil fun hown hbelow => List.rel_append hown hbelow

mutual
theorem Expression.Mirrored.perm_atoms : ∀ {e : Expression} {t : FilterTree Atom}, e.Mirrored SameAtoms t →
    t.filters.Perm e.atoms
  | ⟨_, _, _⟩, ⟨_, _, _⟩, ⟨_, hown, hchildren⟩ => by
    rw [FilterTree.filters, atoms_node]
    exact hown.append (Expression.AllMirrored.perm_atoms hchildren)

theorem Expression.AllMirrored.perm_atoms : ∀ {es : List Expression} {ts : List (FilterTree Atom)},
    AllMirrored SameAtoms es ts → (FilterTree.filtersAll ts).Perm (es.flatMap atoms)
  | [], [], _ => .refl _
  | _ :: _, _ :: _, ⟨hfirst, hothers⟩ => by
    rw [FilterTree.filtersAll, List.flatMap_cons]
    exact hfirst.perm_atoms.append (Expression.AllMirrored.perm_atoms hothers)
end

/-- Up to order, the primitives stand one by one for what is asked, in whatever order that is listed. -/
theorem FilterTree.ReadsBackAs.filters {StandsFor : F → Atom → Prop} {tree : FilterTree F} {e : Expression}
    (h : tree.ReadsBackAs StandsFor e) {atoms : List Atom} (hatoms : e.atoms.Perm atoms) :
    ∃ primitives, tree.filters.Perm primitives ∧ List.Forall₂ StandsFor primitives atoms := by
  obtain ⟨reading, hparallel, hmirrored, -⟩ := h
  have hcomp : Relation.Comp (List.Forall₂ StandsFor) List.Perm tree.filters atoms :=
    ⟨reading.filters, hparallel.filters, hmirrored.perm_atoms.trans hatoms⟩
  rwa [List.forall₂_comp_perm_eq_perm_comp_forall₂] at hcomp

end Filters

section ReadBack

variable {limits limits' : Limits} {filter : Option Json} {clause : Clause}

/-- A tree built from what a matcher captured of a parsed clause can be read back, if each primitive stands for the
atom that it is made from. -/
theorem FilterTree.readsBackAs_of_build {M F : Type} [DecidableEq M] {schema : Schema}
    {primitives : CaptureGroup M → Except FilterError (List F)} {translate : M → Atom → Except FilterError F}
    {StandsFor : F → Atom → Prop} {matcher : Matcher M} {t : CaptureTree M} {tree : FilterTree F}
    (hparse : Clause.parse schema limits filter = .ok clause) (hentry : EntryWise primitives translate)
    (hstands : ∀ c ∈ clause.expression.childrenFirst, ∀ a ∈ c.atoms, ∀ capture ∈ matcher.captures,
      capture.Covers a → ∀ p, translate capture.marker a = .ok p → StandsFor p a)
    (hmatch : matcher.apply clause.expression = .ok t) (hbuild : build primitives t = .ok tree) :
    tree.ReadsBackAs StandsFor clause.expression := by
  have hsorts := Matcher.sorts_of_apply hmatch (parse_shape hparse).1
  obtain ⟨reading, hreads, hmirrored⟩ := exists_reading hentry hstands hsorts hbuild
  have hsingle : ∀ c ∈ clause.expression.childrenFirst, ∃ op, c.operations = [op] :=
    fun c hc => (stems_of_parse hparse c hc).single
  exact ⟨reading, hreads, hmirrored, fun v => hmirrored.holds_eq hsingle⟩

theorem CollectionFilter.readsBackAs {schema : CollectionSchema} {r : Resolved CollectionFilter}
    (hparse : Clause.parse (.collection schema) limits filter = .ok clause) (h : resolve limits' clause = .ok r) :
    r.tree.ReadsBackAs StandsFor clause.expression := by
  obtain ⟨rule, hrule, t, hmatch, hbuild⟩ := RuleTable.built_of_resolve build_eq_of_rules h
  refine FilterTree.readsBackAs_of_build hparse entryWise_ofGroup ?_ hmatch hbuild
  intro c hc a ha capture hcapture hcovers p hp
  have hwhole := (overCollection_of_stems (stems_of_parse hparse c hc) a ha).whole
  exact standsFor_of_translate (captured_of_rules hrule hcapture hcovers) hwhole hp

theorem TableFilter.readsBackAs {table : TableSchema} {r : Resolved TableFilter}
    (hparse : Clause.parse (.table table) limits filter = .ok clause) (h : resolve table limits' clause = .ok r) :
    r.tree.ReadsBackAs StandsFor clause.expression := by
  obtain ⟨rule, hrule, t, hmatch, hbuild⟩ := RuleTable.built_of_resolve (build_eq_of_rules table) h
  refine FilterTree.readsBackAs_of_build hparse (entryWise_ofGroup table) ?_ hmatch hbuild
  intro c hc a ha capture hcapture hcovers p hp
  exact standsFor_of_translate (captured_of_rules hrule hcapture hcovers) hp

/-- **A resolved filter asks what its clause asks**, node for node, over collections and over tables. -/
theorem resolve_readsBack :
    (∀ schema r, Clause.parse (.collection schema) limits filter = .ok clause →
        CollectionFilter.resolve limits' clause = .ok r →
        r.tree.ReadsBackAs CollectionFilter.StandsFor clause.expression) ∧
      ∀ table r, Clause.parse (.table table) limits filter = .ok clause →
        TableFilter.resolve table limits' clause = .ok r →
        r.tree.ReadsBackAs TableFilter.StandsFor clause.expression :=
  ⟨fun _ _ => CollectionFilter.readsBackAs, fun _ _ => TableFilter.readsBackAs⟩

/-- A filter with two sizes on one path, of which one is negated, and a text between them. -/
def sizesApart : Json :=
  .object [("tags", .object [("$size", .number (.int 3))]), ("name", .string "x"),
    ("$not", .object [("tags", .object [("$size", .number (.int 0))])])]

/-- The clause of `sizesApart`. -/
def sizesApartClause : Clause :=
  ⟨⟨.and, [⟨.and, [], [.single "tags" .size (.number (.float (Binary64.zero true)))]⟩],
    [.single "tags" .size (.number (.int 3)), .single "name" .eq (.string "x")]⟩, some "_id", [], true⟩

theorem resolve_readsBack_sizesApart :
    (∃ r, CollectionFilter.resolve {} sizesApartClause = .ok r ∧
        r.tree.filters = [.size "tags" 3 false, .text "name" .eq "x", .size "tags" 0 true] ∧
        r.tree.ReadsBackAs CollectionFilter.StandsFor sizesApartClause.expression) ∧
      ∃ r, TableFilter.resolve TableFilter.shelves {} TableFilter.shelvesClause = .ok r ∧
        r.tree.ReadsBackAs TableFilter.StandsFor TableFilter.shelvesClause.expression := by
  have hparse : Clause.parse (.collection { name := "users" }) {} (some sizesApart) = .ok sizesApartClause := by
    decide +kernel
  have hfilters : (CollectionFilter.resolve {} sizesApartClause).map (·.tree.filters) =
      .ok [.size "tags" 3 false, .text "name" .eq "x", .size "tags" 0 true] := by
    decide +kernel
  obtain ⟨r, hresolve, hr⟩ := map_eq_ok.mp hfilters
  have htable : TableFilter.resolve TableFilter.shelves {} TableFilter.shelvesClause = .ok _ := rfl
  exact ⟨⟨r, hresolve, hr, resolve_readsBack.1 _ r hparse hresolve⟩,
    ⟨_, htable, resolve_readsBack.2 _ _ TableFilter.parse_shelvesFilter htable⟩⟩

end ReadBack

end DocumentFilter
