/-
Trees up to order.

`Rearranged` is said of two expressions, or of two filter trees, if one becomes
the other by reordering what nodes hold, at any depth. A NOT stands for its
first child, so its children keep their places. Removing NOT keeps the relation
in both polarities, and so does everything that is made node by node: a tree
that holds, in any order, the images of the comparisons at each node is a
rearrangement of `Expression.image`.
-/
import DocumentFilter.Proofs.Identity

namespace DocumentFilter

variable {F : Type}

namespace FilterTree

/-- The primitives and the children of nodes are the same up to order. -/
inductive Rearranged : FilterTree F → FilterTree F → Prop
  | node {j own own' children children'} : own.Perm own' → children.Perm children' →
      Rearranged ⟨j, own, children⟩ ⟨j, own', children'⟩
  | child {j own first first' others} : Rearranged first first' →
      Rearranged ⟨j, own, first :: others⟩ ⟨j, own, first' :: others⟩
  | trans {a b c} : Rearranged a b → Rearranged b c → Rearranged a c

namespace Rearranged

theorem refl (t : FilterTree F) : Rearranged t t := by
  cases t
  exact .node (.refl _) (.refl _)

theorem symm {t t' : FilterTree F} (h : Rearranged t t') : Rearranged t' t := by
  induction h with
  | node hown hchildren => exact .node hown.symm hchildren.symm
  | child _ ih => exact .child ih
  | trans _ _ ih ih' => exact .trans ih' ih

theorem filters {t t' : FilterTree F} (h : Rearranged t t') : t.filters.Perm t'.filters := by
  induction h with
  | node hown hchildren =>
    simp only [FilterTree.filters, filtersAll_eq_flatMap]
    exact hown.append (hchildren.flatMap_right _)
  | child _ ih =>
    simp only [FilterTree.filters, filtersAll]
    exact (ih.append_right _).append_left _
  | trans _ _ ih ih' => exact ih.trans ih'

theorem count_eq {t t' : FilterTree F} (h : Rearranged t t') : t.count = t'.count := by
  rw [← length_filters, ← length_filters]
  exact h.filters.length_eq

/-- More children may stand at the end of the nodes. -/
theorem append {t t' : FilterTree F} (h : Rearranged t t') (trees : List (FilterTree F)) :
    Rearranged ⟨t.operator, t.own, t.children ++ trees⟩ ⟨t'.operator, t'.own, t'.children ++ trees⟩ := by
  induction h with
  | node hown hchildren => exact .node hown (hchildren.append_right trees)
  | child h _ => exact .child h
  | trans _ _ ih ih' => exact .trans ih ih'

/-- All children may be rearranged at once. -/
theorem children {j : Junction} {own : List F} {trees trees' : List (FilterTree F)}
    (h : List.Forall₂ Rearranged trees trees') : Rearranged ⟨j, own, trees⟩ ⟨j, own, trees'⟩ := by
  induction h with
  | nil => exact .refl _
  | @cons first first' others others' hfirst _ ih =>
    -- The first child steps behind the others, as `append` leaves what stands behind alone.
    have hbehind (trees : List (FilterTree F)) : Rearranged ⟨j, own, first' :: trees⟩ ⟨j, own, trees ++ [first']⟩ :=
      .node (.refl _) (List.perm_append_singleton _ _).symm
    exact .trans (.child hfirst) (.trans (hbehind others) (.trans (ih.append [first']) (hbehind others').symm))

end Rearranged

end FilterTree

namespace Expression

/-- The comparisons and the children of nodes are the same up to order, except for the children of a NOT. -/
inductive Rearranged : Expression → Expression → Prop
  | refl (e) : Rearranged e e
  | node {operator children children' comparisons comparisons'} : operator ≠ .not → children.Perm children' →
      comparisons.Perm comparisons' → Rearranged ⟨operator, children, comparisons⟩ ⟨operator, children', comparisons'⟩
  | child {operator first first' others comparisons} : Rearranged first first' →
      Rearranged ⟨operator, first :: others, comparisons⟩ ⟨operator, first' :: others, comparisons⟩
  | trans {a b c} : Rearranged a b → Rearranged b c → Rearranged a c

namespace Rearranged

variable {e e' : Expression}

theorem length_children (h : Rearranged e e') : e.children.length = e'.children.length := by
  induction h with
  | refl => rfl
  | node _ hchildren _ => exact hchildren.length_eq
  | child => rfl
  | trans _ _ ih ih' => exact ih.trans ih'

theorem comparisons (h : Rearranged e e') : e.comparisons.Perm e'.comparisons := by
  induction h with
  | refl => exact .refl _
  | node _ _ hcomparisons => exact hcomparisons
  | child => exact .refl _
  | trans _ _ ih ih' => exact ih.trans ih'

/-- The nodes may be joined to others, by any junction. -/
theorem append (h : Rearranged e e') {operator : Connective} (hoperator : operator ≠ .not)
    (others : List Expression) (more : List Comparison) :
    Rearranged ⟨operator, e.children ++ others, e.comparisons ++ more⟩
      ⟨operator, e'.children ++ others, e'.comparisons ++ more⟩ := by
  induction h with
  | refl => exact .refl _
  | node _ hchildren hcomparisons => exact .node hoperator (hchildren.append_right _) (hcomparisons.append_right _)
  | child h _ => exact .child h
  | trans _ _ ih ih' => exact .trans ih ih'

/-- Removing NOT keeps the relation, for both functions at once. -/
theorem normalized_negated (h : Rearranged e e') :
    Rearranged e.normalized e'.normalized ∧ Rearranged e.negated e'.negated := by
  induction h with
  | refl => exact ⟨.refl _, .refl _⟩
  | @node operator children children' comparisons comparisons' hoperator hchildren hcomparisons =>
    have hnegated : (comparisons.flatMap Comparison.negated).Perm (comparisons'.flatMap Comparison.negated) :=
      hcomparisons.flatMap_right _
    have hdual : (if 1 < (children.map negated).length + (comparisons.flatMap Comparison.negated).length
        then operator.dual else .and) ≠ .not := by
      split
      · cases operator <;> simp [Connective.dual] at hoperator ⊢
      · simp
    cases operator with
    | and | or =>
      simp only [normalized, negated, normalizedAll_eq_map, negatedAll_eq_map]
      refine ⟨.node hoperator (hchildren.map _) hcomparisons, ?_⟩
      unfold negatedNode
      rw [← (hchildren.map negated).length_eq, ← hnegated.length_eq]
      exact .node hdual (hchildren.map _) hnegated
    | not => exact absurd rfl hoperator
  | @child operator _ _ _ _ _ ih =>
    cases operator with
    | and | or => exact ⟨.child ih.1, .child ih.2⟩
    | not => exact ih.symm
  | trans _ _ ih ih' => exact ⟨.trans ih.1 ih'.1, .trans ih.2 ih'.2⟩

theorem normalized (h : Rearranged e e') : Rearranged e.normalized e'.normalized := h.normalized_negated.1

theorem attributed (h : Rearranged e e') : e.attributed.Perm e'.attributed := by
  induction h with
  | refl => exact .refl _
  | node _ hchildren hcomparisons =>
    simp only [Expression.attributed, attributedAll_eq_flatMap]
    exact (hcomparisons.map _).append (hchildren.flatMap_right _)
  | child _ ih =>
    simp only [Expression.attributed, attributedAll]
    exact (ih.append_right _).append_left _
  | trans _ _ ih ih' => exact ih.trans ih'

theorem mem_childrenFirst (h : Rearranged e e') {c : Comparison} : c ∈ e.childrenFirst ↔ c ∈ e'.childrenFirst := by
  rw [← mem_flatten_iff, ← mem_flatten_iff]
  exact (h.attributed.map _).mem_iff

end Rearranged

/-! ## Trees made node by node -/

section Image

variable (f : Comparison → List F)

mutual
/-- The tree that holds the images of a node's comparisons. -/
def image : Expression → FilterTree F
  | ⟨operator, children, comparisons⟩ =>
    ⟨operator.junction?.getD .and, comparisons.flatMap f, imageAll children⟩

/-- The trees that hold the images of nodes' comparisons. -/
def imageAll : List Expression → List (FilterTree F)
  | [] => []
  | e :: es => e.image :: imageAll es
end

theorem imageAll_eq_map (es : List Expression) : imageAll f es = es.map (image f) := by
  induction es with
  | nil => rfl
  | cons e es ih => rw [imageAll, ih, List.map_cons]

variable {f}

theorem Rearranged.image {e e' : Expression} (h : Rearranged e e') : (e.image f).Rearranged (e'.image f) := by
  induction h with
  | refl => exact .refl _
  | node _ hchildren hcomparisons =>
    simp only [Expression.image, imageAll_eq_map]
    exact .node (hcomparisons.flatMap_right _) (hchildren.map _)
  | child _ ih => exact .child ih
  | trans _ _ ih ih' => exact .trans ih ih'

mutual
/-- A tree that holds the images at each node, in any order, is the image rearranged. -/
theorem Mirrored.rearranged : ∀ {e : Expression} {t : FilterTree F},
    Mirrored (fun cs own => own.Perm (cs.flatMap f)) e t → t.Rearranged (e.image f)
  | ⟨_, _, _⟩, ⟨j, own, trees⟩, ⟨hoperator, hown, htrees⟩ => by
    subst hoperator
    simp only [image, Junction.junction?_connective, Option.getD_some]
    exact .trans (.children (AllMirrored.rearranged htrees)) (.node hown (.refl _))

theorem AllMirrored.rearranged : ∀ {es : List Expression} {ts : List (FilterTree F)},
    AllMirrored (fun cs own => own.Perm (cs.flatMap f)) es ts →
      List.Forall₂ FilterTree.Rearranged ts (imageAll f es)
  | [], [], _ => .nil
  | _ :: _, _ :: _, ⟨hfirst, hothers⟩ => .cons hfirst.rearranged (AllMirrored.rearranged hothers)
end

end Image

end Expression

end DocumentFilter
