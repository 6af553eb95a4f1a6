/-
The rule on a document's identity, and where it is kept.

`checkIdentity` looks at the comparisons on the identity path one by one and
reports the first fault; what it accepts is stated here as a whole
(`IdentityRule`). A tree that has, node by node, as many primitives of one sort
as the expression has comparisons of another has them below the same
connectives and in the same order (`map_connective_attributed`), so a rule on
where they may stand passes from one to the other.
-/
import DocumentFilter.Clause.Basic
import DocumentFilter.Proofs.Polarity
import DocumentFilter.Proofs.Shape

namespace DocumentFilter

namespace Expression

/-- At most one comparison is on the path, it is an equality or a membership test, and it is not directly below an
OR. -/
structure IdentityRule (path : String) (e : Expression) : Prop where
  once : e.flatten.countP (·.path == path) ≤ 1
  tests : ∀ c ∈ e.flatten, c.path = path → ∀ op ∈ c.operations, op.operator.isEqualityOrMembership = true
  place : ∀ x ∈ e.attributed, x.2.path = path → x.1 ≠ .or

/-- The comparisons on the path, with the connectives of their nodes. -/
def usesOf (path : String) (e : Expression) : List (Connective × Comparison) :=
  e.attributed.filter (·.2.path == path)

theorem mem_usesOf {path : String} {e : Expression} {x : Connective × Comparison} :
    x ∈ e.usesOf path ↔ x ∈ e.attributed ∧ x.2.path = path := by
  simp [usesOf]

theorem countP_flatten (path : String) (e : Expression) :
    e.flatten.countP (·.path == path) = (e.usesOf path).length := by
  rw [flatten, List.countP_map, List.countP_eq_length_filter]
  rfl

theorem identityRule_iff {path : String} {e : Expression} : e.IdentityRule path ↔
    (e.usesOf path).length ≤ 1 ∧ ∀ x ∈ e.usesOf path, x.1 ≠ .or ∧
      ∀ op ∈ x.2.operations, op.operator.isEqualityOrMembership = true := by
  rw [← countP_flatten]
  constructor
  · rintro ⟨honce, htests, hplace⟩
    refine ⟨honce, fun x hx => ?_⟩
    obtain ⟨hx, hpath⟩ := mem_usesOf.mp hx
    exact ⟨hplace x hx hpath, htests x.2 (List.mem_map_of_mem hx) hpath⟩
  · rintro ⟨honce, huses⟩
    refine ⟨honce, fun c hc hpath => ?_, fun x hx hpath => (huses x (mem_usesOf.mpr ⟨hx, hpath⟩)).1⟩
    obtain ⟨x, hx, rfl⟩ := List.mem_map.mp hc
    exact (huses x (mem_usesOf.mpr ⟨hx, hpath⟩)).2

/-- **The check accepts exactly what the rule allows.** -/
theorem checkIdentity_eq_ok {path : String} {e : Expression} :
    e.checkIdentity path = .ok () ↔ e.IdentityRule path := by
  rw [identityRule_iff]
  unfold checkIdentity
  rw [← usesOf]
  cases e.usesOf path with
  | nil => simp
  | cons x others =>
    obtain ⟨operator, c⟩ := x
    have honce : ((operator, c) :: others).length ≤ 1 ↔ others = [] := by simp
    simp only [List.forall_mem_cons, honce]
    split
    · rename_i hor
      simp [hor]
    · rename_i hor
      split
      · rename_i op hfind
        have hmem := List.mem_of_find?_eq_some hfind
        have hother : op.operator.isEqualityOrMembership = false := by simpa using List.find?_some hfind
        constructor
        · rintro ⟨⟩
        · rintro ⟨-, ⟨-, htests⟩, -⟩
          cases hother.symm.trans (htests op hmem)
      · rename_i hfind
        have htests : ∀ op ∈ c.operations, op.operator.isEqualityOrMembership = true := by
          simpa using List.find?_eq_none.mp hfind
        cases others with
        | nil => simpa [hor] using htests
        | cons => simp

end Expression

namespace FilterTree

variable {F : Type}

mutual
/-- Every primitive of the tree with the junction of its node, a node's own before its children's. -/
def attributed : FilterTree F → List (Junction × F)
  | ⟨j, own, children⟩ => own.map (j, ·) ++ attributedAll children

/-- Every primitive of the trees with the junction of its node. -/
def attributedAll : List (FilterTree F) → List (Junction × F)
  | [] => []
  | tree :: trees => tree.attributed ++ attributedAll trees
end

mutual
theorem map_attributed : ∀ tree : FilterTree F, tree.attributed.map (·.2) = tree.filters
  | ⟨j, own, children⟩ => by
    have hown : (own.map (j, ·)).map Prod.snd = own := by
      rw [List.map_map]
      exact List.map_id _
    rw [attributed, filters, List.map_append, hown, map_attributedAll children]

theorem map_attributedAll : ∀ trees : List (FilterTree F), (attributedAll trees).map (·.2) = filtersAll trees
  | [] => rfl
  | tree :: trees => by
    rw [attributedAll, filtersAll, List.map_append, map_attributed tree, map_attributedAll trees]
end

end FilterTree

namespace Expression

section Connectives

variable {F : Type} {p : Comparison → Bool} {q : F → Bool} {R : List Comparison → List F → Prop}

mutual
/-- If every node has as many primitives of one sort as comparisons of another, they stand below the same
connectives. -/
theorem Mirrored.map_connective_attributed (hnode : ∀ cs own, R cs own → own.countP q = cs.countP p) :
    ∀ {e : Expression} {t : FilterTree F}, Mirrored R e t →
      (t.attributed.filter (q ·.2)).map (·.1.connective) = (e.attributed.filter (p ·.2)).map (·.1)
  | ⟨operator, children, cs⟩, ⟨j, own, trees⟩, ⟨hoperator, hown, htrees⟩ => by
    have howns : ((own.map (j, ·)).filter (q ·.2)).map (·.1.connective) =
        List.replicate (own.countP q) j.connective := by
      rw [List.filter_map, List.map_map, List.countP_eq_length_filter, ← List.map_const']
      rfl
    have hcomparisons : ((cs.map (operator, ·)).filter (p ·.2)).map (·.1) =
        List.replicate (cs.countP p) operator := by
      rw [List.filter_map, List.map_map, List.countP_eq_length_filter, ← List.map_const']
      rfl
    rw [FilterTree.attributed, attributed, List.filter_append, List.filter_append, List.map_append, List.map_append,
      howns, hcomparisons, hnode cs own hown, hoperator, AllMirrored.map_connective_attributed hnode htrees]

theorem AllMirrored.map_connective_attributed (hnode : ∀ cs own, R cs own → own.countP q = cs.countP p) :
    ∀ {es : List Expression} {ts : List (FilterTree F)}, AllMirrored R es ts →
      ((FilterTree.attributedAll ts).filter (q ·.2)).map (·.1.connective) =
        ((attributedAll es).filter (p ·.2)).map (·.1)
  | [], [], _ => rfl
  | e :: es, t :: ts, ⟨hfirst, hothers⟩ => by
    rw [FilterTree.attributedAll, attributedAll, List.filter_append, List.filter_append, List.map_append,
      List.map_append, hfirst.map_connective_attributed hnode, AllMirrored.map_connective_attributed hnode hothers]
end

end Connectives

end Expression

end DocumentFilter
