/-
Trees side by side, node by node.

Resolving turns an expression into a tree of capture groups and that into a
tree of primitives, always with a node for each node. `Mirrored` compares an
expression with a tree of the same nodes and connectives, `Parallel` two such
trees; what is compared at a node is a parameter. Facts about whole trees are
then facts about one node (`Mirrored.readBack`), and facts about what a tree
holds follow from those about its nodes.
-/
import DocumentFilter.Proofs.Negation
import DocumentFilter.Proofs.Outcome

namespace DocumentFilter

variable {F G H : Type}

namespace FilterTree

theorem filtersAll_eq_flatMap (trees : List (FilterTree F)) : filtersAll trees = trees.flatMap filters := by
  induction trees with
  | nil => rfl
  | cons tree trees ih => rw [filtersAll, ih, List.flatMap_cons]

theorem mem_filters {x : F} {j own children} :
    x ∈ filters ⟨j, own, children⟩ ↔ x ∈ own ∨ ∃ tree ∈ children, x ∈ tree.filters := by
  rw [filters, filtersAll_eq_flatMap, List.mem_append, List.mem_flatMap]

theorem allHold_eq_all (v : F → Bool) (trees : List (FilterTree F)) : allHold v trees = trees.all (·.holds v) := by
  induction trees with
  | nil => rfl
  | cons tree trees ih => rw [allHold, ih, List.all_cons]

theorem someHolds_eq_any (v : F → Bool) (trees : List (FilterTree F)) :
    someHolds v trees = trees.any (·.holds v) := by
  induction trees with
  | nil => rfl
  | cons tree trees ih => rw [someHolds, ih, List.any_cons]

/-! ## Two trees -/

mutual
/-- The trees have the same nodes and connectives, and what the nodes hold is related. -/
def Parallel (R : List F → List G → Prop) : FilterTree F → FilterTree G → Prop
  | ⟨j, own, children⟩, ⟨j', own', children'⟩ => j' = j ∧ R own own' ∧ AllParallel R children children'

/-- `Parallel` on lists of trees. -/
def AllParallel (R : List F → List G → Prop) : List (FilterTree F) → List (FilterTree G) → Prop
  | [], [] => True
  | tree :: trees, tree' :: trees' => Parallel R tree tree' ∧ AllParallel R trees trees'
  | _, _ => False
end

mutual
/-- The nodes of parallel trees, taken as pairs: they are related and hold together what the trees hold. -/
theorem Parallel.nodes {R : List F → List G → Prop} : ∀ {t : FilterTree F} {t' : FilterTree G}, Parallel R t t' →
    ∃ nodes : List (List F × List G), (∀ n ∈ nodes, R n.1 n.2) ∧ (∀ x, x ∈ t.filters ↔ ∃ n ∈ nodes, x ∈ n.1) ∧
      ∀ y, y ∈ t'.filters ↔ ∃ n ∈ nodes, y ∈ n.2
  | ⟨_, own, _⟩, ⟨_, own', _⟩, ⟨_, hown, hchildren⟩ => by
    obtain ⟨nodes, hR, hleft, hright⟩ := AllParallel.nodes hchildren
    refine ⟨(own, own') :: nodes, List.forall_mem_cons.mpr ⟨hown, hR⟩, fun x => ?_, fun y => ?_⟩
    · rw [mem_filters, hleft, List.exists_mem_cons_iff]
    · rw [mem_filters, hright, List.exists_mem_cons_iff]

theorem AllParallel.nodes {R : List F → List G → Prop} : ∀ {ts : List (FilterTree F)} {ts' : List (FilterTree G)},
    AllParallel R ts ts' → ∃ nodes : List (List F × List G), (∀ n ∈ nodes, R n.1 n.2) ∧
      (∀ x, (∃ t ∈ ts, x ∈ t.filters) ↔ ∃ n ∈ nodes, x ∈ n.1) ∧
      ∀ y, (∃ t ∈ ts', y ∈ t.filters) ↔ ∃ n ∈ nodes, y ∈ n.2
  | [], [], _ => ⟨[], by simp, by simp, by simp⟩
  | _ :: _, _ :: _, ⟨hfirst, hothers⟩ => by
    obtain ⟨nodes, hR, hleft, hright⟩ := hfirst.nodes
    obtain ⟨nodes', hR', hleft', hright'⟩ := AllParallel.nodes hothers
    refine ⟨nodes ++ nodes', List.forall_mem_append.mpr ⟨hR, hR'⟩, fun x => ?_, fun y => ?_⟩
    · simp only [List.exists_mem_cons_iff, hleft, hleft', List.mem_append, or_and_right, exists_or]
    · simp only [List.exists_mem_cons_iff, hright, hright', List.mem_append, or_and_right, exists_or]
end

mutual
/-- What is related at every node is related as a whole, if related parts may be put together. -/
theorem Parallel.whole {R : List F → List G → Prop} (hnil : R [] [])
    (happend : ∀ {xs ys xs' ys'}, R xs ys → R xs' ys' → R (xs ++ xs') (ys ++ ys')) :
    ∀ {t : FilterTree F} {t' : FilterTree G}, Parallel R t t' → R t.filters t'.filters
  | ⟨_, _, _⟩, ⟨_, _, _⟩, ⟨_, hown, hchildren⟩ => happend hown (AllParallel.whole hnil happend hchildren)

theorem AllParallel.whole {R : List F → List G → Prop} (hnil : R [] [])
    (happend : ∀ {xs ys xs' ys'}, R xs ys → R xs' ys' → R (xs ++ xs') (ys ++ ys')) :
    ∀ {ts : List (FilterTree F)} {ts' : List (FilterTree G)}, AllParallel R ts ts' → R (filtersAll ts) (filtersAll ts')
  | [], [], _ => hnil
  | _ :: _, _ :: _, ⟨hfirst, hothers⟩ =>
    happend (Parallel.whole hnil happend hfirst) (AllParallel.whole hnil happend hothers)
end

end FilterTree

namespace Expression

/-! ## An expression and a tree -/

mutual
/-- The tree has the nodes and connectives of the expression, and what its nodes hold is related to the
comparisons there. -/
def Mirrored (R : List Comparison → List F → Prop) : Expression → FilterTree F → Prop
  | ⟨operator, children, comparisons⟩, ⟨j, own, trees⟩ =>
    operator = j.connective ∧ R comparisons own ∧ AllMirrored R children trees

/-- `Mirrored` on lists of trees. -/
def AllMirrored (R : List Comparison → List F → Prop) : List Expression → List (FilterTree F) → Prop
  | [], [] => True
  | e :: es, tree :: trees => Mirrored R e tree ∧ AllMirrored R es trees
  | _, _ => False
end

variable {R : List Comparison → List F → Prop}

mutual
/-- The nodes of an expression and its mirrored tree, taken as pairs: they are related and hold together what
both hold. -/
theorem Mirrored.nodes : ∀ {e : Expression} {t : FilterTree F}, Mirrored R e t →
    ∃ nodes : List (List Comparison × List F), (∀ n ∈ nodes, R n.1 n.2) ∧
      (∀ c, c ∈ e.childrenFirst ↔ ∃ n ∈ nodes, c ∈ n.1) ∧ ∀ x, x ∈ t.filters ↔ ∃ n ∈ nodes, x ∈ n.2
  | ⟨_, _, comparisons⟩, ⟨_, own, _⟩, ⟨_, hown, hchildren⟩ => by
    obtain ⟨nodes, hR, hleft, hright⟩ := AllMirrored.nodes hchildren
    refine ⟨(comparisons, own) :: nodes, List.forall_mem_cons.mpr ⟨hown, hR⟩, fun c => ?_, fun x => ?_⟩
    · rw [mem_childrenFirst, hleft, List.exists_mem_cons_iff, or_comm]
    · rw [FilterTree.mem_filters, hright, List.exists_mem_cons_iff]

theorem AllMirrored.nodes : ∀ {es : List Expression} {ts : List (FilterTree F)}, AllMirrored R es ts →
    ∃ nodes : List (List Comparison × List F), (∀ n ∈ nodes, R n.1 n.2) ∧
      (∀ c, (∃ e ∈ es, c ∈ e.childrenFirst) ↔ ∃ n ∈ nodes, c ∈ n.1) ∧
      ∀ x, (∃ t ∈ ts, x ∈ t.filters) ↔ ∃ n ∈ nodes, x ∈ n.2
  | [], [], _ => ⟨[], by simp, by simp, by simp⟩
  | _ :: _, _ :: _, ⟨hfirst, hothers⟩ => by
    obtain ⟨nodes, hR, hleft, hright⟩ := hfirst.nodes
    obtain ⟨nodes', hR', hleft', hright'⟩ := AllMirrored.nodes hothers
    refine ⟨nodes ++ nodes', List.forall_mem_append.mpr ⟨hR, hR'⟩, fun c => ?_, fun x => ?_⟩
    · simp only [List.exists_mem_cons_iff, hleft, hleft', List.mem_append, or_and_right, exists_or]
    · simp only [List.exists_mem_cons_iff, hright, hright', List.mem_append, or_and_right, exists_or]
end

section ReadBack

variable {S : List F → List G → Prop} {U : List G → List H → Prop} {T : List Comparison → List H → Prop}
  {P : Comparison → Prop}

mutual
/-- If what is made at each node can be read back there, the whole tree can be read back. -/
theorem Mirrored.readBack
    (hnode : ∀ cs xs ys, (∀ c ∈ cs, P c) → R cs xs → S xs ys → ∃ zs, U ys zs ∧ T cs zs) :
    ∀ {e : Expression} {t : FilterTree F} {t' : FilterTree G}, (∀ c ∈ e.childrenFirst, P c) → Mirrored R e t →
      t.Parallel S t' → ∃ t'' : FilterTree H, t'.Parallel U t'' ∧ Mirrored T e t''
  | ⟨_, children, comparisons⟩, ⟨j, own, _⟩, ⟨_, own', _⟩, hP, ⟨hop, hR, hes⟩, ⟨hj, hS, hts⟩ => by
    have hown : ∀ c ∈ comparisons, P c := fun c hc => hP c (mem_childrenFirst.mpr (.inr hc))
    have hchildren : ∀ e ∈ children, ∀ c ∈ e.childrenFirst, P c :=
      fun e he c hc => hP c (mem_childrenFirst.mpr (.inl ⟨e, he, hc⟩))
    obtain ⟨zs, hU, hT⟩ := hnode comparisons own own' hown hR hS
    obtain ⟨trees, hpar, hmir⟩ := AllMirrored.readBack hnode hchildren hes hts
    exact ⟨⟨j, zs, trees⟩, ⟨hj.symm, hU, hpar⟩, ⟨hop, hT, hmir⟩⟩

theorem AllMirrored.readBack
    (hnode : ∀ cs xs ys, (∀ c ∈ cs, P c) → R cs xs → S xs ys → ∃ zs, U ys zs ∧ T cs zs) :
    ∀ {es : List Expression} {ts : List (FilterTree F)} {ts' : List (FilterTree G)},
      (∀ e ∈ es, ∀ c ∈ e.childrenFirst, P c) → AllMirrored R es ts → FilterTree.AllParallel S ts ts' →
      ∃ ts'' : List (FilterTree H), FilterTree.AllParallel U ts' ts'' ∧ AllMirrored T es ts''
  | [], [], [], _, _, _ => ⟨[], trivial, trivial⟩
  | _ :: _, _ :: _, _ :: _, hP, ⟨he, hes⟩, ⟨ht, hts⟩ => by
    rw [List.forall_mem_cons] at hP
    obtain ⟨tree, hpar, hmir⟩ := Mirrored.readBack hnode hP.1 he ht
    obtain ⟨trees, hpars, hmirs⟩ := AllMirrored.readBack hnode hP.2 hes hts
    exact ⟨tree :: trees, ⟨hpar, hpars⟩, ⟨hmir, hmirs⟩⟩
end

end ReadBack

section Comp

variable {S : List F → List G → Prop} {T : List Comparison → List G → Prop} {P : Comparison → Prop}

mutual
/-- What is related in two steps at each node is related in the whole tree. -/
theorem Mirrored.comp (hnode : ∀ cs xs ys, (∀ c ∈ cs, P c) → R cs xs → S xs ys → T cs ys) :
    ∀ {e : Expression} {t : FilterTree F} {t' : FilterTree G}, (∀ c ∈ e.childrenFirst, P c) → Mirrored R e t →
      t.Parallel S t' → Mirrored T e t'
  | ⟨_, children, comparisons⟩, ⟨_, own, _⟩, ⟨_, own', _⟩, hP, ⟨hop, hR, hes⟩, ⟨hj, hS, hts⟩ => by
    have hown : ∀ c ∈ comparisons, P c := fun c hc => hP c (mem_childrenFirst.mpr (.inr hc))
    have hchildren : ∀ e ∈ children, ∀ c ∈ e.childrenFirst, P c :=
      fun e he c hc => hP c (mem_childrenFirst.mpr (.inl ⟨e, he, hc⟩))
    exact ⟨hj ▸ hop, hnode comparisons own own' hown hR hS, AllMirrored.comp hnode hchildren hes hts⟩

theorem AllMirrored.comp (hnode : ∀ cs xs ys, (∀ c ∈ cs, P c) → R cs xs → S xs ys → T cs ys) :
    ∀ {es : List Expression} {ts : List (FilterTree F)} {ts' : List (FilterTree G)},
      (∀ e ∈ es, ∀ c ∈ e.childrenFirst, P c) → AllMirrored R es ts → FilterTree.AllParallel S ts ts' →
      AllMirrored T es ts'
  | [], [], [], _, _, _ => trivial
  | _ :: _, _ :: _, _ :: _, hP, ⟨he, hes⟩, ⟨ht, hts⟩ => by
    rw [List.forall_mem_cons] at hP
    exact ⟨Mirrored.comp hnode hP.1 he ht, AllMirrored.comp hnode hP.2 hes hts⟩
end

end Comp

/-! ## Trees of atoms -/

/-- What is asked at a node, in some order. -/
def SameAtoms (comparisons : List Comparison) (atoms : List Atom) : Prop :=
  atoms.Perm (comparisons.flatMap Comparison.atoms)

theorem SameAtoms.all_holds {v : Assignment} {comparisons : List Comparison} {atoms : List Atom}
    (h : SameAtoms comparisons atoms) : atoms.all v = comparisons.all (·.holds v) := by
  rw [h.all_eq, List.all_flatMap]
  rfl

theorem SameAtoms.any_holds {v : Assignment} {comparisons : List Comparison} {atoms : List Atom}
    (h : SameAtoms comparisons atoms) (hsingle : ∀ c ∈ comparisons, ∃ op, c.operations = [op]) :
    atoms.any v = comparisons.any (·.holds v) := by
  rw [h.any_eq, List.any_flatMap]
  refine any_congr_of_mem fun c hc => ?_
  obtain ⟨op, hop⟩ := hsingle c hc
  simp [Comparison.holds, Comparison.atoms, hop]

mutual
/-- A tree that asks the same at every node selects the same. -/
theorem Mirrored.holds_eq {v : Assignment} : ∀ {e : Expression} {t : FilterTree Atom}, Mirrored SameAtoms e t →
    (∀ c ∈ e.childrenFirst, ∃ op, c.operations = [op]) → t.holds v = e.holds v
  | ⟨_, children, comparisons⟩, ⟨j, own, trees⟩, ⟨hop, hown, htrees⟩, hsingle => by
    have hchildren : ∀ e ∈ children, ∀ c ∈ e.childrenFirst, ∃ op, c.operations = [op] :=
      fun e he c hc => hsingle c (mem_childrenFirst.mpr (.inl ⟨e, he, hc⟩))
    obtain ⟨hall, hany⟩ := AllMirrored.holds_eq (v := v) htrees hchildren
    subst hop
    cases j with
    | and =>
      rw [FilterTree.holds, FilterTree.allHold_eq_all, Junction.connective, holds_and, hall, hown.all_holds,
        Bool.and_comm]
    | or =>
      rw [FilterTree.holds, FilterTree.someHolds_eq_any, Junction.connective, holds_or, hany,
        hown.any_holds fun c hc => hsingle c (mem_childrenFirst.mpr (.inr hc)), Bool.or_comm]

theorem AllMirrored.holds_eq {v : Assignment} : ∀ {es : List Expression} {ts : List (FilterTree Atom)},
    AllMirrored SameAtoms es ts → (∀ e ∈ es, ∀ c ∈ e.childrenFirst, ∃ op, c.operations = [op]) →
    ts.all (·.holds v) = es.all (·.holds v) ∧ ts.any (·.holds v) = es.any (·.holds v)
  | [], [], _, _ => ⟨rfl, rfl⟩
  | e :: es, t :: ts, ⟨hfirst, hothers⟩, hsingle => by
    rw [List.forall_mem_cons] at hsingle
    obtain ⟨hall, hany⟩ := AllMirrored.holds_eq (v := v) hothers hsingle.2
    have heq := hfirst.holds_eq (v := v) hsingle.1
    exact ⟨by rw [List.all_cons, List.all_cons, heq, hall], by rw [List.any_cons, List.any_cons, heq, hany]⟩
end

end Expression

end DocumentFilter
