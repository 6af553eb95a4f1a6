/-
Building, node by node and group by group.

A build takes the groups of a capture tree one after the other, those of the
children before a node's own. So it has the outcome of a single pass over the
groups in this order (`sameOutcome_build`), whatever the groups become: it
succeeds if every group does, and else fails as the first group that does. What
is built stands in the nodes of its groups (`parallel_of_build`), and is listed
with a node's own before what is below.
-/
import DocumentFilter.Proofs.Attribution
import DocumentFilter.Proofs.Resolution
import Mathlib.Algebra.GroupWithZero.Nat

namespace DocumentFilter

/-! ## Outcomes -/

section Outcome

variable {ε α β γ δ : Type}

/-- Both computations succeed, or both fail with the same error. -/
def SameOutcome (x : Except ε α) (y : Except ε β) : Prop := x.map (fun _ => ()) = y.map fun _ => ()

variable {x : Except ε α} {y : Except ε β}

theorem SameOutcome.bind {f : α → Except ε γ} {g : β → Except ε δ} (h : SameOutcome x y)
    (hnext : ∀ a b, SameOutcome (f a) (g b)) : SameOutcome (x >>= f) (y >>= g) := by
  cases x with
  | ok a =>
    cases y with
    | ok b => exact hnext a b
    | error e => cases h
  | error e =>
    cases y with
    | ok b => cases h
    | error e' =>
      cases h
      rfl

theorem SameOutcome.exists_ok_iff (h : SameOutcome x y) : (∃ a, x = .ok a) ↔ ∃ b, y = .ok b := by
  cases x <;> cases y <;> cases h <;> simp

theorem SameOutcome.error_iff (h : SameOutcome x y) {e : ε} : x = .error e ↔ y = .error e := by
  cases x <;> cases y <;> cases h <;> simp

end Outcome

namespace FilterTree

variable {M F G : Type}

/-! ## The two orders -/

theorem filters_eq (tree : FilterTree F) : tree.filters = tree.own ++ tree.children.flatMap filters := by
  obtain ⟨_, own, children⟩ := tree
  rw [filters, filtersAll_eq_flatMap]

mutual
/-- Children first or last, the items are the same. -/
theorem perm_childrenFirst : ∀ tree : FilterTree F, tree.childrenFirst.Perm tree.filters
  | ⟨_, own, children⟩ => by
    rw [childrenFirst, filters]
    exact List.perm_append_comm.trans ((perm_childrenFirstAll children).append_left own)

theorem perm_childrenFirstAll : ∀ trees : List (FilterTree F), (childrenFirstAll trees).Perm (filtersAll trees)
  | [] => .refl _
  | tree :: trees => (perm_childrenFirst tree).append (perm_childrenFirstAll trees)
end

section Build

variable {primitives : CaptureGroup M → Except FilterError (List F)}

mutual
/-- **A build goes over the groups, children first**, and does nothing else that could fail. -/
theorem sameOutcome_build : ∀ t : CaptureTree M,
    SameOutcome (build primitives t) (t.grouped.childrenFirst.mapM primitives)
  | ⟨_, groups, children⟩ => by
    rw [CaptureTree.grouped, childrenFirst, List.mapM_append, build]
    exact (sameOutcome_buildAll children).bind fun _ _ => SameOutcome.bind rfl fun _ _ => rfl

theorem sameOutcome_buildAll : ∀ ts : List (CaptureTree M),
    SameOutcome (buildAll primitives ts) ((childrenFirstAll (CaptureTree.groupedAll ts)).mapM primitives)
  | [] => rfl
  | t :: ts => by
    rw [CaptureTree.groupedAll, childrenFirstAll, List.mapM_append, buildAll]
    exact (sameOutcome_build t).bind fun _ _ => (sameOutcome_buildAll ts).bind fun _ _ => rfl
end

/-! ## What is built -/

theorem Makes.append {groups groups' : List (CaptureGroup M)} {own own' : List F} (h : Makes primitives groups own)
    (h' : Makes primitives groups' own') : Makes primitives (groups ++ groups') (own ++ own') := by
  obtain ⟨lists, hlists, rfl⟩ := h
  obtain ⟨lists', hlists', rfl⟩ := h'
  exact ⟨lists ++ lists', List.rel_append hlists hlists', List.flatten_append.symm⟩

/-- The tree has the nodes and connectives of the capture tree and in each of them, in order, what its groups become.
As a whole it lists, counted right, what the groups of the tree become, a node's own before those below. -/
structure IsBuiltFrom (primitives : CaptureGroup M → Except FilterError (List F)) (t : CaptureTree M)
    (tree : FilterTree F) : Prop where
  nodes : t.grouped.Parallel (Makes primitives) tree
  lists : ∃ lists, List.Forall₂ (fun group list => primitives group = .ok list) t.grouped.filters lists ∧
    tree.filters = lists.flatten ∧ tree.filters.length = (lists.map List.length).sum ∧
    tree.count = (lists.map List.length).sum

theorem isBuiltFrom_of_build {t : CaptureTree M} {tree : FilterTree F} (h : build primitives t = .ok tree) :
    tree.IsBuiltFrom primitives t := by
  have hnodes := parallel_of_build h
  obtain ⟨lists, hlists, hfilters⟩ := hnodes.whole ⟨[], .nil, rfl⟩ Makes.append
  have hlength : tree.filters.length = (lists.map List.length).sum := by rw [hfilters, List.length_flatten]
  exact ⟨hnodes, lists, hlists, hfilters, hlength, by rw [← length_filters, hlength]⟩

end Build

/-- **Building follows the capture tree**: it succeeds exactly if every group of every node becomes primitives, puts
these where their groups are, and otherwise fails as the first group does that cannot become any, children first. -/
theorem build_followsGroups (primitives : CaptureGroup M → Except FilterError (List F)) (t : CaptureTree M) :
    ((∃ tree, build primitives t = .ok tree) ↔ ∀ group ∈ t.grouped.filters, ∃ list, primitives group = .ok list) ∧
      (∀ tree, build primitives t = .ok tree → tree.IsBuiltFrom primitives t) ∧
      (∀ err, build primitives t = .error err ↔ FailsFirst primitives t.grouped.childrenFirst err) ∧
      ∀ tree : FilterTree F, tree.filters = tree.own ++ tree.children.flatMap filters := by
  have houtcome : SameOutcome (build primitives t) (t.grouped.childrenFirst.mapM primitives) := sameOutcome_build t
  refine ⟨⟨?_, fun h => ?_⟩, fun tree => isBuiltFrom_of_build, fun err => ?_, filters_eq⟩
  · rintro ⟨tree, htree⟩
    exact ok_of_build htree
  · rw [houtcome.exists_ok_iff]
    exact exists_mapM_eq_ok fun group hgroup => h group ((perm_childrenFirst t.grouped).mem_iff.mp hgroup)
  · rw [houtcome.error_iff, mapM_eq_error_iff]

/-- The paths of a group's sites as primitives, unless its marker is refused. -/
def pathsUnless (refused : List String) (group : CaptureGroup String) : Except FilterError (List String) :=
  if group.marker ∈ refused then .error (.unresolvable (.other group.marker)) else .ok (group.sites.map (·.path))

/-- A node with a group, over one with two. -/
def threeGroups : CaptureTree String :=
  ⟨.and, [⟨"own", [⟨"name", none, []⟩]⟩],
    [⟨.or, [⟨"first", [⟨"age", none, []⟩, ⟨"size", none, []⟩]⟩, ⟨"second", [⟨"tags", none, []⟩]⟩], []⟩]⟩

/-- Of two groups that fail, the one below decides, though its node comes later in the list of what is built. -/
theorem build_followsGroups_threeGroups :
    build (pathsUnless ["own", "second"]) threeGroups = .error (.unresolvable (.other "second")) ∧
      ∃ tree, build (pathsUnless []) threeGroups = .ok tree ∧ tree.IsBuiltFrom (pathsUnless []) threeGroups ∧
        tree.filters = ["name", "age", "size", "tags"] := by
  obtain ⟨-, -, hfails, -⟩ := build_followsGroups (pathsUnless ["own", "second"]) threeGroups
  obtain ⟨-, hbuilt, -, -⟩ := build_followsGroups (pathsUnless []) threeGroups
  refine ⟨(hfails _).mpr ⟨[⟨"first", [⟨"age", none, []⟩, ⟨"size", none, []⟩]⟩], _, _, rfl, ?_, rfl⟩, _, rfl, ?_, rfl⟩
  · exact List.forall_mem_singleton.mpr ⟨_, rfl⟩
  · exact hbuilt _ rfl

end FilterTree

end DocumentFilter
