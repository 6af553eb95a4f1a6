/-
Matching: whatever tree a matcher gives for a filter holds the filter's
comparisons node by node, each under a capture that accepts it (`Sorts`).

A walk only ever adds to the comparisons that nothing took, so if none is left
at the end none was left at any step.
-/
import DocumentFilter.Proofs.Capture
import DocumentFilter.Proofs.Offer

namespace DocumentFilter

namespace CaptureTree

variable {M : Type}

mutual
/-- The capture tree as a tree of its groups. -/
def grouped : CaptureTree M → FilterTree (CaptureGroup M)
  | ⟨j, groups, children⟩ => ⟨j, groups, groupedAll children⟩

/-- `grouped` on lists of trees. -/
def groupedAll : List (CaptureTree M) → List (FilterTree (CaptureGroup M))
  | [] => []
  | tree :: trees => tree.grouped :: groupedAll trees
end

end CaptureTree

namespace Matcher

variable {M : Type}

/-- The tree holds the comparisons of the expression, node by node, as the captures sort them. -/
def Sorts (captures : List (Capture M)) (e : Expression) (tree : CaptureTree M) : Prop :=
  e.Mirrored (SortsNode captures) tree.grouped

theorem Connective.eq_of_junction? {operator : Connective} {j : Junction} (h : operator.junction? = some j) :
    operator = j.connective := by
  cases operator <;> cases h <;> rfl

variable [DecidableEq M]

section Walk

variable (singleUse : Bool)

/-! ## The comparisons of a node -/

theorem claimAll_frame : ∀ (cs : List Comparison) (tree : CaptureTree M) (progress : MatchProgress M),
    (claimAll singleUse cs tree progress).1.operator = tree.operator ∧
      (claimAll singleUse cs tree progress).1.children = tree.children
  | [], _, _ => ⟨rfl, rfl⟩
  | c :: cs, tree, progress => by
    unfold claimAll
    split
    · rename_i marker progress' _
      exact claimAll_frame cs (tree.capture marker c) progress'
    · rename_i progress' _
      exact claimAll_frame cs tree progress'

theorem claimAll_reaches (cs : List Comparison) (tree : CaptureTree M) (progress : MatchProgress M) :
    Reaches progress (claimAll singleUse cs tree progress).2 := by
  rw [claimAll_offer]
  exact reaches_offer singleUse cs progress

variable {singleUse}

/-- If nothing is left over, all comparisons have been sorted. -/
theorem sortsNode_claimAll {captures : List (Capture M)} : ∀ {cs done : List Comparison} {tree : CaptureTree M}
    {progress : MatchProgress M}, (∀ capture ∈ progress.available, capture ∈ captures) →
    (claimAll singleUse cs tree progress).2.unclaimed = [] → SortsNode captures done tree.groups →
    SortsNode captures (done ++ cs) (claimAll singleUse cs tree progress).1.groups
  | [], done, _, _, _, _, h => by rwa [List.append_nil]
  | c :: cs, done, tree, progress, havailable, hend, h => by
    unfold claimAll at hend ⊢
    obtain ⟨capture, hmem, progress', haccepts, hreach, hclaim⟩ | hclaim :=
      claim_cases singleUse progress c <;> simp only [hclaim] at hend ⊢
    · rw [List.append_cons]
      exact sortsNode_claimAll (fun other hother => havailable other (hreach.available other hother)) hend
        (h.capture (havailable capture hmem) haccepts)
    · -- What is left over now would still be left over at the end.
      have hnil := (claimAll_reaches singleUse cs tree _).unclaimed_eq_nil hend
      simp at hnil

/-! ## Trees -/

/-- A node is walked by walking its children and then claiming its comparisons, which makes the groups. -/
theorem walk_eq_some {operator : Connective} {children : List Expression} {comparisons : List Comparison}
    {progress progress' : MatchProgress M} {tree : CaptureTree M}
    (h : walk singleUse ⟨operator, children, comparisons⟩ progress = (some tree, progress')) :
    ∃ j trees middle groups, operator = j.connective ∧ walkAll singleUse children progress = (some trees, middle) ∧
      claimAll singleUse comparisons ⟨j, [], trees⟩ middle = (⟨j, groups, trees⟩, progress') ∧
      tree = ⟨j, groups, trees⟩ := by
  simp only [walk] at h
  split at h
  · cases h
  · rename_i j hj
    split at h
    · cases h
    · rename_i trees middle hchildren
      obtain ⟨hoperator, htrees⟩ := claimAll_frame singleUse comparisons ⟨j, [], trees⟩ middle
      generalize hclaimed : claimAll singleUse comparisons ⟨j, [], trees⟩ middle = claimed at h hoperator htrees
      obtain ⟨⟨_, groups, _⟩, _⟩ := claimed
      cases hoperator
      cases htrees
      cases h
      exact ⟨j, trees, middle, groups, Connective.eq_of_junction? hj, hchildren, hclaimed, rfl⟩

theorem walkAll_cons_eq_some {e : Expression} {es : List Expression} {progress progress' : MatchProgress M}
    {trees : List (CaptureTree M)} (h : walkAll singleUse (e :: es) progress = (some trees, progress')) :
    ∃ tree others middle, walk singleUse e progress = (some tree, middle) ∧
      walkAll singleUse es middle = (some others, progress') ∧ trees = tree :: others := by
  simp only [walkAll] at h
  split at h
  · cases h
  · rename_i tree middle hfirst
    split at h
    · cases h
    · rename_i others _ hothers
      cases h
      exact ⟨tree, others, middle, hfirst, hothers, rfl⟩

/-- What is left over when a node's comparisons are claimed is left over at the end. -/
theorem unclaimed_of_claimAll {cs : List Comparison} {tree tree' : CaptureTree M} {progress progress' : MatchProgress M}
    (h : claimAll singleUse cs tree progress = (tree', progress')) (hend : progress'.unclaimed = []) :
    progress.unclaimed = [] := by
  have hreach := claimAll_reaches singleUse cs tree progress
  rw [h] at hreach
  exact hreach.unclaimed_eq_nil hend

theorem reaches_of_walk {e : Expression} {tree? : Option (CaptureTree M)} {progress progress' : MatchProgress M}
    (h : walk singleUse e progress = (tree?, progress')) : Reaches progress progress' := by
  have hreach := reaches_offer singleUse e.beforeNot progress
  rwa [← (walk_offer singleUse e progress).2, h] at hreach

theorem reaches_of_walkAll {es : List Expression} {trees? : Option (List (CaptureTree M))}
    {progress progress' : MatchProgress M} (h : walkAll singleUse es progress = (trees?, progress')) :
    Reaches progress progress' := by
  have hreach := reaches_offer singleUse (Expression.beforeNotAll es) progress
  rwa [← (walkAll_offer singleUse es progress).2, h] at hreach

mutual
/-- If nothing is left over, the tree sorts the expression. -/
theorem sorts_walk {captures : List (Capture M)} : ∀ {e : Expression} {progress progress' : MatchProgress M}
    {tree : CaptureTree M}, walk singleUse e progress = (some tree, progress') →
    (∀ capture ∈ progress.available, capture ∈ captures) → progress'.unclaimed = [] → Sorts captures e tree
  | ⟨operator, children, comparisons⟩, progress, progress', tree, hwalk, havailable, hend => by
    obtain ⟨j, trees, middle, groups, rfl, hchildren, hclaimed, rfl⟩ := walk_eq_some hwalk
    have hmiddle : ∀ capture ∈ middle.available, capture ∈ captures :=
      fun capture h => havailable capture ((reaches_of_walkAll hchildren).available capture h)
    have hown : (claimAll singleUse comparisons ⟨j, [], trees⟩ middle).2.unclaimed = [] := by rwa [hclaimed]
    have hnode := sortsNode_claimAll hmiddle hown (sortsNode_nil captures)
    rw [hclaimed] at hnode
    exact ⟨rfl, hnode, sorts_walkAll hchildren havailable (unclaimed_of_claimAll hclaimed hend)⟩

theorem sorts_walkAll {captures : List (Capture M)} : ∀ {es : List Expression}
    {progress progress' : MatchProgress M} {trees : List (CaptureTree M)},
    walkAll singleUse es progress = (some trees, progress') →
    (∀ capture ∈ progress.available, capture ∈ captures) → progress'.unclaimed = [] →
    Expression.AllMirrored (SortsNode captures) es (CaptureTree.groupedAll trees)
  | [], _, _, _, hwalk, _, _ => by
    cases hwalk
    trivial
  | e :: es, progress, progress', trees, hwalk, havailable, hend => by
    obtain ⟨tree, others, middle, hfirst, hothers, rfl⟩ := walkAll_cons_eq_some hwalk
    have hmiddle : ∀ capture ∈ middle.available, capture ∈ captures :=
      fun capture h => havailable capture ((reaches_of_walk hfirst).available capture h)
    exact ⟨sorts_walk hfirst havailable ((reaches_of_walkAll hothers).unclaimed_eq_nil hend),
      sorts_walkAll hothers hmiddle hend⟩
end

/-- **A matcher sorts what it accepts**, by any strategy; the empty one accepts any connective. -/
theorem sorts_of_apply {matcher : Matcher M} {e : Expression} {tree : CaptureTree M}
    (h : matcher.apply e = .ok tree) (he : e.operator = .and) : Sorts matcher.captures e tree := by
  have hwalk {singleUse : Bool}
      (h : conclude singleUse (walk singleUse e ⟨matcher.captures, []⟩) = .ok tree) :
      Sorts matcher.captures e tree := by
    obtain ⟨hresult, hend⟩ := of_conclude_eq_ok h
    exact sorts_walk hresult (fun _ h => h) hend
  unfold apply at h
  split at h
  · split at h
    · rename_i hempty
      cases h
      obtain ⟨operator, children, comparisons⟩ := e
      simp only [Expression.isEmpty, Bool.and_eq_true, List.isEmpty_iff] at hempty
      obtain ⟨rfl, rfl⟩ := hempty
      exact ⟨he, sortsNode_nil _, trivial⟩
    · cases h
  · exact hwalk h
  · exact hwalk h

end Walk

end Matcher

end DocumentFilter
