/-
Which capture takes a comparison.

A greedy matcher gives every comparison to the first capture that accepts it,
whatever else the filter holds, so the marks under which a node's groups hold
its atoms are known exactly (`marked_of_greedy`). A strict matcher uses its
captures up. But if the greedy one would have chosen the same marker wherever
a strict capture accepts, then whatever the strict matcher accepts the greedy
one accepts with the very same tree (`apply_greedy_of_strict`).
-/
import DocumentFilter.Proofs.Matcher

namespace DocumentFilter

namespace Matcher

variable {M : Type}

/-- The marker of the first capture that accepts the comparison. -/
def markerOf? (captures : List (Capture M)) (c : Comparison) : Option M :=
  (captures.find? (·.accepts c)).map (·.marker)

theorem exists_capture_of_markerOf? {captures : List (Capture M)} {c : Comparison} {m : M}
    (h : markerOf? captures c = some m) :
    ∃ capture ∈ captures, capture.marker = m ∧ capture.accepts c = true := by
  obtain ⟨capture, hfind, hmarker⟩ := Option.map_eq_some_iff.mp h
  have haccepts : capture.accepts c = true := by simpa using List.find?_some hfind
  exact ⟨capture, List.mem_of_find?_eq_some hfind, hmarker, haccepts⟩

/-- What the captures choose for a comparison goes there, and nothing is used up. -/
theorem claim_greedy_eq (captures : List (Capture M)) (left : List Comparison) (c : Comparison) :
    claim false ⟨captures, left⟩ c =
      match markerOf? captures c with
      | some m => (some m, ⟨captures, left⟩)
      | none => (none, ⟨captures, left ++ [c]⟩) := by
  unfold claim markerOf?
  cases hfind : captures.find? (·.accepts c) with
  | none => rfl
  | some capture => rfl

variable [DecidableEq M]

/-! ## Walks, node by node -/

section Walk

variable {singleUse : Bool} {Kept : MatchProgress M → Prop} {R : List Comparison → List (CaptureGroup M) → Prop}

mutual
/-- If what is known of the progress is kept by every node, and makes each node's groups what they should be,
then so are those of the whole tree. -/
theorem mirrored_walk (hkept : ∀ cs tree progress, Kept progress → Kept (claimAll singleUse cs tree progress).2)
    (hnode : ∀ cs j children progress, Kept progress →
      R cs (claimAll singleUse cs ⟨j, [], children⟩ progress).1.groups) :
    ∀ {e : Expression} {progress progress' : MatchProgress M} {tree : CaptureTree M}, Kept progress →
      walk singleUse e progress = (some tree, progress') → Kept progress' ∧ e.Mirrored R tree.grouped
  | ⟨operator, children, comparisons⟩, progress, progress', tree, hprogress, hwalk => by
    obtain ⟨j, trees, middle, groups, rfl, hchildren, hclaimed, rfl⟩ := walk_eq_some hwalk
    obtain ⟨hmiddle, hmirrored⟩ := allMirrored_walkAll hkept hnode hprogress hchildren
    have hgroups := hnode comparisons j trees middle hmiddle
    have hend := hkept comparisons ⟨j, [], trees⟩ middle hmiddle
    rw [hclaimed] at hgroups hend
    exact ⟨hend, rfl, hgroups, hmirrored⟩

theorem allMirrored_walkAll
    (hkept : ∀ cs tree progress, Kept progress → Kept (claimAll singleUse cs tree progress).2)
    (hnode : ∀ cs j children progress, Kept progress →
      R cs (claimAll singleUse cs ⟨j, [], children⟩ progress).1.groups) :
    ∀ {es : List Expression} {progress progress' : MatchProgress M} {trees : List (CaptureTree M)}, Kept progress →
      walkAll singleUse es progress = (some trees, progress') →
      Kept progress' ∧ Expression.AllMirrored R es (CaptureTree.groupedAll trees)
  | [], progress, progress', trees, hprogress, hwalk => by
    cases hwalk
    exact ⟨hprogress, trivial⟩
  | e :: es, progress, progress', trees, hprogress, hwalk => by
    obtain ⟨tree, others, middle, hfirst, hothers, rfl⟩ := walkAll_cons_eq_some hwalk
    obtain ⟨hmiddle, hmirrored⟩ := mirrored_walk hkept hnode hprogress hfirst
    obtain ⟨hend, hmirrors⟩ := allMirrored_walkAll hkept hnode hmiddle hothers
    exact ⟨hend, hmirrored, hmirrors⟩
end

end Walk

/-! ## The marks of a greedy matcher -/

/-- The atoms of the comparison, each under the marker that the captures choose. -/
def marked (captures : List (Capture M)) (c : Comparison) : List (M × Atom) :=
  match markerOf? captures c with
  | some m => c.atoms.map (m, ·)
  | none => []

omit [DecidableEq M] in
theorem mem_marked {captures : List (Capture M)} {c : Comparison} {x : M × Atom} :
    x ∈ marked captures c ↔ markerOf? captures c = some x.1 ∧ x.2 ∈ c.atoms := by
  obtain ⟨m, a⟩ := x
  unfold marked
  cases hmarker : markerOf? captures c with
  | none => simp
  | some n =>
    simp only [List.mem_map, Prod.mk.injEq, Option.some.injEq]
    constructor
    · rintro ⟨b, hb, rfl, rfl⟩
      exact ⟨rfl, hb⟩
    · rintro ⟨rfl, ha⟩
      exact ⟨a, ha, rfl, rfl⟩

theorem claimAll_marked (captures : List (Capture M)) : ∀ (cs left : List Comparison) (tree : CaptureTree M),
    (claimAll false cs tree ⟨captures, left⟩).2.available = captures ∧
      ((claimAll false cs tree ⟨captures, left⟩).1.groups.flatMap CaptureGroup.entries).Perm
        (tree.groups.flatMap CaptureGroup.entries ++ cs.flatMap (marked captures))
  | [], left, tree => by simp [claimAll]
  | c :: cs, left, tree => by
    unfold claimAll
    rw [claim_greedy_eq, List.flatMap_cons]
    cases hmarker : markerOf? captures c with
    | none =>
      have hnone : marked captures c = [] := by simp [marked, hmarker]
      rw [hnone, List.nil_append]
      exact claimAll_marked captures cs (left ++ [c]) tree
    | some m =>
      have hsome : marked captures c = c.atoms.map (m, ·) := by simp [marked, hmarker]
      obtain ⟨havailable, hperm⟩ := claimAll_marked captures cs left (tree.capture m c)
      refine ⟨havailable, hperm.trans ?_⟩
      rw [hsome, ← List.append_assoc]
      exact (perm_entries_capture tree m c).append_right _

/-- **A greedy matcher marks every atom as the first capture says** that accepts its comparison, node by node. -/
theorem marked_of_greedy {captures : List (Capture M)} {e : Expression} {tree : CaptureTree M}
    (h : apply ⟨.greedy, captures⟩ e = .ok tree) :
    e.Mirrored (fun cs groups => (groups.flatMap CaptureGroup.entries).Perm (cs.flatMap (marked captures)))
      tree.grouped := by
  have hkept : ∀ cs (tree : CaptureTree M) progress, progress.available = captures →
      (claimAll false cs tree progress).2.available = captures := by
    rintro cs tree ⟨available, left⟩ havailable
    obtain rfl : available = captures := havailable
    exact (claimAll_marked available cs left tree).1
  have hnode : ∀ cs j (children : List (CaptureTree M)) progress, progress.available = captures →
      ((claimAll false cs ⟨j, [], children⟩ progress).1.groups.flatMap CaptureGroup.entries).Perm
        (cs.flatMap (marked captures)) := by
    rintro cs j children ⟨available, left⟩ havailable
    obtain rfl : available = captures := havailable
    exact (claimAll_marked available cs left ⟨j, [], children⟩).2
  obtain ⟨hwalk, -⟩ := of_conclude_eq_ok h
  exact (mirrored_walk hkept hnode (by rfl) hwalk).2

/-! ## Strict and greedy -/

/-- Where the capture accepts the comparison, the captures choose its marker. -/
def Prefers (captures : List (Capture M)) (c : Comparison) (capture : Capture M) : Prop :=
  capture.accepts c = true → markerOf? captures c = some capture.marker

variable {captures : List (Capture M)}

theorem claimAll_greedy_of_strict : ∀ {cs : List Comparison} {tree : CaptureTree M} {progress : MatchProgress M}
    (left : List Comparison), (∀ c ∈ cs, ∀ capture ∈ progress.available, Prefers captures c capture) →
    (claimAll true cs tree progress).2.unclaimed = [] →
    claimAll false cs tree ⟨captures, left⟩ = ((claimAll true cs tree progress).1, ⟨captures, left⟩)
  | [], tree, progress, left, _, _ => rfl
  | c :: cs, tree, progress, left, hprefers, hend => by
    rw [List.forall_mem_cons] at hprefers
    unfold claimAll at hend ⊢
    obtain ⟨capture, hmem, progress', haccepts, hreach, hclaim⟩ | hclaim := claim_cases true progress c <;>
      simp only [hclaim] at hend ⊢
    · have hmarker : markerOf? captures c = some capture.marker := hprefers.1 capture hmem haccepts
      simp only [claim_greedy_eq, hmarker]
      exact claimAll_greedy_of_strict left
        (fun d hd other hother => hprefers.2 d hd other (hreach.available other hother)) hend
    · -- What is left over now would still be left over at the end.
      have hnil := (claimAll_reaches true cs tree _).unclaimed_eq_nil hend
      simp at hnil

mutual
theorem walk_greedy_of_strict : ∀ {e : Expression} {progress progress' : MatchProgress M} {tree : CaptureTree M}
    (left : List Comparison), (∀ c ∈ e.childrenFirst, ∀ capture ∈ progress.available, Prefers captures c capture) →
    walk true e progress = (some tree, progress') → progress'.unclaimed = [] →
    walk false e ⟨captures, left⟩ = (some tree, ⟨captures, left⟩)
  | ⟨operator, children, comparisons⟩, progress, progress', tree, left, hprefers, hwalk, hend => by
    rw [Expression.childrenFirst, List.forall_mem_append] at hprefers
    obtain ⟨j, trees, middle, groups, rfl, hchildren, hclaimed, rfl⟩ := walk_eq_some hwalk
    have hreach := reaches_of_walkAll hchildren
    have hown : (claimAll true comparisons ⟨j, [], trees⟩ middle).2.unclaimed = [] := by rwa [hclaimed]
    have hgreedy := claimAll_greedy_of_strict left
      (fun c hc capture h => hprefers.2 c hc capture (hreach.available capture h)) hown
    rw [hclaimed] at hgreedy
    have hj : j.connective.junction? = some j := by cases j <;> rfl
    simp only [walk, hj, walkAll_greedy_of_strict left hprefers.1 hchildren (unclaimed_of_claimAll hclaimed hend),
      hgreedy]

theorem walkAll_greedy_of_strict : ∀ {es : List Expression} {progress progress' : MatchProgress M}
    {trees : List (CaptureTree M)} (left : List Comparison),
    (∀ c ∈ Expression.childrenFirstAll es, ∀ capture ∈ progress.available, Prefers captures c capture) →
    walkAll true es progress = (some trees, progress') → progress'.unclaimed = [] →
    walkAll false es ⟨captures, left⟩ = (some trees, ⟨captures, left⟩)
  | [], progress, progress', trees, left, _, hwalk, _ => by
    cases hwalk
    rfl
  | e :: es, progress, progress', trees, left, hprefers, hwalk, hend => by
    rw [Expression.childrenFirstAll, List.forall_mem_append] at hprefers
    obtain ⟨tree, others, middle, hfirst, hothers, rfl⟩ := walkAll_cons_eq_some hwalk
    have hrest : ∀ c ∈ Expression.childrenFirstAll es, ∀ capture ∈ middle.available, Prefers captures c capture :=
      fun c hc capture h => hprefers.2 c hc capture ((reaches_of_walk hfirst).available capture h)
    have hmiddle := (reaches_of_walkAll hothers).unclaimed_eq_nil hend
    simp only [walkAll, walk_greedy_of_strict left hprefers.1 hfirst hmiddle,
      walkAll_greedy_of_strict left hrest hothers hend]
end

/-- **What a strict matcher accepts the greedy one accepts with the same tree**, if its captures prefer those of
the strict one for all comparisons. -/
theorem apply_greedy_of_strict {strictly : List (Capture M)} {e : Expression} {tree : CaptureTree M}
    (hprefers : ∀ c ∈ e.childrenFirst, ∀ capture ∈ strictly, Prefers captures c capture)
    (h : apply ⟨.strict, strictly⟩ e = .ok tree) : apply ⟨.greedy, captures⟩ e = .ok tree := by
  obtain ⟨hwalk, hnone⟩ := of_conclude_eq_ok h
  simp only [apply, walk_greedy_of_strict [] hprefers hwalk hnone]
  rfl

/-- What the empty matcher accepts the greedy one accepts with the same tree, by any captures. -/
theorem apply_greedy_of_empty {others : List (Capture M)} {e : Expression} {tree : CaptureTree M}
    (he : e.operator = .and) (h : apply ⟨.empty, others⟩ e = .ok tree) :
    apply ⟨.greedy, captures⟩ e = .ok tree := by
  simp only [apply] at h
  split at h
  · rename_i hempty
    cases h
    obtain ⟨operator, children, comparisons⟩ := e
    simp only [Expression.isEmpty, Bool.and_eq_true, List.isEmpty_iff] at hempty
    obtain ⟨rfl, rfl⟩ := hempty
    obtain rfl : operator = .and := he
    rfl
  · cases h

end Matcher

end DocumentFilter
