/-
A walk over a tree is a pass over a list. Whatever tree it gives, all it does to
the captures and to the comparisons left over is to offer comparisons one by
one (`offer`): those of children before a node's own, up to the first NOT
(`Expression.beforeNot`). It gives a tree exactly if there is no NOT
(`walk_offer`), so what a matcher answers is a matter of one list.

What the offer of one comparison can do is said once (`claim_step`): the first
capture that accepts it takes it, or it is left over. So an offer only ever uses
up captures and adds to the comparisons that nothing took (`Reaches`).
-/
import DocumentFilter.Capture.Matcher

namespace DocumentFilter

namespace Expression

mutual
/-- The comparisons that stand before the first NOT of the tree, those of children before a node's own. -/
def beforeNot : Expression → List Comparison
  | ⟨operator, children, comparisons⟩ =>
    match operator.junction? with
    | none => []
    | some _ => beforeNotAll children ++ if areNormalized children then comparisons else []

/-- `beforeNot` of trees that are read one after the other. -/
def beforeNotAll : List Expression → List Comparison
  | [] => []
  | e :: es => e.beforeNot ++ if e.isNormalized then beforeNotAll es else []
end

mutual
/-- Without NOT these are all comparisons. -/
theorem beforeNot_of_isNormalized : ∀ {e : Expression}, e.isNormalized = true → e.beforeNot = e.childrenFirst
  | ⟨operator, children, comparisons⟩, he => by
    simp only [isNormalized, Bool.and_eq_true, bne_iff_ne, ne_eq] at he
    rw [beforeNot, childrenFirst, beforeNotAll_of_areNormalized he.2, if_pos he.2]
    cases operator with
    | and | or => rfl
    | not => exact absurd rfl he.1

theorem beforeNotAll_of_areNormalized : ∀ {es : List Expression}, areNormalized es = true →
    beforeNotAll es = childrenFirstAll es
  | [], _ => rfl
  | e :: es, hes => by
    simp only [areNormalized, Bool.and_eq_true] at hes
    rw [beforeNotAll, childrenFirstAll, beforeNot_of_isNormalized hes.1, if_pos hes.1,
      beforeNotAll_of_areNormalized hes.2]
end

end Expression

namespace Matcher

variable {M : Type}

/-! ## One comparison -/

/-- The second state may come after the first: captures were used up, comparisons were left over. -/
structure Reaches (p q : MatchProgress M) : Prop where
  available : ∀ capture ∈ q.available, capture ∈ p.available
  unclaimed : p.unclaimed <+: q.unclaimed

theorem Reaches.refl (p : MatchProgress M) : Reaches p p := ⟨fun _ h => h, List.prefix_refl _⟩

theorem Reaches.trans {p q r : MatchProgress M} (h : Reaches p q) (h' : Reaches q r) : Reaches p r :=
  ⟨fun capture hc => h.available capture (h'.available capture hc), h.unclaimed.trans h'.unclaimed⟩

/-- If nothing is left over later, nothing is now. -/
theorem Reaches.unclaimed_eq_nil {p q : MatchProgress M} (h : Reaches p q) (hq : q.unclaimed = []) :
    p.unclaimed = [] := List.prefix_nil.mp (hq ▸ h.unclaimed)

theorem exists_first {captures : List (Capture M)} {c : Comparison}
    (h : ∃ capture ∈ captures, capture.accepts c = true) :
    ∃ before capture after, captures = before ++ capture :: after ∧ capture.accepts c = true ∧
      ∀ other ∈ before, other.accepts c = false := by
  have hsome : (captures.find? (·.accepts c)).isSome = true := by simpa using h
  obtain ⟨capture, hfind⟩ := Option.isSome_iff_exists.mp hsome
  obtain ⟨haccepts, before, after, hsplit, hbefore⟩ := List.find?_eq_some_iff_append.mp hfind
  exact ⟨before, capture, after, hsplit, haccepts, by simpa using hbefore⟩

/-- A comparison goes to the first capture that accepts it, which is then gone if it is for single use. -/
theorem claim_first (singleUse : Bool) {before after : List (Capture M)} {capture : Capture M} {c : Comparison}
    (haccepts : capture.accepts c = true) (hbefore : ∀ other ∈ before, other.accepts c = false)
    (left : List Comparison) : claim singleUse ⟨before ++ capture :: after, left⟩ c =
      (some capture.marker, ⟨if singleUse then before ++ after else before ++ capture :: after, left⟩) := by
  have hfind : (before ++ capture :: after).find? (·.accepts c) = some capture :=
    List.find?_eq_some_iff_append.mpr ⟨haccepts, before, after, rfl, by simpa using hbefore⟩
  have hrest : (before ++ capture :: after).eraseP (·.accepts c) = before ++ after := by
    rw [List.eraseP_append_right _ (by simpa using hbefore), List.eraseP_cons_of_pos (by exact haccepts)]
  simp only [claim, hfind, hrest]

/-- A comparison that no capture accepts is left over. -/
theorem claim_none (singleUse : Bool) {captures : List (Capture M)} {c : Comparison}
    (h : ∀ capture ∈ captures, capture.accepts c = false) (left : List Comparison) :
    claim singleUse ⟨captures, left⟩ c = (none, ⟨captures, left ++ [c]⟩) := by
  have hfind : captures.find? (·.accepts c) = none := by simpa using h
  simp only [claim, hfind]

/-- All that an offer of one comparison can do. -/
theorem claim_step (singleUse : Bool) (captures : List (Capture M)) (left : List Comparison) (c : Comparison) :
    (∃ before capture after, captures = before ++ capture :: after ∧ capture.accepts c = true ∧
        (∀ other ∈ before, other.accepts c = false) ∧ claim singleUse ⟨captures, left⟩ c =
          (some capture.marker, ⟨if singleUse then before ++ after else captures, left⟩)) ∨
      ((∀ capture ∈ captures, capture.accepts c = false) ∧
        claim singleUse ⟨captures, left⟩ c = (none, ⟨captures, left ++ [c]⟩)) := by
  by_cases haccepted : ∃ capture ∈ captures, capture.accepts c = true
  · obtain ⟨before, capture, after, rfl, haccepts, hbefore⟩ := exists_first haccepted
    exact .inl ⟨before, capture, after, rfl, haccepts, hbefore, claim_first singleUse haccepts hbefore left⟩
  · have hnone : ∀ capture ∈ captures, capture.accepts c = false := by simpa using haccepted
    exact .inr ⟨hnone, claim_none singleUse hnone left⟩

/-- A comparison goes to an available capture that accepts it, or is left over. -/
theorem claim_cases (singleUse : Bool) (progress : MatchProgress M) (c : Comparison) :
    (∃ capture ∈ progress.available, ∃ progress', capture.accepts c = true ∧ Reaches progress progress' ∧
        claim singleUse progress c = (some capture.marker, progress')) ∨
      claim singleUse progress c = (none, { progress with unclaimed := progress.unclaimed ++ [c] }) := by
  obtain ⟨captures, left⟩ := progress
  obtain ⟨before, capture, after, rfl, haccepts, -, hclaim⟩ | ⟨-, hclaim⟩ := claim_step singleUse captures left c
  · have hrest : ∀ other ∈ if singleUse then before ++ after else before ++ capture :: after,
        other ∈ before ++ capture :: after := by
      cases singleUse with
      | false => exact fun _ h => h
      | true => exact ((List.sublist_cons_self capture after).append_left before).subset
    refine .inl ⟨capture, by simp, _, haccepts, ?_, hclaim⟩
    exact ⟨hrest, List.prefix_refl _⟩
  · exact .inr hclaim

theorem reaches_claim (singleUse : Bool) (progress : MatchProgress M) (c : Comparison) :
    Reaches progress (claim singleUse progress c).2 := by
  obtain ⟨capture, -, progress', -, hreach, hclaim⟩ | hclaim := claim_cases singleUse progress c <;> rw [hclaim]
  · exact hreach
  · exact ⟨fun _ h => h, List.prefix_append ..⟩

/-! ## A list of comparisons -/

/-- The progress after comparisons have been offered to the captures, one after the other. -/
def offer (singleUse : Bool) (progress : MatchProgress M) : List Comparison → MatchProgress M
  | [] => progress
  | c :: cs => offer singleUse (claim singleUse progress c).2 cs

theorem offer_append (singleUse : Bool) : ∀ (cs ds : List Comparison) (progress : MatchProgress M),
    offer singleUse progress (cs ++ ds) = offer singleUse (offer singleUse progress cs) ds
  | [], _, _ => rfl
  | c :: cs, ds, progress => offer_append singleUse cs ds (claim singleUse progress c).2

theorem reaches_offer (singleUse : Bool) : ∀ (cs : List Comparison) (progress : MatchProgress M),
    Reaches progress (offer singleUse progress cs)
  | [], progress => .refl progress
  | c :: cs, progress => (reaches_claim singleUse progress c).trans (reaches_offer singleUse cs _)

/-! ## Walks -/

/-- A walk ends well if it gives a tree and leaves no comparison over. -/
theorem of_conclude_eq_ok {singleUse : Bool} {result : Option (CaptureTree M) × MatchProgress M}
    {tree : CaptureTree M} (h : conclude singleUse result = .ok tree) :
    result = (some tree, result.2) ∧ result.2.unclaimed = [] := by
  obtain ⟨_ | found, progress⟩ := result
  · cases h
  · simp only [conclude] at h
    generalize (if singleUse = true then progress.available.length else 0) = missing at h
    split at h
    · rename_i hnone
      cases h
      simp only [Bool.and_eq_true, List.isEmpty_iff] at hnone
      exact ⟨rfl, hnone.2⟩
    · cases h

variable [DecidableEq M]

theorem claimAll_offer (singleUse : Bool) : ∀ (cs : List Comparison) (tree : CaptureTree M)
    (progress : MatchProgress M), (claimAll singleUse cs tree progress).2 = offer singleUse progress cs
  | [], _, _ => rfl
  | c :: cs, tree, progress => by
    unfold claimAll offer
    split
    · rename_i marker progress' hclaim
      rw [claimAll_offer singleUse cs (tree.capture marker c) progress', hclaim]
    · rename_i progress' hclaim
      rw [claimAll_offer singleUse cs tree progress', hclaim]

mutual
/-- **A walk offers the comparisons before the first NOT**, and gives a tree if there is none. -/
theorem walk_offer (singleUse : Bool) : ∀ (e : Expression) (progress : MatchProgress M),
    (walk singleUse e progress).1.isSome = e.isNormalized ∧
      (walk singleUse e progress).2 = offer singleUse progress e.beforeNot
  | ⟨operator, children, comparisons⟩, progress => by
    obtain ⟨htrees, hchildren⟩ := walkAll_offer singleUse children progress
    generalize hwalk : walkAll singleUse children progress = below at htrees hchildren
    obtain ⟨trees?, middle⟩ := below
    subst hchildren
    cases operator with
    | not => exact ⟨rfl, rfl⟩
    | and | or =>
      cases trees? with
      | none =>
        have hnot : Expression.areNormalized children = false := by simpa using htrees.symm
        simp [walk, hwalk, Connective.junction?, Expression.isNormalized, Expression.beforeNot, hnot]
      | some trees =>
        have hnormalized : Expression.areNormalized children = true := by simpa using htrees.symm
        simp [walk, hwalk, Connective.junction?, Expression.isNormalized, Expression.beforeNot, hnormalized,
          claimAll_offer, offer_append]

theorem walkAll_offer (singleUse : Bool) : ∀ (es : List Expression) (progress : MatchProgress M),
    (walkAll singleUse es progress).1.isSome = Expression.areNormalized es ∧
      (walkAll singleUse es progress).2 = offer singleUse progress (Expression.beforeNotAll es)
  | [], progress => ⟨rfl, rfl⟩
  | e :: es, progress => by
    obtain ⟨htree, hfirst⟩ := walk_offer singleUse e progress
    generalize hwalk : walk singleUse e progress = first at htree hfirst
    obtain ⟨tree?, middle⟩ := first
    subst hfirst
    obtain ⟨htrees, hothers⟩ := walkAll_offer singleUse es (offer singleUse progress e.beforeNot)
    cases tree? with
    | none =>
      have hnot : e.isNormalized = false := by simpa using htree.symm
      simp [walkAll, hwalk, Expression.areNormalized, Expression.beforeNotAll, hnot]
    | some tree =>
      have hnormalized : e.isNormalized = true := by simpa using htree.symm
      generalize hrest : walkAll singleUse es (offer singleUse progress e.beforeNot) = rest at htrees hothers
      obtain ⟨trees?, progress'⟩ := rest
      subst hothers
      cases trees? <;>
        simp_all [walkAll, Expression.areNormalized, Expression.beforeNotAll, offer_append]
end

theorem walk_of_isNormalized (singleUse : Bool) {e : Expression} (he : e.isNormalized = true)
    (progress : MatchProgress M) :
    ∃ tree, walk singleUse e progress = (some tree, offer singleUse progress e.childrenFirst) := by
  obtain ⟨htree, hprogress⟩ := walk_offer singleUse e progress
  rw [he] at htree
  rw [Expression.beforeNot_of_isNormalized he] at hprogress
  obtain ⟨tree, htree⟩ := Option.isSome_iff_exists.mp htree
  exact ⟨tree, Prod.ext htree hprogress⟩

theorem walk_of_not_isNormalized (singleUse : Bool) {e : Expression} (he : e.isNormalized = false)
    (progress : MatchProgress M) : walk singleUse e progress = (none, offer singleUse progress e.beforeNot) := by
  obtain ⟨htree, hprogress⟩ := walk_offer singleUse e progress
  rw [he] at htree
  exact Prod.ext (Option.isSome_eq_false_iff.mp htree |> Option.isNone_iff_eq_none.mp) hprogress

end Matcher

end DocumentFilter
