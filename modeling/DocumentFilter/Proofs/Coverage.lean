/-
A greedy matcher answers whether its captures cover the filter, and nothing
else. It uses nothing up, so what a walk leaves over is what no capture accepts
(`offer_greedy`). It fails on every filter with a NOT. Without one it succeeds
exactly if some capture accepts each comparison; else it counts those that none
accepts and names the first of them, children first, and never misses a capture.

The captures enter as a set (`isUncovered_of_perm`): which of them takes a
comparison depends on their order, but the answer does not tell.
-/
import DocumentFilter.Proofs.Offer

namespace DocumentFilter

namespace Matcher

variable {M : Type} {captures : List (Capture M)}

/-! ## What no capture accepts -/

/-- No capture accepts the comparison. -/
def isUncovered (captures : List (Capture M)) (c : Comparison) : Bool := captures.all (!·.accepts c)

theorem claim_greedy (captures : List (Capture M)) (left : List Comparison) (c : Comparison) :
    (isUncovered captures c = false ∧ ∃ marker, claim false ⟨captures, left⟩ c = (some marker, ⟨captures, left⟩)) ∨
      (isUncovered captures c = true ∧ claim false ⟨captures, left⟩ c = (none, ⟨captures, left ++ [c]⟩)) := by
  obtain ⟨before, capture, after, rfl, haccepts, -, hclaim⟩ | ⟨hnone, hclaim⟩ := claim_step false captures left c
  · refine .inl ⟨List.all_eq_false.mpr ⟨capture, by simp, by simp [haccepts]⟩, _, hclaim⟩
  · exact .inr ⟨List.all_eq_true.mpr (by simpa using hnone), hclaim⟩

/-- **What a greedy offer leaves over no capture accepts**, and nothing else. -/
theorem offer_greedy (captures : List (Capture M)) : ∀ cs left : List Comparison,
    offer false ⟨captures, left⟩ cs = ⟨captures, left ++ cs.filter (isUncovered captures)⟩
  | [], left => by simp [offer]
  | c :: cs, left => by
    obtain ⟨hc, marker, hclaim⟩ | ⟨hc, hclaim⟩ := claim_greedy captures left c <;>
      rw [offer, hclaim, offer_greedy captures cs, List.filter_cons, hc]
    · rfl
    · simp

/-- Each of the comparisons is accepted by some capture. -/
def Covers (captures : List (Capture M)) (cs : List Comparison) : Prop :=
  ∀ c ∈ cs, ∃ capture ∈ captures, capture.accepts c = true

theorem filter_isUncovered_eq_nil {cs : List Comparison} :
    cs.filter (isUncovered captures) = [] ↔ Covers captures cs := by
  simp [List.filter_eq_nil_iff, isUncovered, Covers]

theorem isUncovered_of_perm {others : List (Capture M)} (h : others.Perm captures) :
    isUncovered others = isUncovered captures :=
  funext fun _ => h.all_eq

theorem covers_of_perm {others : List (Capture M)} (h : others.Perm captures) {cs : List Comparison} :
    Covers others cs ↔ Covers captures cs := by
  rw [← filter_isUncovered_eq_nil, ← filter_isUncovered_eq_nil, isUncovered_of_perm h]

/-! ## The answer -/

variable [DecidableEq M] {e : Expression}

/-- What is reported of the comparisons that were offered. -/
def uncoveredReport (captures : List (Capture M)) (cs : List Comparison) : MatchFailure :=
  ⟨0, cs.countP (isUncovered captures), cs.find? (isUncovered captures)⟩

theorem apply_greedy_of_not_isNormalized (he : e.isNormalized = false) :
    apply ⟨.greedy, captures⟩ e = .error (uncoveredReport captures e.beforeNot) := by
  have hwalk := walk_of_not_isNormalized false he ⟨captures, []⟩
  rw [apply, hwalk, offer_greedy, List.nil_append, uncoveredReport, List.countP_eq_length_filter, ← List.head?_filter]
  rfl

theorem apply_greedy_of_covers (he : e.isNormalized = true) (h : Covers captures e.childrenFirst) :
    ∃ tree, apply ⟨.greedy, captures⟩ e = .ok tree := by
  obtain ⟨tree, hwalk⟩ := walk_of_isNormalized false he ⟨captures, []⟩
  refine ⟨tree, ?_⟩
  rw [apply, hwalk, offer_greedy, filter_isUncovered_eq_nil.mpr h]
  rfl

theorem apply_greedy_of_not_covers (he : e.isNormalized = true) (h : ¬ Covers captures e.childrenFirst) :
    apply ⟨.greedy, captures⟩ e = .error (uncoveredReport captures e.childrenFirst) := by
  obtain ⟨tree, hwalk⟩ := walk_of_isNormalized false he ⟨captures, []⟩
  have hleft : e.childrenFirst.filter (isUncovered captures) ≠ [] := mt filter_isUncovered_eq_nil.mp h
  rw [apply, hwalk, offer_greedy, List.nil_append, uncoveredReport, List.countP_eq_length_filter, ← List.head?_filter]
  simp [conclude, hleft]

/-- A greedy matcher accepts a filter without NOT if its captures cover it; else it names the first comparison
that they do not, children first. -/
theorem apply_greedy (captures : List (Capture M)) (he : e.isNormalized = true) :
    (e.childrenFirst.find? (isUncovered captures) = none ∧ ∃ tree, apply ⟨.greedy, captures⟩ e = .ok tree) ∨
      ∃ c n, e.childrenFirst.find? (isUncovered captures) = some c ∧
        apply ⟨.greedy, captures⟩ e = .error ⟨0, n, some c⟩ := by
  by_cases hcovers : Covers captures e.childrenFirst
  · refine .inl ⟨?_, apply_greedy_of_covers he hcovers⟩
    rw [← List.head?_filter, filter_isUncovered_eq_nil.mpr hcovers, List.head?_nil]
  · have happly := apply_greedy_of_not_covers he hcovers
    cases hfind : e.childrenFirst.find? (isUncovered captures) with
    | none =>
      rw [← List.head?_filter, List.head?_eq_none_iff] at hfind
      exact absurd (filter_isUncovered_eq_nil.mp hfind) hcovers
    | some c =>
      rw [uncoveredReport, hfind] at happly
      exact .inr ⟨c, _, rfl, happly⟩

/-- What the greedy strategy makes of a filter. -/
structure ReportsCoverage (captures : List (Capture M)) (e : Expression) : Prop where
  /-- A NOT anywhere makes it fail. -/
  negation : e.isNormalized = false → ∃ failure, apply ⟨.greedy, captures⟩ e = .error failure ∧
    failure.unmatchedCaptures = 0
  success : e.isNormalized = true →
    ((∃ tree, apply ⟨.greedy, captures⟩ e = .ok tree) ↔ Covers captures e.childrenFirst)
  failure : e.isNormalized = true → ∀ failure, apply ⟨.greedy, captures⟩ e = .error failure →
    failure = uncoveredReport captures e.childrenFirst
  /-- In any other order the captures give the same answer, up to the tree. -/
  reordered : ∀ others : List (Capture M), others.Perm captures →
    (apply ⟨.greedy, others⟩ e).map (fun _ => ()) = (apply ⟨.greedy, captures⟩ e).map fun _ => ()

/-- **A greedy matcher reports coverage**, exactly and in any order of its captures. -/
theorem apply_greedy_reportsCoverage (captures : List (Capture M)) (e : Expression) : ReportsCoverage captures e where
  negation := by
    intro he
    exact ⟨_, apply_greedy_of_not_isNormalized he, rfl⟩
  success := by
    intro he
    constructor
    · intro hok
      by_cases hcovers : Covers captures e.childrenFirst
      · exact hcovers
      · obtain ⟨tree, htree⟩ := hok
        rw [apply_greedy_of_not_covers he hcovers] at htree
        cases htree
    · exact apply_greedy_of_covers he
  failure := by
    intro he failure hfailure
    by_cases hcovers : Covers captures e.childrenFirst
    · obtain ⟨tree, htree⟩ := apply_greedy_of_covers he hcovers
      rw [htree] at hfailure
      cases hfailure
    · rw [apply_greedy_of_not_covers he hcovers] at hfailure
      cases hfailure
      rfl
  reordered := by
    intro others hperm
    have hreport (cs : List Comparison) : uncoveredReport others cs = uncoveredReport captures cs := by
      rw [uncoveredReport, uncoveredReport, isUncovered_of_perm hperm]
    cases he : e.isNormalized with
    | false => rw [apply_greedy_of_not_isNormalized he, apply_greedy_of_not_isNormalized he, hreport]
    | true =>
      by_cases hcovers : Covers captures e.childrenFirst
      · obtain ⟨tree, htree⟩ := apply_greedy_of_covers he hcovers
        obtain ⟨tree', htree'⟩ := apply_greedy_of_covers he ((covers_of_perm hperm).mpr hcovers)
        rw [htree, htree']
        rfl
      · rw [apply_greedy_of_not_covers he hcovers,
          apply_greedy_of_not_covers he (mt (covers_of_perm hperm).mp hcovers), hreport]

/-- Two captures that overlap, and none of texts. -/
def anyOrAge : List (Capture String) := [⟨"any", "*", [.gte], .number⟩, ⟨"age", "age", [.gte, .lt], .number⟩]

/-- Bounds of an age and of a size, of which the upper one of the size has no capture, and a name, which has none. -/
def boundsAndName : Expression :=
  ⟨.or, [⟨.and, [], [.single "age" .gte (.number (.int 18)), .single "name" .eq (.string "a")]⟩],
    [.single "size" .lt (.number (.int 9)), .single "size" .gte (.number (.int 3)),
      .single "age" .lt (.number (.int 65))]⟩

theorem apply_greedy_reportsCoverage_boundsAndName :
    apply ⟨.greedy, anyOrAge⟩ boundsAndName = .error ⟨0, 2, some (.single "name" .eq (.string "a"))⟩ ∧
      (apply ⟨.greedy, anyOrAge.reverse⟩ boundsAndName).map (fun _ => ()) =
        .error ⟨0, 2, some (.single "name" .eq (.string "a"))⟩ ∧
      ∃ failure, apply ⟨.greedy, anyOrAge⟩ ⟨.not, [boundsAndName], []⟩ = .error failure := by
  have happly : apply ⟨.greedy, anyOrAge⟩ boundsAndName =
      .error ⟨0, 2, some (.single "name" .eq (.string "a"))⟩ := rfl
  have hreordered := (apply_greedy_reportsCoverage anyOrAge boundsAndName).reordered _ (List.reverse_perm _)
  obtain ⟨failure, hnegation, -⟩ :=
    (apply_greedy_reportsCoverage anyOrAge ⟨.not, [boundsAndName], []⟩).negation rfl
  rw [happly] at hreordered
  exact ⟨happly, hreordered, failure, hnegation⟩

end Matcher

end DocumentFilter
