/-
Strict accounts balance. A comparison that is offered either uses one capture up
or is left over (`claim_balance`), so however the captures overlap and wherever
the comparisons stand in the tree, captures and comparisons left over at the end
differ by what captures and comparisons differ by (`offer_balance`).

A capture that was used up is gone for the whole tree: the claims of a walk are
all on positions of their own (`InOrder.nodup`), whether the walk ends well or
not.
-/
import DocumentFilter.Proofs.Attribution

namespace DocumentFilter

variable {M : Type} {captures : List (Capture M)}

/-! ## Claims -/

/-- No single-use capture is claimed twice, and none that was used before. -/
theorem InOrder.nodup : ∀ {claims : List (Claim M)} {used : List Nat}, InOrder true captures used claims →
    (claims.map (·.position)).Nodup ∧ ∀ claim ∈ claims, claim.position ∉ used
  | [], used, _ => by simp
  | claim :: claims, used, ⟨hfirst, horder⟩ => by
    obtain ⟨hnodup, hfresh⟩ := horder.nodup
    have hothers : ∀ other ∈ claims, other.position ∉ used ∧ other.position ≠ claim.position := by
      intro other hother
      have hnot : other.position ∉ used ++ [claim.position] := hfresh other hother
      simpa [not_or] using hnot
    constructor
    · rw [List.map_cons, List.nodup_cons]
      refine ⟨fun hmem => ?_, hnodup⟩
      obtain ⟨other, hother, heq⟩ := List.mem_map.mp hmem
      exact (hothers other hother).2 heq
    · rw [List.forall_mem_cons]
      exact ⟨hfirst.unused, fun other hother => (hothers other hother).1⟩

theorem InOrder.declared {singleUse : Bool} {claims : List (Claim M)} {used : List Nat}
    (h : InOrder singleUse captures used claims) : ∀ claim ∈ claims,
      captures[claim.position]? = some claim.capture ∧ claim.capture.accepts claim.comparison = true := by
  intro claim hclaim
  obtain ⟨before, after, rfl⟩ := List.append_of_mem hclaim
  exact ⟨h.isFirst.declared, h.isFirst.accepts⟩

namespace Matcher

/-! ## The balance -/

/-- An offered comparison uses up one capture, or is left over. -/
theorem claim_balance (progress : MatchProgress M) (c : Comparison) :
    (claim true progress c).2.available.length + progress.unclaimed.length + 1 =
      progress.available.length + (claim true progress c).2.unclaimed.length := by
  obtain ⟨captures, left⟩ := progress
  obtain ⟨before, capture, after, rfl, -, -, hclaim⟩ | ⟨-, hclaim⟩ := claim_step true captures left c
  · simp only [hclaim, if_true, List.length_append, List.length_cons]
    omega
  · simp only [hclaim, List.length_append, List.length_singleton]
    omega

theorem offer_balance : ∀ (cs : List Comparison) (progress : MatchProgress M),
    (offer true progress cs).available.length + progress.unclaimed.length + cs.length =
      progress.available.length + (offer true progress cs).unclaimed.length
  | [], progress => by simp only [offer, List.length_nil]; omega
  | c :: cs, progress => by
    have hclaim := claim_balance progress c
    have hoffer := offer_balance cs (claim true progress c).2
    simp only [offer, List.length_cons]
    omega

/-! ## Runs of the strict strategy -/

variable [DecidableEq M]

/-- The tree of a walk of a strict matcher was made by claims, each of a capture and a comparison that it accepts at
its node; all captures without a claim are missing and all comparisons without a claim are left over. -/
structure ClaimedOnce (captures : List (Capture M)) (e : Expression) (tree : CaptureTree M) (missing : List (Capture M))
    (left : List Comparison) (claims : FilterTree (Claim M)) : Prop where
  nodes : e.Mirrored (fun cs own => (own.map (·.comparison)).Sublist cs) claims
  records : claims.Parallel Records tree.grouped
  declared : ∀ claim ∈ claims.childrenFirst,
    captures[claim.position]? = some claim.capture ∧ claim.capture.accepts claim.comparison = true
  /-- No capture has two claims, in whatever nodes. -/
  once : (claims.childrenFirst.map (·.position)).Nodup
  missing : missing = remaining captures (claims.childrenFirst.map (·.position))
  left : Splits e.childrenFirst claims.childrenFirst left

/-- A strict matcher answers by what a walk leaves on both sides. -/
structure AnswersByBalance (captures : List (Capture M)) (e : Expression) (tree : CaptureTree M)
    (missing : List (Capture M)) (left : List Comparison) : Prop where
  balance : missing.length + e.total = captures.length + left.length
  success : ∀ found, apply ⟨.strict, captures⟩ e = .ok found ↔
    (missing.length = 0 ∧ left.length = 0) ∧ tree = found
  exhausted : ∀ found, apply ⟨.strict, captures⟩ e = .ok found → captures.length = e.total
  failure : ∀ failure, apply ⟨.strict, captures⟩ e = .error failure →
    failure.unmatchedCaptures = missing.length ∧ failure.unmatchedComparisons = left.length ∧
      failure.firstUnclaimed? = left.head? ∧
      failure.unmatchedCaptures + e.total = captures.length + failure.unmatchedComparisons ∧
      (failure.firstUnclaimed?.isSome = true ↔ 0 < failure.unmatchedComparisons)

variable {e : Expression} {tree : CaptureTree M} {missing : List (Capture M)} {left : List Comparison}

/-- The answer to a walk that gave a tree. -/
theorem apply_strict_of_walk (hwalk : walk true e ⟨captures, []⟩ = (some tree, ⟨missing, left⟩)) :
    apply ⟨.strict, captures⟩ e =
      if missing.length = 0 ∧ left.length = 0 then .ok tree
      else .error ⟨missing.length, left.length, left.head?⟩ := by
  have hconclude : apply ⟨.strict, captures⟩ e = conclude true (some tree, ⟨missing, left⟩) :=
    congrArg (conclude true) hwalk
  rw [hconclude]
  simp [conclude]

theorem apply_strict_eq_ok (hwalk : walk true e ⟨captures, []⟩ = (some tree, ⟨missing, left⟩))
    (found : CaptureTree M) :
    apply ⟨.strict, captures⟩ e = .ok found ↔ (missing.length = 0 ∧ left.length = 0) ∧ tree = found := by
  rw [apply_strict_of_walk hwalk]
  by_cases hboth : missing.length = 0 ∧ left.length = 0
  · rw [if_pos hboth, Except.ok.injEq]
    exact (and_iff_right hboth).symm
  · rw [if_neg hboth]
    constructor
    · intro h
      cases h
    · intro h
      exact absurd h.1 hboth

theorem apply_strict_eq_error (hwalk : walk true e ⟨captures, []⟩ = (some tree, ⟨missing, left⟩))
    {failure : MatchFailure} (h : apply ⟨.strict, captures⟩ e = .error failure) :
    failure = ⟨missing.length, left.length, left.head?⟩ := by
  rw [apply_strict_of_walk hwalk] at h
  split at h
  · cases h
  · exact (Except.error.inj h).symm

theorem claimedOnce_of_walk (hwalk : walk true e ⟨captures, []⟩ = (some tree, ⟨missing, left⟩)) :
    ∃ claims, ClaimedOnce captures e tree missing left claims := by
  have hnode (cs : List Comparison) (own : List (Claim M)) (left : List Comparison) (h : Shares cs own left)
      (_ : False → left = []) : (own.map (·.comparison)).Sublist cs := h.taken
  obtain ⟨claims, left', hnodes, hrecords, horder, hprogress, hsplits⟩ :=
    walk_shares hnode remaining_nil.symm hwalk False.elim
  simp only [usedAfter, if_true, List.nil_append, MatchProgress.mk.injEq] at hprogress
  obtain ⟨hmissing, rfl⟩ := hprogress
  exact ⟨claims, hnodes, hrecords, horder.declared, horder.nodup.1, hmissing, hsplits⟩

theorem balance_of_walk (he : e.isNormalized = true)
    (hwalk : walk true e ⟨captures, []⟩ = (some tree, ⟨missing, left⟩)) :
    missing.length + e.total = captures.length + left.length := by
  obtain ⟨tree', hoffer⟩ := walk_of_isNormalized true he ⟨captures, []⟩
  have hbalance := offer_balance e.childrenFirst ⟨captures, []⟩
  rw [hwalk, Prod.mk.injEq] at hoffer
  rw [← hoffer.2, Expression.length_childrenFirst] at hbalance
  exact hbalance

/-- **Strict accounts balance** over the whole tree, whether the matcher accepts it or not. -/
theorem apply_strict_account (captures : List (Capture M)) {e : Expression} (he : e.isNormalized = true) :
    ∃ tree missing left, walk true e ⟨captures, []⟩ = (some tree, ⟨missing, left⟩) ∧
      (∃ claims, ClaimedOnce captures e tree missing left claims) ∧
      AnswersByBalance captures e tree missing left := by
  obtain ⟨tree, hwalk⟩ := walk_of_isNormalized true he ⟨captures, []⟩
  generalize offer true ⟨captures, []⟩ e.childrenFirst = progress at hwalk
  obtain ⟨missing, left⟩ := progress
  have hbalance := balance_of_walk he hwalk
  refine ⟨tree, missing, left, hwalk, claimedOnce_of_walk hwalk, hbalance, apply_strict_eq_ok hwalk, ?_, ?_⟩
  · intro found hfound
    obtain ⟨⟨hmissing, hleft⟩, -⟩ := (apply_strict_eq_ok hwalk found).mp hfound
    omega
  · intro failure hfailure
    rw [apply_strict_eq_error hwalk hfailure]
    refine ⟨rfl, rfl, rfl, hbalance, ?_⟩
    cases left <;> simp

/-- Two captures that overlap, and one of a name. -/
def agesAndName : List (Capture String) :=
  [⟨"age", "age", [.gte, .lt], .number⟩, ⟨"range", "*", [.gte, .lt], .number⟩, ⟨"name", "name", [.eq], .string⟩]

theorem apply_strict_account_ageBounds :
    (∃ claims, ClaimedOnce agesAndName ageBounds
        ⟨.or, [⟨"range", [⟨"age", none, [⟨.lt, .number (.int 65)⟩]⟩]⟩],
          [⟨.and, [⟨"age", [⟨"age", none, [⟨.gte, .number (.int 18)⟩]⟩]⟩], []⟩]⟩
        [⟨"name", "name", [.eq], .string⟩]
        [.single "size" .gte (.number (.int 3)), .single "age" .gte (.number (.int 70))] claims) ∧
      apply ⟨.strict, agesAndName⟩ ageBounds = .error ⟨1, 2, some (.single "size" .gte (.number (.int 3)))⟩ ∧
      1 + ageBounds.total = agesAndName.length + 2 := by
  obtain ⟨tree, missing, left, hwalk, hclaims, hanswers⟩ := apply_strict_account agesAndName (e := ageBounds) rfl
  cases hwalk
  have hfailure : apply ⟨.strict, agesAndName⟩ ageBounds =
      .error ⟨1, 2, some (.single "size" .gte (.number (.int 3)))⟩ := rfl
  exact ⟨hclaims, hfailure, hanswers.balance⟩

end Matcher

end DocumentFilter
