/-
The counts of `$size`, which carry the sign of negation. Changing the sign of
a number changes the sign of its binary64 value and nothing else, zero
included, so a count that was valid keeps its magnitude when it is negated.
-/
import DocumentFilter.Number.Basic

namespace DocumentFilter

namespace Binary64

theorem ofFields?_not (negative : Bool) (significand scale : Nat) :
    ofFields? (!negative) significand scale = (ofFields? negative significand scale).map neg := by
  unfold ofFields?
  split <;> rfl

theorem nearest?_not (negative : Bool) (num den : Nat) :
    nearest? (!negative) num den = (nearest? negative num den).map neg := by
  simp only [nearest?, ofFields?_not]
  split <;> rfl

theorem ofInt?_neg {n : Int} (h : n ≠ 0) : ofInt? (-n) = (ofInt? n).map neg := by
  have hsign : decide (-n < 0) = !decide (n < 0) := by
    rw [Bool.eq_iff_iff, decide_eq_true_iff, Bool.not_eq_true', decide_eq_false_iff_not]
    omega
  rw [ofInt?, ofInt?, hsign, Int.natAbs_neg, nearest?_not]

end Binary64

/-- The negative of a number has the binary64 value with the other sign. -/
theorem Number.toBinary64?_negated {n : Number} {x : Binary64} (h : n.toBinary64? = some x) :
    n.negated.toBinary64? = some x.neg := by
  have hfloat : ((n.toBinary64?.map fun x => Number.float x.neg).getD n).toBinary64? = some x.neg := by
    rw [h]
    rfl
  unfold Number.negated
  split
  · rename_i i hi
    split
    · rename_i hne
      have hn : n = .int i := by
        unfold toInt64? at hi
        split at hi
        · split at hi <;> cases hi
          rfl
        · cases hi
      rw [hn] at h
      simp only [Bool.and_eq_true, decide_eq_true_eq] at hne
      exact (Binary64.ofInt?_neg hne.1).trans (congrArg (Option.map Binary64.neg) h)
    · exact hfloat
  · exact hfloat

end DocumentFilter
