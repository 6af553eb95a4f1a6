/-
Integers as binary64 numbers.

A natural number becomes a multiple of `spacing n`, which is one up to `2^53` and
doubles with every further binary digit: the nearest one, a tie to the even
significand. So it is kept exactly if its spacing divides it, and is off by at
most half of it otherwise (`RoundsTo`). Of the numbers that are not below zero
only `-0.0` has a sign.
-/
import DocumentFilter.Number.Basic
import Mathlib.Algebra.Order.Group.Nat

namespace DocumentFilter

theorem twoPow_add (m n : Nat) : twoPow (m + n) = twoPow m * twoPow n := Nat.pow_add 2 m n

theorem twoPow_le {m n : Nat} (h : m ≤ n) : twoPow m ≤ twoPow n := Nat.pow_le_pow_right (by decide) h

theorem twoPow_dvd {m n : Nat} (h : m ≤ n) : twoPow m ∣ twoPow n := Nat.pow_dvd_pow 2 h

theorem log2_mul_twoPow {n : Nat} (hn : n ≠ 0) (m : Nat) : (n * twoPow m).log2 = n.log2 + m := by
  have hne : n * twoPow m ≠ 0 := Nat.mul_ne_zero hn (twoPow_pos m).ne'
  obtain ⟨hle, hlt⟩ := (Nat.log2_eq_iff hn).mp rfl
  rw [Nat.log2_eq_iff hne]
  constructor
  · rw [Nat.pow_add]
    exact Nat.mul_le_mul_right _ hle
  · rw [Nat.add_right_comm, Nat.pow_add]
    exact Nat.mul_lt_mul_of_pos_right hlt (twoPow_pos m)

namespace Binary64

theorem unitsInOne_pos : 0 < unitsInOne := twoPow_pos 1074

/-! ## Nearest multiples -/

theorem roundHalfEven_cases (num den : Nat) :
    (roundHalfEven num den = num / den ∧ 2 * (num % den) ≤ den) ∨
      (roundHalfEven num den = num / den + 1 ∧ den ≤ 2 * (num % den)) := by
  unfold roundHalfEven
  dsimp only
  split
  · rename_i h
    simp only [Bool.or_eq_true, decide_eq_true_eq, Bool.and_eq_true, beq_iff_eq] at h
    exact .inl ⟨rfl, by omega⟩
  · rename_i h
    simp only [Bool.or_eq_true, decide_eq_true_eq, not_or] at h
    exact .inr ⟨rfl, by omega⟩

/-- The multiple is at most half a step away, on either side. -/
theorem roundHalfEven_near (num : Nat) {den : Nat} (hden : 0 < den) :
    2 * num ≤ 2 * (roundHalfEven num den * den) + den ∧ 2 * (roundHalfEven num den * den) ≤ 2 * num + den := by
  have hdivision := Nat.div_add_mod' num den
  have hlt := Nat.mod_lt num hden
  rcases roundHalfEven_cases num den with ⟨hround, hrest⟩ | ⟨hround, hrest⟩ <;> rw [hround]
  · omega
  · rw [Nat.add_mul, Nat.one_mul]
    omega

theorem roundHalfEven_of_dvd {num den : Nat} (hden : 0 < den) (h : den ∣ num) : roundHalfEven num den * den = num := by
  have hrest : num % den = 0 := Nat.mod_eq_zero_of_dvd h
  rcases roundHalfEven_cases num den with ⟨hround, -⟩ | ⟨-, hhalf⟩
  · rw [hround, Nat.div_mul_cancel h]
  · omega

theorem roundHalfEven_mul_right (num den : Nat) {c : Nat} (hc : 0 < c) :
    roundHalfEven (num * c) (den * c) = roundHalfEven num den := by
  have htwice : 2 * (num % den * c) = 2 * (num % den) * c := (Nat.mul_assoc ..).symm
  have hlt : 2 * (num % den) * c < den * c ↔ 2 * (num % den) < den := Nat.mul_lt_mul_right hc
  have heq : 2 * (num % den) * c = den * c ↔ 2 * (num % den) = den := Nat.mul_left_inj hc.ne'
  simp only [roundHalfEven, Nat.mul_div_mul_right _ _ hc, Nat.mul_mod_mul_right, htwice, hlt, beq_eq_decide, heq]

theorem of_ofFields?_eq_some {negative : Bool} {significand scale : Nat} {x : Binary64}
    (h : ofFields? negative significand scale = some x) :
    x.negative = negative ∧ x.units = significand * twoPow scale := by
  unfold ofFields? at h
  split at h <;> cases h
  exact ⟨rfl, rfl⟩

/-- A number is a multiple of its scale. -/
theorem of_nearest?_eq_some {negative : Bool} {num den : Nat} {x : Binary64} (h : nearest? negative num den = some x) :
    x.negative = negative ∧ x.units = roundHalfEven num (den * twoPow ((num / den).log2 - 52)) *
      twoPow ((num / den).log2 - 52) := by
  unfold nearest? at h
  dsimp only at h
  generalize (num / den).log2 - 52 = scale at h ⊢
  split at h
  · rename_i hcarry
    obtain ⟨hnegative, hunits⟩ := of_ofFields?_eq_some h
    have htwice : twoPow 53 = twoPow 52 * 2 := rfl
    refine ⟨hnegative, hunits.trans ?_⟩
    rw [hcarry, htwice, twoPow_succ scale, Nat.mul_assoc, Nat.mul_comm 2]
  · exact of_ofFields?_eq_some h

/-! ## Integers -/

/-- The distance of the binary64 numbers from `n` on to the next power of two. -/
def spacing (n : Nat) : Nat := twoPow (n.log2 - 52)

theorem spacing_pos (n : Nat) : 0 < spacing n := twoPow_pos _

/-- The nearest multiple of the spacing. -/
def rounded (n : Nat) : Nat := roundHalfEven n (spacing n) * spacing n

theorem spacing_le {n : Nat} (hn : n ≠ 0) : spacing n ≤ n :=
  (twoPow_le (Nat.sub_le _ _)).trans ((Nat.log2_eq_iff hn).mp rfl).1

theorem rounded_ne_zero {n : Nat} (hn : n ≠ 0) : rounded n ≠ 0 := by
  have hquotient : 0 < n / spacing n := Nat.div_pos (spacing_le hn) (spacing_pos n)
  refine Nat.mul_ne_zero ?_ (spacing_pos n).ne'
  rcases roundHalfEven_cases n (spacing n) with ⟨hround, -⟩ | ⟨hround, -⟩ <;> omega

/-- Rounding does not go below a power of two that the number reaches. -/
theorem twoPow_le_rounded {k n : Nat} (hk : 52 ≤ k) (h : twoPow k ≤ n) : twoPow k ≤ rounded n := by
  have hn : n ≠ 0 := ((twoPow_pos k).trans_le h).ne'
  have hlog : k ≤ n.log2 := (Nat.le_log2 hn).mpr h
  have htop : twoPow n.log2 = twoPow 52 * spacing n := by
    rw [spacing, ← twoPow_add, Nat.add_sub_cancel' (hk.trans hlog)]
  have hquotient : twoPow 52 ≤ n / spacing n := by
    rw [Nat.le_div_iff_mul_le (spacing_pos n), ← htop]
    exact ((Nat.log2_eq_iff hn).mp rfl).1
  have hround : n / spacing n ≤ roundHalfEven n (spacing n) := by
    rcases roundHalfEven_cases n (spacing n) with ⟨hround, -⟩ | ⟨hround, -⟩ <;> omega
  calc twoPow k
    _ ≤ twoPow n.log2 := twoPow_le hlog
    _ = twoPow 52 * spacing n := htop
    _ ≤ rounded n := Nat.mul_le_mul_right _ (hquotient.trans hround)

theorem spacing_dvd_of_le {n : Nat} (h : n ≤ twoPow 53) : spacing n ∣ n := by
  rcases Nat.lt_or_eq_of_le h with hlt | rfl
  · have hlog : n.log2 ≤ 52 := by
      by_cases hn : n = 0
      · rw [hn]
        decide
      · exact Nat.le_of_lt_succ ((Nat.log2_lt hn).mpr hlt)
    rw [spacing, Nat.sub_eq_zero_of_le hlog]
    exact Nat.one_dvd n
  · decide

/-- An integer becomes the nearest multiple of its spacing. -/
theorem of_ofInt?_eq_some {i : Int} {x : Binary64} (h : ofInt? i = some x) :
    x.negative = decide (i < 0) ∧ x.units = rounded i.natAbs * unitsInOne := by
  obtain ⟨hnegative, hunits⟩ := of_nearest?_eq_some h
  refine ⟨hnegative, hunits.trans ?_⟩
  generalize i.natAbs = n
  have hone : unitsInOne = twoPow 1074 := rfl
  rw [Nat.div_one, Nat.one_mul, rounded, spacing, hone]
  by_cases hlog : n ≠ 0 ∧ 52 ≤ n.log2
  · have hscale : n.log2 + 1074 - 52 = n.log2 - 52 + 1074 := by omega
    rw [log2_mul_twoPow hlog.1, hscale, twoPow_add, roundHalfEven_mul_right _ _ (twoPow_pos 1074), ← Nat.mul_assoc]
  · -- Below `2^52` there is nothing to round, neither in ones nor in units.
    have hones : n.log2 - 52 = 0 := by
      by_cases hn : n = 0
      · rw [hn]
        decide
      · omega
    have hunit : (n * twoPow 1074).log2 - 52 ≤ 1074 ∨ n = 0 := by
      by_cases hn : n = 0
      · exact .inr hn
      · rw [log2_mul_twoPow hn]
        omega
    have hdvd : twoPow ((n * twoPow 1074).log2 - 52) ∣ n * twoPow 1074 := by
      rcases hunit with hle | rfl
      · exact Nat.dvd_mul_left_of_dvd (twoPow_dvd hle) n
      · rw [Nat.zero_mul]
        exact Nat.dvd_zero _
    rw [hones, twoPow_zero, roundHalfEven_of_dvd (twoPow_pos _) hdvd,
      roundHalfEven_of_dvd Nat.one_pos (Nat.one_dvd n)]

theorem wholePart_of_ofInt? {i : Int} {x : Binary64} (h : ofInt? i = some x) : x.wholePart = rounded i.natAbs := by
  rw [wholePart, (of_ofInt?_eq_some h).2, Nat.mul_div_cancel _ unitsInOne_pos]

/-- What is kept of a natural number: the nearest multiple of its spacing. All numbers up to `2^53` are kept exactly,
above it those that their spacing divides. -/
structure RoundsTo (n kept : Nat) : Prop where
  eq : kept = rounded n
  small : n ≤ twoPow 53 → kept = n
  exact_iff : kept = n ↔ spacing n ∣ n
  near : 2 * n ≤ 2 * kept + spacing n ∧ 2 * kept ≤ 2 * n + spacing n

theorem roundsTo_rounded (n : Nat) : RoundsTo n (rounded n) := by
  have hdvd (h : spacing n ∣ n) : rounded n = n := roundHalfEven_of_dvd (spacing_pos n) h
  refine ⟨rfl, fun hsmall => hdvd (spacing_dvd_of_le hsmall), ⟨fun heq => ?_, hdvd⟩,
    roundHalfEven_near n (spacing_pos n)⟩
  have hmultiple : spacing n ∣ rounded n := Nat.dvd_mul_left _ _
  rwa [heq] at hmultiple

/-- An integer that is not below zero is natural, and its whole part is what is kept of it. -/
theorem roundsTo_of_ofInt? {i : Int} {x : Binary64} (h : ofInt? i = some x) (hzero : x.isBelowZero = false) :
    ∃ n : Nat, i = n ∧ RoundsTo n x.wholePart := by
  obtain ⟨hnegative, hunits⟩ := of_ofInt?_eq_some h
  have hnonneg : 0 ≤ i := by
    by_contra hneg
    have hne : x.units ≠ 0 := hunits ▸ Nat.mul_ne_zero (rounded_ne_zero (by omega)) unitsInOne_pos.ne'
    have hsign : x.negative = true := hnegative.trans (decide_eq_true (by omega))
    simp [isBelowZero, hsign, hne] at hzero
  obtain ⟨n, rfl⟩ := Int.eq_ofNat_of_zero_le hnonneg
  refine ⟨n, rfl, ?_⟩
  rw [wholePart_of_ofInt? h, Int.natAbs_natCast]
  exact roundsTo_rounded n

/-! ## Signs -/

/-- Of the numbers that are not below zero only `-0.0` has a sign. -/
theorem eq_zero_of_negative {x : Binary64} (hzero : x.isBelowZero = false) (hsign : x.negative = true) :
    x = zero true := by
  have hunits : x.significand * twoPow x.scale = 0 := by simpa [isBelowZero, hsign, units] using hzero
  obtain ⟨negative, significand, scale, _, _, hcanonical⟩ := x
  obtain rfl : significand = 0 := (Nat.mul_eq_zero.mp hunits).resolve_right (twoPow_pos scale).ne'
  obtain rfl : scale = 0 := hcanonical.resolve_left (Nat.not_le.mpr (twoPow_pos 52))
  obtain rfl : negative = true := hsign
  rfl

end Binary64

/-- The number is the float `-0.0`. -/
def Number.isNegativeZero (n : Number) : Bool := n = .float (Binary64.zero true)

/-- A number that is not below zero has a sign if it is `-0.0`. -/
theorem Number.negative_of_toBinary64? {n : Number} {x : Binary64} (h : n.toBinary64? = some x)
    (hzero : x.isBelowZero = false) : x.negative = n.isNegativeZero := by
  rw [Bool.eq_iff_iff, isNegativeZero, decide_eq_true_iff]
  cases n with
  | float y =>
    cases h
    exact ⟨fun hsign => congrArg _ (Binary64.eq_zero_of_negative hzero hsign), fun heq => by cases heq; rfl⟩
  | int i =>
    obtain ⟨n, rfl, -⟩ := Binary64.roundsTo_of_ofInt? h hzero
    simp [(Binary64.of_ofInt?_eq_some h).1]

end DocumentFilter
