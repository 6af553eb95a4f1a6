/-
Dates from numbers.

The milliseconds of a date are an integer within the signed 64-bit range, and a
number is read as one only if it is that very integer. Values are compared in
whole numbers of units: an integer is the value of a binary64 number exactly if
it has as many units (`intCast_eq_value_iff`). An integer out of range is
tried as the nearest binary64 number, which is out of range as well, since
rounding does not go below `2^63` (`fitsInt64_of_ofInt?`).
-/
import DocumentFilter.Literal.ExtendedJson
import DocumentFilter.Proofs.Rounding
import Mathlib.Algebra.Order.Field.Basic
import Mathlib.Algebra.Order.Field.Rat

namespace DocumentFilter

namespace Binary64

/-! ## Values -/

/-- The number of units, with the sign. -/
def scaled (x : Binary64) : Int := if x.negative then -(x.units : Int) else x.units

/-- The rational number that it is. -/
def value (x : Binary64) : ℚ := x.scaled / unitsInOne

theorem unitsInOne_cast_pos : (0 : ℚ) < unitsInOne := Nat.cast_pos.mpr unitsInOne_pos

theorem natAbs_scaled (x : Binary64) : x.scaled.natAbs = x.units := by
  unfold scaled
  split <;> simp

theorem abs_value (x : Binary64) : |x.value| = x.units / unitsInOne := by
  rw [value, abs_div, abs_of_pos unitsInOne_cast_pos, ← natAbs_scaled, Nat.cast_natAbs, Int.cast_abs]

theorem intCast_eq_value_iff {x : Binary64} {i : Int} : (i : ℚ) = x.value ↔ i * unitsInOne = x.scaled := by
  rw [value, eq_div_iff unitsInOne_cast_pos.ne']
  exact_mod_cast Iff.rfl

theorem fitsInt64_iff (x : Binary64) : x.fitsInt64 = true ↔ |x.value| < twoPow 63 := by
  rw [abs_value, div_lt_iff₀ unitsInOne_cast_pos, fitsInt64, decide_eq_true_iff, wholePart,
    Nat.div_lt_iff_lt_mul unitsInOne_pos]
  exact_mod_cast Iff.rfl

theorem truncate_mul_unitsInOne {x : Binary64} (h : x.isIntegral = true) : x.truncate * unitsInOne = x.scaled := by
  have hwhole : x.wholePart * unitsInOne = x.units := Nat.div_mul_cancel (Nat.dvd_of_mod_eq_zero (eq_of_beq h))
  unfold truncate scaled
  split
  · rw [Int.neg_mul, ← hwhole, Int.natCast_mul]
  · rw [← hwhole, Int.natCast_mul]

/-- A number without a fractional part is its whole part, and no other is an integer. -/
theorem intCast_eq_value_iff_truncate {x : Binary64} {i : Int} :
    (i : ℚ) = x.value ↔ x.isIntegral = true ∧ x.truncate = i := by
  rw [intCast_eq_value_iff]
  constructor
  · intro h
    have hunits : x.units = i.natAbs * unitsInOne := by
      rw [← natAbs_scaled, ← h, Int.natAbs_mul, Int.natAbs_natCast]
    have hintegral : x.isIntegral = true := by
      rw [isIntegral, hunits, Nat.mul_mod_left]
      rfl
    have hone : (unitsInOne : Int) ≠ 0 := Int.natCast_ne_zero.mpr unitsInOne_pos.ne'
    exact ⟨hintegral, Int.eq_of_mul_eq_mul_right hone ((truncate_mul_unitsInOne hintegral).trans h.symm)⟩
  · rintro ⟨hintegral, rfl⟩
    exact truncate_mul_unitsInOne hintegral

end Binary64

namespace Number

/-- The rational number that it is. -/
def value : Number → ℚ
  | .int n => n
  | .float x => x.value

/-- The integer lies within the signed 64-bit range. -/
def IsInt64 (i : Int) : Prop := minInt64 ≤ i ∧ i ≤ maxInt64

theorem fitsInt64_of_ofInt? {n : Int} {x : Binary64} (h : Binary64.ofInt? n = some x) (hout : ¬ IsInt64 n) :
    x.fitsInt64 = false := by
  have hbig : twoPow 63 ≤ n.natAbs := by
    unfold IsInt64 minInt64 maxInt64 at hout
    omega
  have hrounded := Binary64.twoPow_le_rounded (by decide) hbig
  rw [Binary64.fitsInt64, Binary64.wholePart_of_ofInt? h]
  exact decide_eq_false (Nat.not_lt.mpr hrounded)

/-! ## Milliseconds -/

/-- An integer in range is taken as it is, one out of range not at all. -/
theorem exactInt64?_int {n i : Int} : (int n).exactInt64? = some i ↔ n = i ∧ IsInt64 i := by
  by_cases hin : IsInt64 n
  · have hself : (int n).toInt64? = some n := by simp [toInt64?, hin.1, hin.2]
    rw [exactInt64?, hself, Option.some.injEq]
    exact ⟨fun h => ⟨h, h ▸ hin⟩, And.left⟩
  · have hnone : (int n).toInt64? = none := by simpa [toInt64?, IsInt64] using hin
    have hrefused : (int n).exactInt64? = none := by
      rw [exactInt64?, hnone, toBinary64?]
      cases hx : Binary64.ofInt? n with
      | none => rfl
      | some x => simp [fitsInt64_of_ofInt? hx hin]
    rw [hrefused]
    constructor
    · intro h
      cases h
    · rintro ⟨rfl, h⟩
      exact absurd h hin

/-- A binary64 number below `2^63` in magnitude is taken as the integer that it is. -/
theorem exactInt64?_float {x : Binary64} {i : Int} :
    (float x).exactInt64? = some i ↔ (i : ℚ) = x.value ∧ |x.value| < twoPow 63 := by
  rw [Binary64.intCast_eq_value_iff_truncate, ← Binary64.fitsInt64_iff]
  simp only [exactInt64?, toInt64?, toBinary64?]
  cases x.isIntegral <;> cases x.fitsInt64 <;> simp

theorem isInt64_of_abs_lt {i : Int} (h : |(i : ℚ)| < twoPow 63) : IsInt64 i := by
  have hlt : |i| < twoPow 63 := by exact_mod_cast h
  rw [abs_lt] at hlt
  unfold IsInt64 minInt64 maxInt64
  omega

/-- What is taken is the number itself, and in range. -/
theorem of_exactInt64? {n : Number} {i : Int} (h : n.exactInt64? = some i) : (i : ℚ) = n.value ∧ IsInt64 i := by
  cases n with
  | int n =>
    obtain ⟨rfl, hin⟩ := exactInt64?_int.mp h
    exact ⟨rfl, hin⟩
  | float x =>
    obtain ⟨heq, hlt⟩ := exactInt64?_float.mp h
    exact ⟨heq, isInt64_of_abs_lt (heq ▸ hlt)⟩

end Number

namespace ExtendedValue

open Number

theorem decode_date_eq_ok {n : Number} {v : ExtendedValue} :
    decode .date (.number n) = .ok v ↔ ∃ i, n.exactInt64? = some i ∧ v = .date ⟨i⟩ := by
  rw [decode, date?]
  cases n.exactInt64? <;> simp [eq_comm]

/-- The number is refused as the milliseconds of a date. -/
def RefusedAsDate (n : Number) : Prop :=
  decode .date (.number n) = .error (.invalidExtendedJson (.notMillis (.number n)))

theorem refusedAsDate_of {n : Number} (h : ∀ i, n.exactInt64? ≠ some i) : RefusedAsDate n := by
  have hnone : n.exactInt64? = none := Option.eq_none_iff_forall_ne_some.mpr h
  rw [RefusedAsDate, decode, date?, hnone]
  rfl

/-- **A date is exactly the number that is written**: what is accepted is that many milliseconds, and what is no integer
in the signed 64-bit range is refused, be it an unsigned integer beyond or a binary64 number from `2^63` on. All
integers in range are accepted, and so are the binary64 numbers below `2^63` that are integers. -/
theorem decode_date_exact :
    (∀ n v, decode .date (.number n) = .ok v → ∃ t : Instant, v = .date t ∧ (t.millis : ℚ) = n.value) ∧
      (∀ n : Number, (¬ ∃ i, IsInt64 i ∧ (i : ℚ) = n.value) → RefusedAsDate n) ∧
      (∀ i, maxInt64 < i → RefusedAsDate (.int i)) ∧
      (∀ x : Binary64, twoPow 63 ≤ |x.value| → RefusedAsDate (.float x)) ∧
      (∀ i, IsInt64 i → decode .date (.number (.int i)) = .ok (.date ⟨i⟩)) ∧
      ∀ (x : Binary64) (i : Int), (i : ℚ) = x.value → |x.value| < twoPow 63 →
        decode .date (.number (.float x)) = .ok (.date ⟨i⟩) := by
  refine ⟨fun n v h => ?_, fun n h => ?_, fun i h => ?_, fun x h => ?_, fun i h => ?_, fun x i heq hlt => ?_⟩
  · obtain ⟨i, hi, rfl⟩ := decode_date_eq_ok.mp h
    exact ⟨⟨i⟩, rfl, (of_exactInt64? hi).1⟩
  · refine refusedAsDate_of fun i hi => h ⟨i, ?_⟩
    exact (of_exactInt64? hi).symm
  · refine refusedAsDate_of fun j hj => ?_
    obtain ⟨rfl, hin⟩ := exactInt64?_int.mp hj
    exact absurd hin.2 (Int.not_le.mpr h)
  · refine refusedAsDate_of fun j hj => ?_
    exact absurd (exactInt64?_float.mp hj).2 (not_lt.mpr h)
  · exact decode_date_eq_ok.mpr ⟨i, exactInt64?_int.mpr ⟨rfl, h⟩, rfl⟩
  · exact decode_date_eq_ok.mpr ⟨i, exactInt64?_float.mpr ⟨heq, hlt⟩, rfl⟩

/-- The number 1.5. -/
def oneAndAHalf : Binary64 := ⟨false, 3 * twoPow 51, 1022, by decide, by decide, .inl (by decide)⟩

/-- The number 3. -/
def three : Binary64 := { oneAndAHalf with scale := 1023, scale_le := by decide, canonical := .inl (by decide) }

/-- The number `2^63`, the first that is out of range. -/
def twoPow63 : Binary64 := ⟨false, twoPow 52, 1085, by decide, by decide, .inl (by decide)⟩

theorem decode_date_exact_limits :
    decode .date (.number (.int maxInt64)) = .ok (.date ⟨maxInt64⟩) ∧
      RefusedAsDate (.int (maxInt64 + 1)) ∧
      RefusedAsDate (.float oneAndAHalf) ∧
      RefusedAsDate (.float twoPow63) ∧
      decode .date (.number (.float three)) = .ok (.date ⟨3⟩) ∧
      ∃ t : Instant, ExtendedValue.date ⟨3⟩ = .date t ∧ (t.millis : ℚ) = three.value := by
  obtain ⟨exact, refused, beyond, far, integer, float⟩ := decode_date_exact
  have hvalue : ((3 : Int) : ℚ) = three.value :=
    Binary64.intCast_eq_value_iff_truncate.mpr ⟨by decide +kernel, by decide +kernel⟩
  have hthree : decode .date (.number (.float three)) = .ok (.date ⟨3⟩) :=
    float three 3 hvalue (three.fitsInt64_iff.mp (by decide +kernel))
  have hhalf : ¬ ∃ i, IsInt64 i ∧ (i : ℚ) = (Number.float oneAndAHalf).value := by
    rintro ⟨i, -, heq⟩
    have hintegral := (Binary64.intCast_eq_value_iff_truncate.mp heq).1
    exact absurd hintegral (by decide +kernel)
  have hfar : twoPow 63 ≤ |twoPow63.value| := not_lt.mp (mt twoPow63.fitsInt64_iff.mpr (by decide +kernel))
  have hmax : IsInt64 maxInt64 := ⟨by decide, Int.le_refl _⟩
  exact ⟨integer _ hmax, beyond _ (Int.lt_succ _), refused _ hhalf, far _ hfar, hthree, exact _ _ hthree⟩

end ExtendedValue

end DocumentFilter
