/-
The operand rules, said of the JSON that writes the operand.

Operands are checked after they have been decoded. Decoding keeps what the
rules look at: a number, a boolean and the length of an array (`Writes`). So an
operator takes an operand by its JSON alone (`check_iff_takes`).
-/
import DocumentFilter.Clause.Condition
import DocumentFilter.Clause.Operand
import DocumentFilter.Proofs.Outcome
import DocumentFilter.Proofs.Rounding

namespace DocumentFilter

namespace Binary64

/-- The number is a natural number; zero may have either sign. -/
def IsNat (x : Binary64) (k : Nat) : Prop := x.units = k * unitsInOne ∧ (x.negative = true → k = 0)

/-- The tests of a size come to being a natural number below the bound. -/
theorem exists_isNat_iff {x : Binary64} :
    (∃ k < twoPow 63, x.IsNat k) ↔ x.isBelowZero = false ∧ x.fitsInt64 = true ∧ x.isIntegral = true := by
  have hpos := unitsInOne_pos
  unfold IsNat isBelowZero fitsInt64 wholePart isIntegral
  generalize x.units = units
  generalize unitsInOne = one at hpos
  rw [decide_eq_true_iff, beq_iff_eq]
  constructor
  · rintro ⟨k, hk, rfl, hnegative⟩
    refine ⟨?_, by rwa [Nat.mul_div_cancel k hpos], Nat.mul_mod_left k one⟩
    cases hsign : x.negative with
    | false => rfl
    | true => simp [hnegative hsign]
  · rintro ⟨hzero, hfits, hintegral⟩
    refine ⟨units / one, hfits, (Nat.div_mul_cancel (Nat.dvd_of_mod_eq_zero hintegral)).symm, fun hsign => ?_⟩
    have hunits : units = 0 := by simpa [hsign] using hzero
    rw [hunits, Nat.zero_div]

end Binary64

namespace Operation

variable {limits : Limits} {op : Operation}

theorem checkMembership_eq_ok : op.checkMembership limits = .ok () ↔
    ∃ values, op.operand = .array values ∧ values.length ≤ limits.maxInValues := by
  unfold checkMembership
  split
  · rename_i values hvalues
    rw [hvalues]
    split
    · rename_i hlength
      simpa using hlength
    · rename_i hlength
      simpa using hlength
  · rename_i hother
    simpa using fun values hvalues => absurd hvalues (hother values)

theorem checkPresence_eq_ok : op.checkPresence = .ok () ↔ ∃ b, op.operand = .boolean b := by
  unfold checkPresence
  split
  · rename_i b hb
    simp [hb]
  · rename_i hother
    simpa using hother

theorem checkElements_eq_ok : op.checkElements = .ok () ↔ ∃ values, op.operand = .array values ∧ values ≠ [] := by
  unfold checkElements
  split
  · rename_i value values hvalues
    simp [hvalues]
  · rename_i hother
    simp only [reduceCtorEq, false_iff]
    rintro ⟨values, hvalues, hne⟩
    obtain ⟨value, others, rfl⟩ := List.exists_cons_of_ne_nil hne
    exact hother value others hvalues

theorem checkSize_eq_ok : op.checkSize = .ok () ↔ ∃ n x, op.operand = .number n ∧ n.toBinary64? = some x ∧
    x.isBelowZero = false ∧ x.fitsInt64 = true ∧ x.isIntegral = true := by
  obtain ⟨operator, operand⟩ := op
  cases operand with
  | number n =>
    simp only [checkSize, Literal.number.injEq]
    split
    · rename_i x hx
      cases hzero : x.isBelowZero <;> cases hfits : x.fitsInt64 <;> cases hintegral : x.isIntegral <;>
        simp [hx, hzero, hfits, hintegral]
    · rename_i hnone
      simp [hnone]
  | _ => simp [checkSize]

end Operation

/-! ## Operands as they are written -/

/-- The value decodes as a literal. -/
def Json.IsLiteral (value : Json) : Prop := ∃ literal, Literal.ofJson value = .ok literal

/-- The operator's rule for the JSON of its operand. -/
def Operator.Takes (limits : Limits) : Operator → Json → Prop
  | .isIn, value | .notIn, value => ∃ items, value = .array items ∧ items.length ≤ limits.maxInValues
  | .present, value => ∃ b, value = .bool b
  | .all, value | .notAny, value => ∃ items, value = .array items ∧ items ≠ []
  | .size, value => ∃ n x, value = .number n ∧ n.toBinary64? = some x ∧ ∃ k < twoPow 63, x.IsNat k
  | .eq, _ | .ne, _ | .gt, _ | .gte, _ | .lt, _ | .lte, _ => True

/-- The literal has the form of the JSON, as far as operand rules look at it. -/
inductive Writes : Json → Literal → Prop
  | null : Writes .null .null
  | bool {b} : Writes (.bool b) (.boolean b)
  | number {n} : Writes (.number n) (.number n)
  | string {s} : Writes (.string s) (.string s)
  | array {items values} : values.length = items.length → Writes (.array items) (.array values)
  | date {entries t} : Writes (.object entries) (.date t)
  | text {entries s} : Writes (.object entries) (.string s)
  | subDocument {entries} : Writes (.object entries) (.subDocument entries)

theorem Literal.length_of_ofJsons : ∀ {items : List Json} {values : List Literal},
    ofJsons items = .ok values → values.length = items.length
  | [], values, h => by
    cases h
    rfl
  | item :: items, values, h => by
    simp only [ofJsons, bind_eq_ok, pure_eq_ok] at h
    obtain ⟨first, -, others, hothers, rfl⟩ := h
    rw [List.length_cons, List.length_cons, length_of_ofJsons hothers]

theorem writes_of_ofJson {value : Json} {literal : Literal} (h : Literal.ofJson value = .ok literal) :
    Writes value literal := by
  cases value with
  | null => cases h; exact .null
  | bool b => cases h; exact .bool
  | number n => cases h; exact .number
  | string s => cases h; exact .string
  | array items =>
    obtain ⟨values, hvalues, rfl⟩ := map_eq_ok.mp h
    exact .array (Literal.length_of_ofJsons hvalues)
  | object entries =>
    unfold Literal.ofJson at h
    split at h
    · obtain ⟨extended, -, rfl⟩ := map_eq_ok.mp h
      cases extended with
      | date t => exact .date
      | uuid id => exact .text
      | objectId id => exact .text
    · cases h
      exact .subDocument

namespace Condition

variable {schema : Schema} {path : String} {op : Operator} {value : Json} {literal : Literal}

/-- Lists of ids have the form of what writes them, too; only equality reads an id where there may be another form. -/
theorem writes_of_operand (hop : op ≠ .eq ∧ op ≠ .ne) (h : operand schema path op value = .ok literal) :
    Writes value literal := by
  have members {items : List Json} (h : (items.mapM idOperand).map Literal.array = .ok literal) :
      Writes (.array items) literal := by
    obtain ⟨ids, hids, rfl⟩ := map_eq_ok.mp h
    exact .array (mapM_eq_ok.mp hids).length_eq.symm
  unfold operand at h
  split at h
  · split at h
    · exact absurd rfl hop.1
    · exact absurd rfl hop.2
    · exact members h
    · exact members h
    · exact writes_of_ofJson h
  · exact writes_of_ofJson h

/-- **An operator takes an operand by its JSON alone.** -/
theorem check_iff_takes {limits : Limits} (h : operand schema path op value = .ok literal) :
    Operation.check limits ⟨op, literal⟩ = .ok () ↔ op.Takes limits value := by
  cases op with
  | eq | ne | gt | gte | lt | lte => exact iff_of_true rfl trivial
  | isIn | notIn =>
    refine Operation.checkMembership_eq_ok.trans ?_
    cases writes_of_operand (by simp) h with
    | array hlength => simp [Operator.Takes, hlength]
    | _ => simp [Operator.Takes]
  | present =>
    refine Operation.checkPresence_eq_ok.trans ?_
    cases writes_of_operand (by simp) h with
    | _ => simp [Operator.Takes]
  | all | notAny =>
    refine Operation.checkElements_eq_ok.trans ?_
    cases writes_of_operand (by simp) h with
    | array hlength => simp [Operator.Takes, ← List.length_eq_zero_iff, hlength]
    | _ => simp [Operator.Takes]
  | size =>
    refine Operation.checkSize_eq_ok.trans ?_
    simp only [← Binary64.exists_isNat_iff]
    cases writes_of_operand (by simp) h with
    | _ => simp [Operator.Takes]

end Condition

end DocumentFilter
