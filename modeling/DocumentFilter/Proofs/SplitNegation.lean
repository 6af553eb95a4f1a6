/-
Removing NOT from trees that a caller builds, where a comparison may have
several operations.

Such a comparison is negated into several, which are to be joined by OR but are
joined by the connective of their node. Below an AND that is the OR they need.
A negated OR becomes an AND, so there the negations of one comparison all have
to hold: `normalized` takes the comparison for a choice among its operations
(`split`). What it selects is then too little, never too much, and it is right
wherever no comparison with several operations stands in an OR below an odd
number of NOTs.
-/
import DocumentFilter.Proofs.Meaning

namespace DocumentFilter

/-- One comparison for each operation. -/
def Comparison.parts (c : Comparison) : List Comparison := c.operations.map fun op => { c with operations := [op] }

namespace Expression

/-- Every NOT stands before exactly one child, no other node is empty, and no comparison is without operation. -/
inductive WellBuilt : Expression → Prop
  | junction {operator children comparisons} : operator ≠ .not → (children ≠ [] ∨ comparisons ≠ []) →
      (∀ e ∈ children, WellBuilt e) → (∀ c ∈ comparisons, c.operations ≠ []) →
      WellBuilt ⟨operator, children, comparisons⟩
  | negation {inner} : WellBuilt inner → WellBuilt ⟨.not, [inner], []⟩

/-! ## What negation takes a tree for -/

mutual
/-- The tree with the comparisons of each OR below an odd number of NOTs taken apart into their operations, or of each
OR below an even number if `negative` is set. -/
def split (negative : Bool) : Expression → Expression
  | ⟨.and, children, comparisons⟩ => ⟨.and, splitAll negative children, comparisons⟩
  | ⟨.or, children, comparisons⟩ =>
    ⟨.or, splitAll negative children, if negative then comparisons.flatMap Comparison.parts else comparisons⟩
  | ⟨.not, children, comparisons⟩ => ⟨.not, splitAll (!negative) children, comparisons⟩

/-- `split` of lists of trees. -/
def splitAll (negative : Bool) : List Expression → List Expression
  | [] => []
  | e :: es => e.split negative :: splitAll negative es
end

theorem splitAll_eq_map (negative : Bool) (es : List Expression) : splitAll negative es = es.map (split negative) := by
  induction es with
  | nil => rfl
  | cons e es ih => rw [splitAll, ih, List.map_cons]

theorem flatMap_negated_parts (cs : List Comparison) :
    (cs.flatMap Comparison.parts).flatMap Comparison.negated = cs.flatMap Comparison.negated := by
  rw [List.flatMap_assoc]
  refine congrArg (cs.flatMap ·) (funext fun c => ?_)
  rw [Comparison.parts, List.flatMap_map]
  exact List.flatMap_pure_eq_map (fun op : Operation => { c with operations := [op.negated] }) c.operations

/-- The split tree is negated into the very same tree. -/
theorem normalized_negated_split (e : Expression) :
    (e.split false).normalized = e.normalized ∧ (e.split true).negated = e.negated := by
  induction e with | node operator children comparisons ih
  have hpos : (children.map (split false)).map normalized = children.map normalized := by
    rw [List.map_map]
    exact List.map_congr_left fun e he => (ih e he).1
  have hneg : (children.map (split true)).map negated = children.map negated := by
    rw [List.map_map]
    exact List.map_congr_left fun e he => (ih e he).2
  cases operator with
  | and | or =>
    simp only [split, normalized, negated, normalizedAll_eq_map, negatedAll_eq_map, splitAll_eq_map, hpos, hneg,
      if_true, Bool.false_eq_true, if_false, flatMap_negated_parts, and_self]
  | not =>
    cases children with
    | nil => exact ⟨rfl, rfl⟩
    | cons inner _ => exact ⟨(ih inner List.mem_cons_self).2, (ih inner List.mem_cons_self).1⟩

/-! ## The split tree -/

theorem complements_node {v : Assignment} {operator children comparisons} :
    Complements v ⟨operator, children, comparisons⟩ ↔ (∀ e ∈ children, Complements v e) ∧
      ∀ c ∈ comparisons, ∀ a ∈ c.atoms, v a.negated = !v a := by
  refine ⟨fun h => ⟨h.child, h.comparison⟩, fun ⟨hchildren, hcomparisons⟩ c hc => ?_⟩
  rcases mem_childrenFirst.mp hc with ⟨e, he, hc⟩ | hc
  · exact hchildren e he c hc
  · exact hcomparisons c hc

/-- Taken apart, the comparisons ask nothing else. -/
theorem Complements.split {v : Assignment} {e : Expression} (h : e.Complements v) :
    ∀ negative, (e.split negative).Complements v := by
  induction e with | node operator children comparisons ih
  intro negative
  have hchildren (negative : Bool) : ∀ e ∈ children.map (Expression.split negative), e.Complements v :=
    List.forall_mem_map.mpr fun e he => ih e he (h.child e he) negative
  have hparts : ∀ c ∈ comparisons.flatMap Comparison.parts, ∀ a ∈ c.atoms, v a.negated = !v a := by
    intro c hc a ha
    obtain ⟨d, hd, hc⟩ := List.mem_flatMap.mp hc
    obtain ⟨op, hop, rfl⟩ := List.mem_map.mp hc
    rw [List.mem_singleton.mp ha]
    exact h.comparison d hd _ (Comparison.mem_atoms.mpr ⟨rfl, rfl, hop⟩)
  cases operator with
  | and | not =>
    rw [Expression.split, splitAll_eq_map]
    exact complements_node.mpr ⟨hchildren _, h.comparison⟩
  | or =>
    rw [Expression.split, splitAll_eq_map]
    refine complements_node.mpr ⟨hchildren _, ?_⟩
    split
    · exact hparts
    · exact h.comparison

/-- Removing NOT from the split tree keeps its meaning. -/
theorem WellBuilt.pushable_split {e : Expression} (h : e.WellBuilt) :
    ∀ negative, (e.split negative).Pushable negative := by
  induction h with
  | @junction operator children comparisons hoperator hne _ hops ih =>
    intro negative
    have hchildren : AllPushable negative (children.map (Expression.split negative)) :=
      allPushable_iff.mpr (List.forall_mem_map.mpr fun e he => ih e he negative)
    cases operator with
    | and =>
      rw [split, splitAll_eq_map]
      exact ⟨hchildren, fun _ => ⟨hne.imp_left (by simp), hops⟩⟩
    | or =>
      rw [split, splitAll_eq_map]
      refine ⟨hchildren, fun hnegative c hc => ?_⟩
      rw [if_pos hnegative] at hc
      obtain ⟨d, -, hc⟩ := List.mem_flatMap.mp hc
      obtain ⟨op, -, rfl⟩ := List.mem_map.mp hc
      exact ⟨op, rfl⟩
    | not => exact absurd rfl hoperator
  | negation _ ih => exact fun negative => ih (!negative)

/-- Splitting makes no comparison that is asked for harder, and none that is ruled out easier. -/
theorem WellBuilt.holds_split {v : Assignment} {e : Expression} (h : e.WellBuilt) :
    ((e.split false).holds v = true → e.holds v = true) ∧ (e.holds v = true → (e.split true).holds v = true) := by
  induction h with
  | @junction operator children comparisons hoperator _ _ hops ih =>
    cases operator with
    | and =>
      simp only [split, splitAll_eq_map, holds_and, Bool.and_eq_true, List.all_map, List.all_eq_true,
        Function.comp_apply]
      exact ⟨fun ⟨hchildren, hown⟩ => ⟨fun e he => (ih e he).1 (hchildren e he), hown⟩,
        fun ⟨hchildren, hown⟩ => ⟨fun e he => (ih e he).2 (hchildren e he), hown⟩⟩
    | or =>
      simp only [split, splitAll_eq_map, holds_or, Bool.or_eq_true, List.any_map, List.any_eq_true,
        Function.comp_apply, if_true, Bool.false_eq_true, if_false]
      constructor
      · exact Or.imp_left fun ⟨e, he, hholds⟩ => ⟨e, he, (ih e he).1 hholds⟩
      · refine Or.imp (fun ⟨e, he, hholds⟩ => ⟨e, he, (ih e he).2 hholds⟩) fun ⟨c, hc, hholds⟩ => ?_
        obtain ⟨op, hop⟩ := List.exists_mem_of_ne_nil _ (hops c hc)
        refine ⟨_, List.mem_flatMap.mpr ⟨c, hc, List.mem_map_of_mem hop⟩, ?_⟩
        have hatom := List.all_eq_true.mp hholds ⟨c.path, c.component, op⟩
          (Comparison.mem_atoms.mpr ⟨rfl, rfl, hop⟩)
        simpa [Comparison.holds, Comparison.atoms] using hatom
    | not => exact absurd rfl hoperator
  | @negation inner _ ih =>
    simp only [split, splitAll, Bool.not_false, Bool.not_true, holds_not, List.all_cons, List.all_nil, Bool.and_true,
      Bool.not_eq_true']
    exact ⟨fun hsplit => Bool.eq_false_iff.mpr fun hinner => by simp [ih.2 hinner] at hsplit,
      fun hinner => Bool.eq_false_iff.mpr fun hsplit => by simp [ih.1 hsplit] at hinner⟩

mutual
/-- Only single operations stand in the ORs below an odd number of NOTs, or below an even number if `negative` is set. -/
def SingleWhereSplit (negative : Bool) : Expression → Prop
  | ⟨.and, children, _⟩ => AllSingleWhereSplit negative children
  | ⟨.or, children, comparisons⟩ =>
    AllSingleWhereSplit negative children ∧ (negative = true → ∀ c ∈ comparisons, ∃ op, c.operations = [op])
  | ⟨.not, children, _⟩ => AllSingleWhereSplit (!negative) children

/-- `SingleWhereSplit` of every tree in a list. -/
def AllSingleWhereSplit (negative : Bool) : List Expression → Prop
  | [] => True
  | e :: es => e.SingleWhereSplit negative ∧ AllSingleWhereSplit negative es
end

theorem flatMap_parts_of_single {cs : List Comparison} (h : ∀ c ∈ cs, ∃ op, c.operations = [op]) :
    cs.flatMap Comparison.parts = cs := by
  induction cs with
  | nil => rfl
  | cons c cs ih =>
    rw [List.forall_mem_cons] at h
    obtain ⟨⟨op, hop⟩, hrest⟩ := h
    rw [List.flatMap_cons, ih hrest, Comparison.parts, hop, List.map_singleton, ← hop]
    rfl

mutual
theorem split_eq_self : ∀ {e : Expression} {negative : Bool}, e.SingleWhereSplit negative → e.split negative = e
  | ⟨.and, _, _⟩, _, h => by
    rw [split, splitAll_eq_self h]
  | ⟨.or, _, comparisons⟩, negative, h => by
    have hown : (if negative then comparisons.flatMap Comparison.parts else comparisons) = comparisons := by
      split
      · rename_i hnegative
        exact flatMap_parts_of_single (h.2 hnegative)
      · rfl
    rw [split, splitAll_eq_self h.1, hown]
  | ⟨.not, _, _⟩, _, h => by
    rw [split, splitAll_eq_self h]

theorem splitAll_eq_self : ∀ {es : List Expression} {negative : Bool}, AllSingleWhereSplit negative es →
    splitAll negative es = es
  | [], _, _ => rfl
  | _ :: _, _, h => by
    rw [splitAll, split_eq_self h.1, splitAll_eq_self h.2]
end

/-! ## Meaning -/

/-- **Removing NOT from a tree means the split tree.** So it never selects more than the tree does, and the same where
only single operations stand in the ORs below an odd number of NOTs. -/
theorem holds_normalized_split {e : Expression} (he : e.WellBuilt) {v : Assignment} (hv : e.Complements v) :
    e.normalized.holds v = (e.split false).holds v ∧ (e.normalized.holds v = true → e.holds v = true) ∧
      (e.SingleWhereSplit false → e.normalized.holds v = e.holds v) := by
  have hsplit : e.normalized.holds v = (e.split false).holds v := by
    rw [← (normalized_negated_split e).1]
    exact holds_normalized (he.pushable_split false) (hv.split false)
  refine ⟨hsplit, fun h => he.holds_split.1 (hsplit ▸ h), fun hsingle => ?_⟩
  rw [hsplit, split_eq_self hsingle]

/-- Two ranges: below one NOT in an AND, and below two in an OR. -/
def twoRanges : Expression :=
  ⟨.not, [⟨.and, [⟨.not, [⟨.or, [], [⟨"age", [⟨.gte, .number (.int 18)⟩, ⟨.lt, .number (.int 65)⟩], none⟩]⟩], []⟩],
    [⟨"score", [⟨.gt, .number (.int 1)⟩, ⟨.lte, .number (.int 5)⟩], none⟩]⟩], []⟩

theorem holds_normalized_split_twoRanges :
    twoRanges.WellBuilt ∧ twoRanges.Complements Assignment.affirming ∧ twoRanges.SingleWhereSplit false ∧
      twoRanges.normalized.holds Assignment.affirming = twoRanges.holds Assignment.affirming := by
  have hinner : WellBuilt ⟨.or, [], [⟨"age", [⟨.gte, .number (.int 18)⟩, ⟨.lt, .number (.int 65)⟩], none⟩]⟩ :=
    .junction (by simp) (.inr (by simp)) (by simp) (by simp)
  have hwell : twoRanges.WellBuilt :=
    .negation (.junction (by simp) (.inl (by simp)) (by simpa using .negation hinner) (by simp))
  have hv : twoRanges.Complements Assignment.affirming := by
    unfold Complements
    decide
  have hsingle : twoRanges.SingleWhereSplit false := by simp [twoRanges, SingleWhereSplit, AllSingleWhereSplit]
  exact ⟨hwell, hv, hsingle, (holds_normalized_split hwell hv).2.2 hsingle⟩

end Expression

/-! ## Where the meaning is lost -/

/-- The operation has an operand that negation can turn around: presence is asked for by a boolean, a size by a natural
number. -/
structure Operation.Negatable (op : Operation) : Prop where
  presence : op.operator = .present → ∃ b, op.operand = .boolean b
  count : op.operator = .size → ∃ n x, op.operand = .number n ∧ n.toBinary64? = some x ∧ x.isBelowZero = false ∧
    x.isIntegral = true

/-- Operations that negation can turn around and their negations have opposite values. -/
theorem Assignment.affirming_of_negatable (a : Atom) (h : a.operation.Negatable) :
    affirming a.negated = !affirming a :=
  affirming_negated h.presence fun hop =>
    have ⟨n, x, hn, hx, _⟩ := h.count hop
    ⟨n, x, hn, hx⟩

/-- Ages outside a range: a NOT above an OR with a single comparison of two operations. -/
def outsideRange : Expression :=
  ⟨.not, [⟨.or, [], [⟨"age", [⟨.gte, .number (.int 18)⟩, ⟨.lt, .number (.int 65)⟩], none⟩]⟩], []⟩

theorem wellBuilt_outsideRange : outsideRange.WellBuilt :=
  .negation (.junction (by simp) (.inr (by simp)) (by simp) (by simp))

/-- Ages above the range are lost: the tree holds and the tree without NOT does not. -/
theorem holds_outsideRange_lost : outsideRange.WellBuilt ∧
    (∀ c ∈ outsideRange.childrenFirst, ∀ op ∈ c.operations, op.Negatable) ∧
    (∀ a : Atom, a.operation.Negatable → Assignment.affirming a.negated = !Assignment.affirming a) ∧
    outsideRange.holds Assignment.affirming = true ∧ outsideRange.normalized.holds Assignment.affirming = false := by
  refine ⟨wellBuilt_outsideRange, ?_, Assignment.affirming_of_negatable, rfl, rfl⟩
  have hplain {op : Operation} (hop : op.operator ≠ .present ∧ op.operator ≠ .size) : op.Negatable :=
    ⟨fun h => absurd h hop.1, fun h => absurd h hop.2⟩
  simp [outsideRange, Expression.childrenFirst, Expression.childrenFirstAll, hplain]

end DocumentFilter
