/-
Removing NOT keeps the meaning of a tree: `normalized` has the truth value of
the tree, `negated` the opposite one.

This needs two things. Of the assignment, that it gives opposite values to
the atoms of the tree and their negations. Of the tree, that it is
`Pushable`: every NOT stands before exactly one child, and where a node comes
to be negated its parts are as many single operations as they look, since the
negation of a comparison with several operations is flattened into its node.
The induction is on the tree, for both functions at once.
-/
import DocumentFilter.Proofs.Truth

namespace DocumentFilter

namespace Expression

/-! ## The functions on lists of trees -/

theorem normalizedAll_eq_map (es : List Expression) : normalizedAll es = es.map normalized := by
  induction es with
  | nil => rfl
  | cons e es ih => rw [normalizedAll, ih, List.map_cons]

theorem negatedAll_eq_map (es : List Expression) : negatedAll es = es.map negated := by
  induction es with
  | nil => rfl
  | cons e es ih => rw [negatedAll, ih, List.map_cons]

theorem childrenFirstAll_eq_flatMap (es : List Expression) : childrenFirstAll es = es.flatMap childrenFirst := by
  induction es with
  | nil => rfl
  | cons e es ih => rw [childrenFirstAll, ih, List.flatMap_cons]

theorem mem_childrenFirst {c : Comparison} {operator children comparisons} :
    c ∈ childrenFirst ⟨operator, children, comparisons⟩ ↔
      (∃ e ∈ children, c ∈ e.childrenFirst) ∨ c ∈ comparisons := by
  rw [childrenFirst, childrenFirstAll_eq_flatMap, List.mem_append, List.mem_flatMap]

/-! ## Trees whose negations can be pushed down -/

mutual
/-- Removing NOT keeps the meaning of the tree, or of its negation where `negative` is set. -/
def Pushable : Bool → Expression → Prop
  | negative, ⟨.and, children, comparisons⟩ =>
    AllPushable negative children ∧ (negative = true →
      (children ≠ [] ∨ comparisons ≠ []) ∧ ∀ c ∈ comparisons, c.operations ≠ [])
  | negative, ⟨.or, children, comparisons⟩ =>
    AllPushable negative children ∧ (negative = true → ∀ c ∈ comparisons, ∃ op, c.operations = [op])
  | negative, ⟨.not, [inner], []⟩ => Pushable (!negative) inner
  | _, ⟨.not, _, _⟩ => False

/-- `Pushable` of every tree in a list. -/
def AllPushable : Bool → List Expression → Prop
  | _, [] => True
  | negative, e :: es => Pushable negative e ∧ AllPushable negative es
end

theorem allPushable_iff {negative : Bool} {es : List Expression} :
    AllPushable negative es ↔ ∀ e ∈ es, Pushable negative e := by
  induction es with
  | nil => simp [AllPushable]
  | cons e es ih => rw [AllPushable, ih, List.forall_mem_cons]

/-! ## Nodes -/

theorem all_congr_of_mem {α : Type} {p q : α → Bool} : ∀ {l : List α}, (∀ a ∈ l, p a = q a) → l.all p = l.all q
  | [], _ => rfl
  | a :: l, h => by
    rw [List.forall_mem_cons] at h
    rw [List.all_cons, List.all_cons, h.1, all_congr_of_mem h.2]

theorem any_congr_of_mem {α : Type} {p q : α → Bool} : ∀ {l : List α}, (∀ a ∈ l, p a = q a) → l.any p = l.any q
  | [], _ => rfl
  | a :: l, h => by
    rw [List.forall_mem_cons] at h
    rw [List.any_cons, List.any_cons, h.1, any_congr_of_mem h.2]

variable {v : Assignment}

/-- A negated AND holds if some part does; a single part may as well be joined by AND. -/
theorem holds_negatedNode_and {children comparisons} (h : children ≠ [] ∨ comparisons ≠ []) :
    (negatedNode .and children comparisons).holds v =
      (children.any (·.holds v) || comparisons.any (·.holds v)) := by
  unfold negatedNode
  split
  · exact holds_or v children comparisons
  · rename_i hlen
    rw [holds_and]
    match children, comparisons with
    | [], [] => simp at h
    | [], [c] => simp
    | [e], [] => simp
    | [], _ :: _ :: _ => simp at hlen
    | [_], _ :: _ => simp at hlen
    | _ :: _ :: _, _ => simp at hlen; omega

/-- A negated OR holds if all parts do. -/
theorem holds_negatedNode_or {children comparisons} :
    (negatedNode .or children comparisons).holds v =
      (children.all (·.holds v) && comparisons.all (·.holds v)) := by
  have hop : (if 1 < children.length + comparisons.length then Connective.or.dual else .and) = .and := ite_self _
  rw [negatedNode, hop, holds_and]

/-! ## Comparisons -/

/-- The negations of a comparison's operations are the complement of the comparison, joined by OR. -/
theorem any_holds_negated {c : Comparison} (hv : ∀ a ∈ c.atoms, v a.negated = !v a) :
    c.negated.any (·.holds v) = !c.holds v := by
  have hop : ∀ op ∈ c.operations,
      Comparison.holds v { c with operations := [op.negated] } = !v ⟨c.path, c.component, op⟩ := by
    intro op hop
    rw [← hv ⟨c.path, c.component, op⟩ (Comparison.mem_atoms.mpr ⟨rfl, rfl, hop⟩)]
    simp [Comparison.holds, Comparison.atoms, Atom.negated]
  rw [Comparison.holds, Comparison.atoms, List.all_map, List.not_all_eq_any_not, Comparison.negated,
    List.any_map]
  exact any_congr_of_mem hop

/-- A single negated operation is the complement however it is joined. -/
theorem all_holds_negated {c : Comparison} (hv : ∀ a ∈ c.atoms, v a.negated = !v a)
    (hc : ∃ op, c.operations = [op]) : c.negated.all (·.holds v) = !c.holds v := by
  obtain ⟨op, hop⟩ := hc
  rw [← any_holds_negated hv]
  simp [Comparison.negated, hop]

theorem negated_ne_nil {c : Comparison} (h : c.operations ≠ []) : c.negated ≠ [] := by
  simpa [Comparison.negated] using h

/-! ## Trees -/

/-- The atoms of a tree and their negations have opposite values. -/
def Complements (v : Assignment) (e : Expression) : Prop :=
  ∀ c ∈ e.childrenFirst, ∀ a ∈ c.atoms, v a.negated = !v a

theorem Complements.comparison {operator children comparisons} (h : Complements v ⟨operator, children, comparisons⟩) :
    ∀ c ∈ comparisons, ∀ a ∈ c.atoms, v a.negated = !v a :=
  fun c hc => h c (mem_childrenFirst.mpr (.inr hc))

theorem Complements.child {operator children comparisons} (h : Complements v ⟨operator, children, comparisons⟩) :
    ∀ e ∈ children, Complements v e :=
  fun e he c hc => h c (mem_childrenFirst.mpr (.inl ⟨e, he, hc⟩))

/-- Both functions on one tree: the induction needs them together, as each NOT turns one into the other. -/
theorem holds_normalized_negated (e : Expression) (hv : e.Complements v) :
    (e.Pushable false → e.normalized.holds v = e.holds v) ∧
      (e.Pushable true → e.negated.holds v = !e.holds v) := by
  induction e with | node operator children comparisons ih
  have hchild := hv.child
  have hcomp := hv.comparison
  -- What the induction gives for the children, of either polarity.
  have hpos : (∀ e ∈ children, Pushable false e) →
      ∀ e ∈ children, e.normalized.holds v = e.holds v :=
    fun hp e he => (ih e he (hchild e he)).1 (hp e he)
  have hneg : (∀ e ∈ children, Pushable true e) → ∀ e ∈ children, e.negated.holds v = !e.holds v :=
    fun hp e he => (ih e he (hchild e he)).2 (hp e he)
  cases operator with
  | and =>
    simp only [Pushable, allPushable_iff]
    constructor
    · rintro ⟨hp, -⟩
      rw [normalized, normalizedAll_eq_map, holds_and, holds_and, List.all_map]
      exact congrArg (· && _) (all_congr_of_mem (hpos hp))
    · rintro ⟨hp, hn⟩
      obtain ⟨hne, hops⟩ := hn trivial
      have hparts : children.map negated ≠ [] ∨ comparisons.flatMap Comparison.negated ≠ [] := by
        rcases hne with hne | hne
        · exact .inl (by simpa using hne)
        · obtain ⟨c, cs, rfl⟩ := List.exists_cons_of_ne_nil hne
          refine .inr ?_
          rw [List.flatMap_cons]
          exact List.append_ne_nil_of_left_ne_nil (negated_ne_nil (hops c (by simp))) _
      rw [negated, negatedAll_eq_map, holds_negatedNode_and hparts, holds_and, Bool.not_and,
        List.not_all_eq_any_not, List.not_all_eq_any_not, List.any_map, List.any_flatMap]
      exact congr (congrArg or (any_congr_of_mem (hneg hp)))
        (any_congr_of_mem fun c hc => any_holds_negated (hcomp c hc))
  | or =>
    simp only [Pushable, allPushable_iff]
    constructor
    · rintro ⟨hp, -⟩
      rw [normalized, normalizedAll_eq_map, holds_or, holds_or, List.any_map]
      exact congrArg (· || _) (any_congr_of_mem (hpos hp))
    · rintro ⟨hp, hn⟩
      rw [negated, negatedAll_eq_map, holds_negatedNode_or, holds_or, Bool.not_or,
        List.not_any_eq_all_not, List.not_any_eq_all_not, List.all_map, List.all_flatMap]
      exact congr (congrArg and (all_congr_of_mem (hneg hp)))
        (all_congr_of_mem fun c hc => all_holds_negated (hcomp c hc) (hn trivial c hc))
  | not =>
    match children, comparisons with
    | [inner], [] =>
      simp only [Pushable, normalized, negated, holds_not, List.all_cons, List.all_nil, Bool.and_true,
        Bool.not_false, Bool.not_true, Bool.not_not]
      exact ⟨fun hp => hneg (by simpa using hp) inner (by simp),
        fun hp => hpos (by simpa using hp) inner (by simp)⟩
    | [], _ => simp [Pushable]
    | [_], _ :: _ => simp [Pushable]
    | _ :: _ :: _, _ => simp [Pushable]

theorem holds_normalized {e : Expression} (hp : e.Pushable false) (hv : e.Complements v) :
    e.normalized.holds v = e.holds v := (holds_normalized_negated e hv).1 hp

/-! ## Trees as they are written -/

/-- No node is empty, every NOT stands before exactly one child, and every comparison is a single operation. -/
inductive Proper : Expression → Prop
  | junction {operator children comparisons} : operator ≠ .not → (children ≠ [] ∨ comparisons ≠ []) →
      (∀ e ∈ children, Proper e) → (∀ c ∈ comparisons, ∃ op, c.operations = [op]) →
      Proper ⟨operator, children, comparisons⟩
  | negation {inner} : Proper inner → Proper ⟨.not, [inner], []⟩

theorem Proper.pushable {e : Expression} (h : e.Proper) : ∀ negative, e.Pushable negative := by
  induction h with
  | @junction operator children comparisons hop hne _ hsingle ih =>
    intro negative
    have hch : AllPushable negative children := allPushable_iff.mpr fun e he => ih e he negative
    cases operator with
    | and =>
      refine ⟨hch, fun _ => ⟨hne, fun c hc => ?_⟩⟩
      obtain ⟨op, hop⟩ := hsingle c hc
      simp [hop]
    | or => exact ⟨hch, fun _ => hsingle⟩
    | not => exact absurd rfl hop
  | negation _ ih => exact fun negative => ih (!negative)

end Expression

end DocumentFilter
