/-
What `normalized` gives is a normal form. Whatever the tree, also one with
malformed NOTs, no NOT is left and removing NOT once more changes nothing; a
tree without NOT is left as it is.

Where every NOT stands before exactly one child the tree without NOT asks the
atoms of the tree, each of them once and in the same order. Whether one is
negated depends on nothing but how many NOTs stand above it (`atomsUnder`): they
cancel in pairs, however far apart they are in the tree.
-/
import DocumentFilter.Proofs.Clause

namespace DocumentFilter

namespace Expression

/-! ## Trees without NOT -/

theorem normalized_of_isNormalized {e : Expression} (he : e.isNormalized = true) : e.normalized = e := by
  induction e with | node operator children comparisons ih
  simp only [isNormalized, Bool.and_eq_true, bne_iff_ne, ne_eq] at he
  have hchildren : normalizedAll children = children := by
    have hsame : ∀ e ∈ children, e.normalized = id e := fun e hmem => ih e hmem (areNormalized_iff.mp he.2 e hmem)
    rw [normalizedAll_eq_map, List.map_congr_left hsame, List.map_id]
  cases operator with
  | and | or => rw [normalized, hchildren]
  | not => exact absurd rfl he.1

/-! ## The NOTs above an atom -/

/-- The NOTs above what a node holds. -/
def notsBelow (nots : Nat) : Connective → Nat
  | .not => nots + 1
  | .and | .or => nots

mutual
/-- What the tree asks, a node's own before its children's, each atom with the number of NOTs above it; `nots` of them
stand above the tree. -/
def atomsUnder (nots : Nat) : Expression → List (Nat × Atom)
  | ⟨operator, children, comparisons⟩ =>
    (comparisons.flatMap Comparison.atoms).map (notsBelow nots operator, ·) ++
      atomsUnderAll (notsBelow nots operator) children

/-- `atomsUnder` of lists of trees. -/
def atomsUnderAll (nots : Nat) : List Expression → List (Nat × Atom)
  | [] => []
  | e :: es => e.atomsUnder nots ++ atomsUnderAll nots es
end

theorem atomsUnderAll_eq_flatMap (nots : Nat) (es : List Expression) :
    atomsUnderAll nots es = es.flatMap (atomsUnder nots) := by
  induction es with
  | nil => rfl
  | cons e es ih => rw [atomsUnderAll, ih, List.flatMap_cons]

/-- Counting forgets no atom and keeps their order. -/
theorem map_snd_atomsUnder (e : Expression) : ∀ nots, (e.atomsUnder nots).map Prod.snd = e.atoms := by
  induction e with | node operator children comparisons ih
  intro nots
  have hown (l : List Atom) : (l.map (notsBelow nots operator, ·)).map Prod.snd = l := by
    rw [List.map_map]
    exact List.map_id l
  rw [atomsUnder, atomsUnderAll_eq_flatMap, atoms_node, List.map_append, hown, List.map_flatMap (g := atomsUnder _)]
  exact congrArg _ (List.flatMap_congr fun e he => ih e he _)

/-- The sign of a node is the parity of the NOTs above what it holds. -/
theorem odd_notsBelow (nots : Nat) (operator : Connective) :
    decide (notsBelow nots operator % 2 = 1) = (decide (nots % 2 = 1) ^^ operator == .not) := by
  cases operator with
  | and | or => exact (Bool.xor_false _).symm
  | not => rcases Nat.mod_two_eq_zero_or_one nots with h | h <;> simp [notsBelow, Nat.add_mod, h]

/-- An atom that counts the NOTs above it has the sign of their parity. -/
theorem signedAtoms_eq_map_atomsUnder (e : Expression) : ∀ nots,
    e.signedAtoms (decide (nots % 2 = 1)) = (e.atomsUnder nots).map fun x => x.2.signed (decide (x.1 % 2 = 1)) := by
  induction e with | node operator children comparisons ih
  intro nots
  have hown (l : List Atom) : l.map (Atom.signed (decide (notsBelow nots operator % 2 = 1))) =
      (l.map (notsBelow nots operator, ·)).map fun x => x.2.signed (decide (x.1 % 2 = 1)) := by
    rw [List.map_map]
    rfl
  rw [signedAtoms, atomsUnder, signedAtomsAll_eq_flatMap, atomsUnderAll_eq_flatMap, ← odd_notsBelow, List.map_append,
    hown, List.map_flatMap (g := atomsUnder _)]
  exact congrArg _ (List.flatMap_congr fun e he => ih e he _)

/-! ## The normal form -/

/-- What the tree without NOT is to the tree. -/
structure HasNormalForm (e : Expression) : Prop where
  noNot : e.normalized.isNormalized = true
  stable : e.normalized.normalized = e.normalized
  fixed : e.isNormalized = true → e.normalized = e
  counted : (e.atomsUnder 0).map Prod.snd = e.atoms
  /-- An atom is negated below an odd number of NOTs and else left as it is. -/
  atoms : e.SingleNot →
    e.normalized.atoms = (e.atomsUnder 0).map fun x => if x.1 % 2 = 1 then x.2.negated else x.2

/-- **Removing NOT is total and stable and loses nothing.** -/
theorem hasNormalForm (e : Expression) : e.HasNormalForm where
  noNot := (isNormalized_normalized_negated e).1
  stable := normalized_of_isNormalized (isNormalized_normalized_negated e).1
  fixed := normalized_of_isNormalized
  counted := map_snd_atomsUnder e 0
  atoms := by
    intro h
    calc
      e.normalized.atoms = e.signedAtoms false := atoms_normalized h
      _ = (e.atomsUnder 0).map fun x => x.2.signed (decide (x.1 % 2 = 1)) := signedAtoms_eq_map_atomsUnder e 0
      _ = (e.atomsUnder 0).map fun x => if x.1 % 2 = 1 then x.2.negated else x.2 := by
        simp only [Atom.signed, decide_eq_true_eq]

/-- A name, or not: a range of sizes and not a range of ages. -/
def nestedRanges : Expression :=
  ⟨.or, [⟨.not, [⟨.and,
      [⟨.not, [⟨.and, [], [⟨"age", [⟨.gte, .number (.int 18)⟩, ⟨.lt, .number (.int 65)⟩], none⟩]⟩], []⟩],
      [⟨"size", [⟨.gte, .number (.int 3)⟩, ⟨.lt, .number (.int 9)⟩], none⟩]⟩], []⟩],
    [.single "name" .eq (.string "a")]⟩

theorem singleNot_nestedRanges : nestedRanges.SingleNot := by
  have hages (comparisons : List Comparison) : SingleNot ⟨.not, [⟨.and, [], comparisons⟩], []⟩ :=
    .negation (.junction (by decide) (by simp))
  refine .junction (by decide) fun e he => ?_
  obtain rfl := List.mem_singleton.mp he
  refine .negation (.junction (by decide) fun e he => ?_)
  obtain rfl := List.mem_singleton.mp he
  exact hages _

theorem hasNormalForm_nestedRanges :
    nestedRanges.normalized.atoms =
        [⟨"name", none, ⟨.eq, .string "a"⟩⟩, ⟨"size", none, ⟨.lt, .number (.int 3)⟩⟩,
          ⟨"size", none, ⟨.gte, .number (.int 9)⟩⟩, ⟨"age", none, ⟨.gte, .number (.int 18)⟩⟩,
          ⟨"age", none, ⟨.lt, .number (.int 65)⟩⟩] ∧
      normalized (normalized ⟨.not, [nestedRanges, empty], [.single "name" .eq (.string "a")]⟩) =
        normalized ⟨.not, [nestedRanges, empty], [.single "name" .eq (.string "a")]⟩ :=
  ⟨((hasNormalForm nestedRanges).atoms singleNot_nestedRanges).trans rfl, (hasNormalForm _).stable⟩

end Expression

end DocumentFilter
