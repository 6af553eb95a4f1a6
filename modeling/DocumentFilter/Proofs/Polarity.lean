/-
Removing NOT loses, adds and reorders nothing. What a tree asks is a list of
atoms, in the order of `flatten`; the tree without NOT asks the same list,
with exactly those atoms negated that stand below an odd number of NOTs
(`atoms_normalized`). Negation keeps an atom's path and component, so the
paths that are asked about are those of the tree as it was written.
-/
import DocumentFilter.Proofs.Negation
import Mathlib.Data.List.Basic

namespace DocumentFilter

/-- The atom, or its complement where `negative` is set. -/
def Atom.signed (negative : Bool) (a : Atom) : Atom := if negative then a.negated else a

@[simp]
theorem Atom.path_signed (negative : Bool) (a : Atom) : (a.signed negative).path = a.path := by
  cases negative <;> rfl

theorem Comparison.flatMap_atoms_negated (cs : List Comparison) :
    (cs.flatMap Comparison.negated).flatMap Comparison.atoms =
      (cs.flatMap Comparison.atoms).map (Atom.signed true) := by
  rw [List.flatMap_assoc, List.map_flatMap]
  refine congrArg (cs.flatMap ·) (funext fun c => ?_)
  rw [Comparison.negated, List.flatMap_map, Comparison.atoms, List.map_map]
  exact List.flatMap_pure_eq_map (fun op => Atom.signed true ⟨c.path, c.component, op⟩) c.operations

/-- The paths that comparisons with operations are on are those of the atoms. -/
theorem Comparison.mem_map_path_atoms {cs : List Comparison} (hops : ∀ c ∈ cs, c.operations ≠ []) {path : String} :
    path ∈ (cs.flatMap Comparison.atoms).map (·.path) ↔ ∃ c ∈ cs, c.path = path := by
  simp only [List.mem_map, List.mem_flatMap]
  constructor
  · rintro ⟨a, ⟨c, hc, ha⟩, rfl⟩
    exact ⟨c, hc, (Comparison.mem_atoms.mp ha).1.symm⟩
  · rintro ⟨c, hc, rfl⟩
    obtain ⟨op, hop⟩ := List.exists_mem_of_ne_nil _ (hops c hc)
    exact ⟨⟨c.path, c.component, op⟩, ⟨c, hc, Comparison.mem_atoms.mpr ⟨rfl, rfl, hop⟩⟩, rfl⟩

namespace Expression

/-! ## The comparisons of a node and its children -/

theorem attributedAll_eq_flatMap (es : List Expression) : attributedAll es = es.flatMap attributed := by
  induction es with
  | nil => rfl
  | cons e es ih => rw [attributedAll, ih, List.flatMap_cons]

section Node

variable (operator : Connective) (children : List Expression) (comparisons : List Comparison)

theorem flatten_node : flatten ⟨operator, children, comparisons⟩ = comparisons ++ children.flatMap flatten := by
  have hown : (comparisons.map (operator, ·)).map Prod.snd = comparisons := by
    rw [List.map_map]
    exact List.map_id _
  rw [flatten, attributed, attributedAll_eq_flatMap, List.map_append, hown, List.map_flatMap]
  rfl

/-- Both orders list the same comparisons. -/
theorem mem_flatten_iff {e : Expression} {c : Comparison} : c ∈ e.flatten ↔ c ∈ e.childrenFirst := by
  induction e with | node operator children comparisons ih
  have hchildren : (∃ e ∈ children, c ∈ e.flatten) ↔ ∃ e ∈ children, c ∈ e.childrenFirst :=
    exists_congr fun e => and_congr_right (ih e)
  rw [flatten_node, mem_childrenFirst, List.mem_append, List.mem_flatMap, hchildren, or_comm]

/-! ## What a tree asks -/

/-- What the tree asks, a node's own before its children's. -/
def atoms (e : Expression) : List Atom := e.flatten.flatMap Comparison.atoms

theorem atoms_node : atoms ⟨operator, children, comparisons⟩ =
    comparisons.flatMap Comparison.atoms ++ children.flatMap atoms := by
  rw [atoms, flatten_node, List.flatMap_append, List.flatMap_assoc]
  rfl

end Node

mutual
/-- What the tree asks where all NOTs are counted: an atom below an odd number of them is negated, or below an even
number if `negative` is set. -/
def signedAtoms (negative : Bool) : Expression → List Atom
  | ⟨operator, children, comparisons⟩ =>
    (comparisons.flatMap Comparison.atoms).map (Atom.signed (negative ^^ operator == .not)) ++
      signedAtomsAll (negative ^^ operator == .not) children

/-- `signedAtoms` of lists of trees. -/
def signedAtomsAll (negative : Bool) : List Expression → List Atom
  | [] => []
  | e :: es => e.signedAtoms negative ++ signedAtomsAll negative es
end

theorem signedAtomsAll_eq_flatMap (negative : Bool) (es : List Expression) :
    signedAtomsAll negative es = es.flatMap (signedAtoms negative) := by
  induction es with
  | nil => rfl
  | cons e es ih => rw [signedAtomsAll, ih, List.flatMap_cons]

/-- Signs do not touch the paths. -/
theorem map_path_signedAtoms (e : Expression) :
    ∀ negative, (e.signedAtoms negative).map (·.path) = e.atoms.map (·.path) := by
  induction e with | node operator children comparisons ih
  intro negative
  have hown (negative : Bool) (l : List Atom) : (l.map (Atom.signed negative)).map (·.path) = l.map (·.path) := by
    rw [List.map_map]
    exact List.map_congr_left fun a _ => a.path_signed negative
  rw [signedAtoms, signedAtomsAll_eq_flatMap, atoms_node, List.map_append, List.map_append, hown,
    List.map_flatMap (g := signedAtoms _), List.map_flatMap (g := atoms)]
  exact congrArg _ (List.flatMap_congr fun e he => ih e he _)

/-! ## Removing NOT -/

/-- Every NOT stands before exactly one child and nothing else. -/
inductive SingleNot : Expression → Prop
  | junction {operator children comparisons} : operator ≠ .not → (∀ e ∈ children, SingleNot e) →
      SingleNot ⟨operator, children, comparisons⟩
  | negation {inner} : SingleNot inner → SingleNot ⟨.not, [inner], []⟩

theorem Proper.singleNot {e : Expression} (h : e.Proper) : e.SingleNot := by
  induction h with
  | junction hop _ _ _ ih => exact .junction hop ih
  | negation _ ih => exact .negation ih

/-- Both functions on one tree, which each NOT turns into one another. -/
theorem atoms_normalized_negated {e : Expression} (h : e.SingleNot) :
    e.normalized.atoms = e.signedAtoms false ∧ e.negated.atoms = e.signedAtoms true := by
  induction h with
  | @junction operator children comparisons hop _ ih =>
    have hpos : (children.map normalized).flatMap atoms = children.flatMap (signedAtoms false) := by
      rw [List.flatMap_map]
      exact List.flatMap_congr fun e he => (ih e he).1
    have hneg : (children.map negated).flatMap atoms = children.flatMap (signedAtoms true) := by
      rw [List.flatMap_map]
      exact List.flatMap_congr fun e he => (ih e he).2
    have hsame : (comparisons.flatMap Comparison.atoms).map (Atom.signed false) =
        comparisons.flatMap Comparison.atoms := List.map_id _
    cases operator with
    | and | or =>
      simp only [normalized, negated, negatedNode, normalizedAll_eq_map, negatedAll_eq_map, atoms_node, signedAtoms,
        signedAtomsAll_eq_flatMap, hpos, hneg, Comparison.flatMap_atoms_negated]
      exact ⟨congrArg (· ++ _) hsame.symm, rfl⟩
    | not => exact absurd rfl hop
  | @negation inner _ ih =>
    have hinner (negative : Bool) : signedAtoms negative ⟨.not, [inner], []⟩ = inner.signedAtoms (!negative) := by
      cases negative <;> simp [signedAtoms, signedAtomsAll]
    rw [hinner, hinner]
    exact ⟨ih.2, ih.1⟩

/-- **The tree without NOT asks what the tree asks**, in the same order, negated below an odd number of NOTs. -/
theorem atoms_normalized {e : Expression} (h : e.SingleNot) : e.normalized.atoms = e.signedAtoms false :=
  (atoms_normalized_negated h).1

theorem mem_map_path_atoms {e : Expression} (hops : ∀ c ∈ e.childrenFirst, c.operations ≠ []) {path : String} :
    path ∈ e.atoms.map (·.path) ↔ ∃ c ∈ e.childrenFirst, c.path = path := by
  rw [atoms, Comparison.mem_map_path_atoms fun c hc => hops c (mem_flatten_iff.mp hc)]
  simp only [mem_flatten_iff]

end Expression

end DocumentFilter
