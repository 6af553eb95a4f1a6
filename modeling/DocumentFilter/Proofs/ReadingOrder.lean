/-
Reading does not depend on the order of the source.

`Document.Reordered` says of two filter documents that they are the same up to
the order of entries and elements, at any depth; below a field only operator
objects may be reordered, with the objects below their selectors, as any other
object is a value. What is read from one document can then be read from the
other, and it is the same up to order (`Contents.Rearranged`).
-/
import DocumentFilter.Proofs.Reading
import DocumentFilter.Proofs.Rearrangement
import Mathlib.Data.List.Perm.Basic

namespace DocumentFilter

/-! ## Computations on reordered lists -/

/-- A `mapM` over a reordered list has the same results, reordered. -/
theorem exists_mapM_of_perm {ε α β : Type} {f : α → Except ε β} {l l' : List α} {r : List β} (h : l.Perm l')
    (hr : l.mapM f = .ok r) : ∃ r', l'.mapM f = .ok r' ∧ r.Perm r' := by
  obtain ⟨r', hr', hperm⟩ := List.perm_comp_forall₂ h.symm (mapM_eq_ok.mp hr)
  exact ⟨r', mapM_eq_ok.mpr hr', hperm.symm⟩

/-! ## Documents -/

/-- Operator objects with the same operators and operands, in any order, also below selectors. -/
inductive Condition.Reordered : List (String × Json) → List (String × Json) → Prop
  | order {entries entries'} : Condition.isOperatorObject entries = true → entries.Perm entries' →
      Reordered entries entries'
  | selector (selector) {inner inner' entries} : inner.Perm inner' →
      Reordered ((Selector.key selector, .object inner) :: entries) ((Selector.key selector, .object inner') :: entries)
  | trans {a b c} : Reordered a b → Reordered b c → Reordered a c

namespace Document

mutual
/-- The entries of documents that are the same up to order, here and further down. -/
inductive Reordered : List (String × Json) → List (String × Json) → Prop
  | order {entries entries'} : entries.Perm entries' → Reordered entries entries'
  | junction (j) {items items' entries} : ElementsReordered items items' →
      Reordered ((Junction.key j, .array items) :: entries) ((Junction.key j, .array items') :: entries)
  | negation {inner inner' entries} : Reordered inner inner' →
      Reordered (("$not", .object inner) :: entries) (("$not", .object inner') :: entries)
  | condition {path inner inner' entries} : IsFieldKey path → Condition.Reordered inner inner' →
      Reordered ((path, .object inner) :: entries) ((path, .object inner') :: entries)
  | trans {a b c} : Reordered a b → Reordered b c → Reordered a c

/-- The elements of junctions that are the same up to order, here and further down. -/
inductive ElementsReordered : List Json → List Json → Prop
  | order {items items'} : items.Perm items' → ElementsReordered items items'
  | element {entries entries' items} : Reordered entries entries' →
      ElementsReordered (.object entries :: items) (.object entries' :: items)
  | trans {a b c} : ElementsReordered a b → ElementsReordered b c → ElementsReordered a c
end

end Document

namespace Condition

variable {schema : Schema} {path : String} {entries entries' : List (String × Json)}

theorem isOperatorObject_eq_of_perm (h : entries.Perm entries') :
    isOperatorObject entries = isOperatorObject entries' := by
  have hwrapper : ExtendedValue.wrapper? entries = ExtendedValue.wrapper? entries' := by
    match entries, entries', h.length_eq with
    | [], [], _ => rfl
    | [_], [_], _ => rw [List.perm_singleton.mp h.symm]
    | _ :: _ :: _, _ :: _ :: _, _ => rfl
  rw [isOperatorObject, isOperatorObject, hwrapper, h.any_eq]

theorem isOperatorObject_selector {selector : Selector} {value : Json} :
    isOperatorObject ((selector.key, value) :: entries) = true :=
  isOperatorObject_of_mem List.mem_cons_self (by cases selector <;> decide) (by cases selector <;> rfl)

/-- Both objects are operator objects. -/
theorem Reordered.isOperatorObject (h : Reordered entries entries') :
    isOperatorObject entries = true ∧ Condition.isOperatorObject entries' = true := by
  induction h with
  | order hobject hperm => exact ⟨hobject, isOperatorObject_eq_of_perm hperm ▸ hobject⟩
  | selector => exact ⟨isOperatorObject_selector, isOperatorObject_selector⟩
  | trans _ _ ih ih' => exact ⟨ih.1, ih'.2⟩

theorem Reordered.symm (h : Reordered entries entries') : Reordered entries' entries := by
  induction h with
  | order hobject hperm => exact .order (isOperatorObject_eq_of_perm hperm ▸ hobject) hperm.symm
  | selector _ h => exact .selector _ h.symm
  | trans _ _ ih ih' => exact .trans ih' ih

/-- A container entry with the object below its selector reordered writes the same comparisons. -/
theorem containerEntry_of_perm {kind : ContainerKind} {selector : Selector} {inner inner' : List (String × Json)}
    {cs : List Comparison} (h : inner.Perm inner')
    (hcs : containerEntry schema path kind selector.key (.object inner) = .ok cs) :
    ∃ cs', containerEntry schema path kind selector.key (.object inner') = .ok cs' ∧ cs.Perm cs' := by
  rcases containerEntry_eq_ok.mp hcs with ⟨hkey, -⟩ | ⟨found, entries, hkey, hkind, hobject, hne, hall⟩
  · cases selector.ofKey?_key.symm.trans hkey
  · cases hobject
    obtain ⟨cs', hall', hperm⟩ := List.perm_comp_forall₂ h.symm hall
    have hne' : inner' ≠ [] := fun hnil => hne (List.perm_nil.mp (hnil ▸ h))
    exact ⟨cs', containerEntry_eq_ok.mpr (.inr ⟨found, inner', hkey, hkind, rfl, hne', hall'⟩), hperm.symm⟩

/-- A reordered operator object writes the same comparisons. -/
theorem operatorObject_of_reordered (h : Reordered entries entries') {cs : List Comparison}
    (hcs : operatorObject schema path entries = .ok cs) :
    ∃ cs', operatorObject schema path entries' = .ok cs' ∧ cs.Perm cs' := by
  unfold operatorObject at hcs ⊢
  induction h generalizing cs with
  | order _ hperm =>
    split at hcs
    · exact exists_mapM_of_perm hperm hcs
    · obtain ⟨lists, hlists, rfl⟩ := map_eq_ok.mp hcs
      obtain ⟨lists', hlists', hperm⟩ := exists_mapM_of_perm hperm hlists
      exact ⟨_, map_eq_ok.mpr ⟨lists', hlists', rfl⟩, hperm.flatten⟩
  | selector selector hperm =>
    split at hcs
    · obtain ⟨c, -, hc, -⟩ := List.forall₂_cons_left_iff.mp (mapM_eq_ok.mp hcs)
      obtain ⟨op, -, hkey, -⟩ := comparison_eq_ok.mp hc
      cases (hkey ▸ selector.ofKey?_key).symm.trans op.selector_key
    · obtain ⟨lists, hlists, rfl⟩ := map_eq_ok.mp hcs
      obtain ⟨first, others, hfirst, hothers, rfl⟩ := List.forall₂_cons_left_iff.mp (mapM_eq_ok.mp hlists)
      obtain ⟨first', hfirst', hperm⟩ := containerEntry_of_perm hperm hfirst
      exact ⟨_, map_eq_ok.mpr ⟨_, mapM_eq_ok.mpr (.cons hfirst' hothers), rfl⟩, hperm.append_right _⟩
  | trans _ _ ih ih' =>
    obtain ⟨cs₁, hcs₁, hperm₁⟩ := ih hcs
    obtain ⟨cs₂, hcs₂, hperm₂⟩ := ih' hcs₁
    exact ⟨cs₂, hcs₂, hperm₁.trans hperm₂⟩

end Condition

namespace Document

mutual
theorem Reordered.symm : ∀ {entries entries' : List (String × Json)}, Reordered entries entries' →
    Reordered entries' entries
  | _, _, .order h => .order h.symm
  | _, _, .junction j h => .junction j h.symm
  | _, _, .negation h => .negation h.symm
  | _, _, .condition hpath h => .condition hpath h.symm
  | _, _, .trans h h' => .trans h'.symm h.symm

theorem ElementsReordered.symm : ∀ {items items' : List Json}, ElementsReordered items items' →
    ElementsReordered items' items
  | _, _, .order h => .order h.symm
  | _, _, .element h => .element h.symm
  | _, _, .trans h h' => .trans h'.symm h.symm
end

theorem Reordered.length_eq : ∀ {entries entries' : List (String × Json)}, Reordered entries entries' →
    entries.length = entries'.length
  | _, _, .order h => h.length_eq
  | _, _, .junction _ _ | _, _, .negation _ | _, _, .condition _ _ => rfl
  | _, _, .trans h h' => h.length_eq.trans h'.length_eq

theorem ElementsReordered.length_eq : ∀ {items items' : List Json}, ElementsReordered items items' →
    items.length = items'.length
  | _, _, .order h => h.length_eq
  | _, _, .element _ => rfl
  | _, _, .trans h h' => h.length_eq.trans h'.length_eq

end Document

theorem ne_nil_of_length_eq {α : Type} {l l' : List α} (h : l.length = l'.length) (hl : l ≠ []) : l' ≠ [] := by
  rintro rfl
  exact hl (List.length_eq_zero_iff.mp h)

namespace Contents

/-! ## Contents -/

/-- The contents are the same up to order. -/
structure Rearranged (a b : Contents) : Prop where
  node : a.conjunction.Rearranged b.conjunction
  warnings : a.warnings.Perm b.warnings

namespace Rearranged

variable {a b c : Contents}

theorem refl (a : Contents) : Rearranged a a := ⟨.refl _, .refl _⟩

theorem trans (h : Rearranged a b) (h' : Rearranged b c) : Rearranged a c :=
  ⟨.trans h.node h'.node, h.warnings.trans h'.warnings⟩

theorem append_swap (a b c : Contents) : Rearranged (a ++ (b ++ c)) (b ++ (a ++ c)) where
  node := .node (by simp) (List.perm_append_comm_assoc ..) (List.perm_append_comm_assoc ..)
  warnings := List.perm_append_comm_assoc ..

theorem append_comm (a b : Contents) : Rearranged (a ++ b) (b ++ a) where
  node := .node (by simp) List.perm_append_comm List.perm_append_comm
  warnings := List.perm_append_comm

theorem append_right (h : Rearranged a b) (c : Contents) : Rearranged (a ++ c) (b ++ c) where
  node := h.node.append (by simp) c.children c.comparisons
  warnings := h.warnings.append_right _

theorem append_left (h : Rearranged a b) (c : Contents) : Rearranged (c ++ a) (c ++ b) :=
  (append_comm c a).trans ((h.append_right c).trans (append_comm b c))

theorem ofNode {e e' : Expression} {warnings warnings' : List Warning} (he : e.Rearranged e')
    (hw : warnings.Perm warnings') : Rearranged (ofNode e warnings) (ofNode e' warnings') where
  node := .child he
  warnings := hw

theorem junction (h : Rearranged a b) (j : Junction) : (a.node j).Rearranged (b.node j) := by
  have hj : j.connective ≠ .not := by cases j <;> simp [Junction.connective]
  simpa [Contents.node, conjunction] using h.node.append hj [] []

/-- Single comparisons join the junction on both sides, or on none. -/
theorem element (h : Rearranged a b) : Rearranged a.element b.element := by
  have hchildren := h.node.length_children
  have hcomparisons := h.node.comparisons.length_eq
  obtain ⟨children, comparisons, warnings⟩ := a
  obtain ⟨children', comparisons', warnings'⟩ := b
  match children, children', comparisons, comparisons', hchildren, hcomparisons with
  | [], [], [_], [_], _, _ => exact h
  | [], [], [], [], _, _ | [], [], _ :: _ :: _, _ :: _ :: _, _, _ | _ :: _, _ :: _, _, _, _, _ =>
    exact ofNode h.node h.warnings

end Rearranged

/-! ## Reading -/

variable {schema : Schema}

/-- A field with its operators reordered has the same comparisons and warnings. -/
theorem ofField_of_reordered {path : String} {entries entries' : List (String × Json)}
    (h : Condition.Reordered entries entries') {c : Contents} (hc : ofField schema path (.object entries) = .ok c) :
    ∃ c', ofField schema path (.object entries') = .ok c' ∧ c.Rearranged c' := by
  obtain ⟨cs, warnings, hpath, hcs, hw, rfl⟩ := ofField_eq_ok.mp hc
  simp only [Condition.comparisons, h.isOperatorObject.1, if_true] at hcs
  obtain ⟨cs', hcs', hperm⟩ := Condition.operatorObject_of_reordered h hcs
  obtain ⟨warnings', hw', hwarnings⟩ := exists_mapM_of_perm hperm hw
  refine ⟨_, ofField_eq_ok.mpr ⟨cs', warnings', hpath, ?_, hw', rfl⟩, ?_⟩
  · simp only [Condition.comparisons, h.isOperatorObject.2, if_true]
    exact hcs'
  · exact ⟨.node (by simp) (.refl _) hperm, hwarnings.filterMap _⟩

/-- A reordered object below a field has the same contents. -/
theorem ofEntry_field_of_reordered {path : String} {entries entries' : List (String × Json)} (hpath : IsFieldKey path)
    (h : Condition.Reordered entries entries') {c : Contents} (hc : ofEntry schema path (.object entries) = .ok c) :
    ∃ c', ofEntry schema path (.object entries') = .ok c' ∧ c.Rearranged c' := by
  rcases ofEntry_eq_ok.mp hc with ⟨_, _, _, _, hvalue, _⟩ | ⟨_, _, hkey, _⟩ | ⟨hkey, hfield⟩
  · cases hvalue
  · exact absurd hkey hpath.2.2
  · obtain ⟨c', hc', hrearranged⟩ := ofField_of_reordered h hfield
    exact ⟨c', ofEntry_eq_ok.mpr (.inr (.inr ⟨hkey, hc'⟩)), hrearranged⟩

/-! ## Lists, item by item -/

/-- Parts one after the other. -/
def joined (parts : List Contents) : Contents := parts.foldr (· ++ ·) {}

theorem joined_of_perm {parts parts' : List Contents} (h : parts.Perm parts') :
    (joined parts).Rearranged (joined parts') := by
  induction h with
  | nil => exact .refl _
  | cons part _ ih => exact ih.append_left part
  | swap part part' rest => exact .append_swap part' part (joined rest)
  | trans _ _ ih ih' => exact ih.trans ih'

/-- Entries are read one by one. -/
theorem ofEntries_eq_ok : ∀ {l : List (String × Json)} {c : Contents}, ofEntries schema l = .ok c ↔
    ∃ parts, List.Forall₂ (fun entry part => ofEntry schema entry.1 entry.2 = .ok part) l parts ∧ c = joined parts
  | [], c => by simp [ofEntries, joined, eq_comm]
  | (key, value) :: l, c => by
    simp only [ofEntries, bind_eq_ok, pure_eq_ok, ofEntries_eq_ok (l := l), List.forall₂_cons_left_iff]
    constructor
    · rintro ⟨first, hfirst, _, ⟨others, hothers, rfl⟩, rfl⟩
      exact ⟨_, ⟨first, others, hfirst, hothers, rfl⟩, rfl⟩
    · rintro ⟨_, ⟨first, others, hfirst, hothers, rfl⟩, rfl⟩
      exact ⟨first, hfirst, _, ⟨others, hothers, rfl⟩, rfl⟩

/-- What an element adds to the contents of its junction. -/
def ReadsElement (schema : Schema) (item : Json) (part : Contents) : Prop :=
  ∃ entries c, item = .object entries ∧ entries ≠ [] ∧ ofEntries schema entries = .ok c ∧ part = c.element

/-- Elements are read one by one. -/
theorem ofElements_eq_ok {j : Junction} : ∀ {items : List Json} {c : Contents}, ofElements schema j items = .ok c ↔
    ∃ parts, List.Forall₂ (ReadsElement schema) items parts ∧ c = joined parts
  | [], c => by simp [ofElements, joined, eq_comm]
  | item :: items, c => by
    simp only [List.forall₂_cons_left_iff]
    constructor
    · intro h
      cases item with
      | object entries =>
        obtain ⟨hne, first, others, hfirst, hothers, rfl⟩ := ofElements_cons_object.mp h
        obtain ⟨parts, hparts, rfl⟩ := ofElements_eq_ok.mp hothers
        exact ⟨_, ⟨first.element, parts, ⟨entries, first, rfl, hne, hfirst, rfl⟩, hparts, rfl⟩, rfl⟩
      | _ => cases h
    · rintro ⟨_, ⟨_, parts, ⟨entries, first, rfl, hne, hfirst, rfl⟩, hparts, rfl⟩, rfl⟩
      exact ofElements_cons_object.mpr ⟨hne, first, _, hfirst, ofElements_eq_ok.mpr ⟨parts, hparts, rfl⟩, rfl⟩

/-- If the first entry can be read with its value changed, then so can the list. -/
theorem ofEntries_of_first {key : String} {value value' : Json} {entries : List (String × Json)}
    (h : ∀ first, ofEntry schema key value = .ok first →
      ∃ first', ofEntry schema key value' = .ok first' ∧ first.Rearranged first')
    {c : Contents} (hc : ofEntries schema ((key, value) :: entries) = .ok c) :
    ∃ c', ofEntries schema ((key, value') :: entries) = .ok c' ∧ c.Rearranged c' := by
  obtain ⟨_, hparts, rfl⟩ := ofEntries_eq_ok.mp hc
  obtain ⟨first, others, hfirst, hothers, rfl⟩ := List.forall₂_cons_left_iff.mp hparts
  obtain ⟨first', hfirst', hrearranged⟩ := h first hfirst
  exact ⟨_, ofEntries_eq_ok.mpr ⟨_, .cons hfirst' hothers, rfl⟩, hrearranged.append_right (joined others)⟩

mutual
/-- **A reordered document is read with the same contents up to order.** -/
theorem ofEntries_of_reordered : ∀ {entries entries' : List (String × Json)}, Document.Reordered entries entries' →
    ∀ {c : Contents}, ofEntries schema entries = .ok c →
      ∃ c', ofEntries schema entries' = .ok c' ∧ c.Rearranged c'
  | _, _, .order h, c, hc => by
    obtain ⟨parts, hparts, rfl⟩ := ofEntries_eq_ok.mp hc
    obtain ⟨parts', hparts', hperm⟩ := List.perm_comp_forall₂ h.symm hparts
    exact ⟨_, ofEntries_eq_ok.mpr ⟨parts', hparts', rfl⟩, joined_of_perm hperm.symm⟩
  | _, _, .junction j h, c, hc => by
    refine ofEntries_of_first (fun first hfirst => ?_) hc
    obtain ⟨hne, d, hd, rfl⟩ := ofEntry_junction_eq_ok.mp hfirst
    obtain ⟨d', hd', hrearranged⟩ := ofElements_of_reordered h hd
    exact ⟨_, ofEntry_junction_eq_ok.mpr ⟨ne_nil_of_length_eq h.length_eq hne, d', hd', rfl⟩,
      .ofNode (hrearranged.junction j) hrearranged.warnings⟩
  | _, _, .negation h, c, hc => by
    refine ofEntries_of_first (fun first hfirst => ?_) hc
    obtain ⟨hne, d, hd, rfl⟩ := ofEntry_negation_eq_ok.mp hfirst
    obtain ⟨d', hd', hrearranged⟩ := ofEntries_of_reordered h hd
    exact ⟨_, ofEntry_negation_eq_ok.mpr ⟨ne_nil_of_length_eq h.length_eq hne, d', hd', rfl⟩,
      .ofNode (.child hrearranged.node) hrearranged.warnings⟩
  | _, _, .condition hpath h, c, hc =>
    ofEntries_of_first (fun _ hfirst => ofEntry_field_of_reordered hpath h hfirst) hc
  | _, _, .trans h h', c, hc => by
    obtain ⟨c₁, hc₁, h₁⟩ := ofEntries_of_reordered h hc
    obtain ⟨c₂, hc₂, h₂⟩ := ofEntries_of_reordered h' hc₁
    exact ⟨c₂, hc₂, h₁.trans h₂⟩

theorem ofElements_of_reordered {j : Junction} : ∀ {items items' : List Json},
    Document.ElementsReordered items items' → ∀ {c : Contents}, ofElements schema j items = .ok c →
      ∃ c', ofElements schema j items' = .ok c' ∧ c.Rearranged c'
  | _, _, .order h, c, hc => by
    obtain ⟨parts, hparts, rfl⟩ := ofElements_eq_ok.mp hc
    obtain ⟨parts', hparts', hperm⟩ := List.perm_comp_forall₂ h.symm hparts
    exact ⟨_, ofElements_eq_ok.mpr ⟨parts', hparts', rfl⟩, joined_of_perm hperm.symm⟩
  | _, _, .element h, c, hc => by
    obtain ⟨hne, first, others, hfirst, hothers, rfl⟩ := ofElements_cons_object.mp hc
    obtain ⟨first', hfirst', hrearranged⟩ := ofEntries_of_reordered h hfirst
    exact ⟨_, ofElements_cons_object.mpr ⟨ne_nil_of_length_eq h.length_eq hne, first', others, hfirst', hothers, rfl⟩,
      hrearranged.element.append_right others⟩
  | _, _, .trans h h', c, hc => by
    obtain ⟨c₁, hc₁, h₁⟩ := ofElements_of_reordered h hc
    obtain ⟨c₂, hc₂, h₂⟩ := ofElements_of_reordered h' hc₁
    exact ⟨c₂, hc₂, h₁.trans h₂⟩
end

end Contents

end DocumentFilter
