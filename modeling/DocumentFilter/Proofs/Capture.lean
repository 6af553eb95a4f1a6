/-
Capturing loses and invents nothing: recording a comparison adds its atoms to
the groups of a node, under the marker of a capture that covers them, and
changes nothing else there (`SortsNode.capture`).

Groups and sites only decide the order, so a group is seen as its `entries`,
each an atom with the marker it was captured under.
-/
import DocumentFilter.Proofs.Shape

namespace DocumentFilter

section ChangeOrAppend

variable {α β : Type} {fits : α → Bool} {change : α → α} {new : α}

theorem perm_flatMap_changeOrAppend {f : α → List β} {added : List β}
    (hchange : ∀ a, fits a = true → (f (change a)).Perm (f a ++ added)) (hnew : f new = added) :
    ∀ l, ((changeOrAppend fits change new l).flatMap f).Perm (l.flatMap f ++ added)
  | [] => by simp [changeOrAppend, hnew]
  | a :: l => by
    unfold changeOrAppend
    split
    · rename_i hfits
      rw [List.flatMap_cons, List.flatMap_cons]
      calc f (change a) ++ l.flatMap f
        List.Perm _ (f a ++ added ++ l.flatMap f) := (hchange a hfits).append_right _
        List.Perm _ (f a ++ (l.flatMap f ++ added)) := by
          rw [List.append_assoc]
          exact List.perm_append_comm.append_left _
        _ = f a ++ l.flatMap f ++ added := (List.append_assoc ..).symm
    · rw [List.flatMap_cons, List.flatMap_cons, List.append_assoc]
      exact (perm_flatMap_changeOrAppend hchange hnew l).append_left _

theorem forall_mem_changeOrAppend {P : α → Prop} (hchange : ∀ a, P a → P (change a)) (hnew : P new) :
    ∀ {l : List α}, (∀ a ∈ l, P a) → ∀ a ∈ changeOrAppend fits change new l, P a
  | [], _ => by simpa [changeOrAppend] using hnew
  | a :: l, h => by
    rw [List.forall_mem_cons] at h
    unfold changeOrAppend
    split
    · rw [List.forall_mem_cons]
      exact ⟨hchange a h.1, h.2⟩
    · rw [List.forall_mem_cons]
      exact ⟨h.1, forall_mem_changeOrAppend hchange hnew h.2⟩

end ChangeOrAppend

variable {M : Type}

/-! ## Sites and groups -/

/-- What the site holds. -/
def CaptureSite.atoms (site : CaptureSite) : List Atom :=
  site.operations.map fun op => ⟨site.path, site.component, op⟩

namespace CaptureGroup

/-- What the group holds, each atom with the group's marker. -/
def entries (group : CaptureGroup M) : List (M × Atom) :=
  (group.sites.flatMap CaptureSite.atoms).map (group.marker, ·)

theorem perm_entries_add (c : Comparison) (group : CaptureGroup M) :
    (group.add c).entries.Perm (group.entries ++ c.atoms.map (group.marker, ·)) := by
  rw [entries, entries, ← List.map_append]
  refine List.Perm.map _ (perm_flatMap_changeOrAppend ?_ rfl group.sites)
  rintro ⟨path, component, operations⟩ hfits
  simp only [CaptureSite.fits, Bool.and_eq_true, beq_iff_eq] at hfits
  obtain ⟨rfl, rfl⟩ := hfits
  simp only [CaptureSite.add, CaptureSite.atoms, List.map_append]
  exact .refl _

/-- Every site of the group stands on a path of the list. -/
def StandsOn (paths : List String) (group : CaptureGroup M) : Prop := ∀ site ∈ group.sites, site.path ∈ paths

theorem StandsOn.add {paths : List String} {c : Comparison} {group : CaptureGroup M} (h : group.StandsOn paths)
    (hc : c.path ∈ paths) : (group.add c).StandsOn paths := by
  have hadd : ∀ site : CaptureSite, site.path ∈ paths → (site.add c).path ∈ paths := fun _ hsite => hsite
  exact forall_mem_changeOrAppend hadd hc h

end CaptureGroup

namespace Capture

/-- The capture is for such operations on such a path. -/
structure Covers (capture : Capture M) (a : Atom) : Prop where
  path : capture.path = Path.wildcard ∨ capture.path = a.path
  operator : a.operation.operator ∈ capture.operators
  kind : a.operation.operand.kind = capture.kind

theorem Covers.of_accepts {capture : Capture M} {c : Comparison} (h : capture.accepts c = true) :
    ∀ a ∈ c.atoms, capture.Covers a := by
  intro a ha
  obtain ⟨hpath, -, hop⟩ := Comparison.mem_atoms.mp ha
  simp only [accepts, Bool.and_eq_true, Bool.or_eq_true, beq_iff_eq, List.all_eq_true, List.contains_iff_mem] at h
  obtain ⟨hoperator, hkind⟩ := h.2 a.operation hop
  exact ⟨hpath ▸ h.1, hoperator, hkind⟩

theorem accepts_single {capture : Capture M} {path : String} {op : Operation} {component : Option Component} :
    capture.accepts ⟨path, [op], component⟩ = true ↔ capture.Covers ⟨path, component, op⟩ := by
  constructor
  · exact fun h => Covers.of_accepts h _ (by simp [Comparison.atoms])
  · rintro ⟨hpath, hoperator, hkind⟩
    simp only [accepts, List.all_cons, List.all_nil, Bool.and_true, Bool.and_eq_true, Bool.or_eq_true, beq_iff_eq,
      List.contains_iff_mem]
    exact ⟨hpath, hoperator, hkind⟩

end Capture

/-! ## Nodes -/

/-- The groups hold the comparisons: their atoms, each under the marker of a capture that covers it, at sites
on their paths. -/
structure SortsNode (captures : List (Capture M)) (comparisons : List Comparison) (groups : List (CaptureGroup M)) :
    Prop where
  atoms : Expression.SameAtoms comparisons ((groups.flatMap CaptureGroup.entries).map Prod.snd)
  covered : ∀ x ∈ groups.flatMap CaptureGroup.entries, ∃ capture ∈ captures, capture.marker = x.1 ∧ capture.Covers x.2
  sites : ∀ group ∈ groups, group.StandsOn (comparisons.map (·.path))

theorem sortsNode_nil (captures : List (Capture M)) : SortsNode captures [] [] :=
  ⟨.refl _, by simp, by simp⟩

/-- Every entry is an atom of a comparison, under the marker of a capture that covers it. -/
theorem SortsNode.of_mem_entries {captures : List (Capture M)} {comparisons : List Comparison}
    {groups : List (CaptureGroup M)} (h : SortsNode captures comparisons groups) {x : M × Atom}
    (hx : x ∈ groups.flatMap CaptureGroup.entries) :
    ∃ c ∈ comparisons, x.2 ∈ c.atoms ∧ ∃ capture ∈ captures, capture.marker = x.1 ∧ capture.Covers x.2 := by
  obtain ⟨c, hc, ha⟩ := List.mem_flatMap.mp (h.atoms.mem_iff.mp (List.mem_map_of_mem hx))
  exact ⟨c, hc, ha, h.covered x hx⟩

variable [DecidableEq M]

theorem perm_entries_capture (tree : CaptureTree M) (marker : M) (c : Comparison) :
    ((tree.capture marker c).groups.flatMap CaptureGroup.entries).Perm
      (tree.groups.flatMap CaptureGroup.entries ++ c.atoms.map (marker, ·)) := by
  refine perm_flatMap_changeOrAppend ?_ ?_ tree.groups
  · intro group hfits
    rw [← beq_iff_eq.mp hfits]
    exact group.perm_entries_add c
  · simp [CaptureGroup.entries, CaptureGroup.add, changeOrAppend, CaptureSite.ofComparison, CaptureSite.atoms,
      Comparison.atoms]

/-- **Recording a comparison sorts it**, and leaves what was sorted before. -/
theorem SortsNode.capture {captures : List (Capture M)} {done : List Comparison} {tree : CaptureTree M}
    {capture : Capture M} {c : Comparison} (h : SortsNode captures done tree.groups) (hmem : capture ∈ captures)
    (haccepts : capture.accepts c = true) :
    SortsNode captures (done ++ [c]) (tree.capture capture.marker c).groups where
  atoms := by
    rw [Expression.SameAtoms, List.flatMap_append, List.flatMap_singleton]
    refine ((perm_entries_capture tree capture.marker c).map Prod.snd).trans ?_
    rw [List.map_append, List.map_map]
    simpa [Function.comp_def] using h.atoms.append_right c.atoms
  covered := by
    intro x hx
    rcases List.mem_append.mp ((perm_entries_capture tree capture.marker c).mem_iff.mp hx) with hx | hx
    · exact h.covered x hx
    · obtain ⟨a, ha, rfl⟩ := List.mem_map.mp hx
      exact ⟨capture, hmem, rfl, Capture.Covers.of_accepts haccepts a ha⟩
  sites := by
    have hc : c.path ∈ (done ++ [c]).map (·.path) := by simp
    have hdone : ∀ group ∈ tree.groups, group.StandsOn ((done ++ [c]).map (·.path)) := by
      intro group hgroup site hsite
      rw [List.map_append]
      exact List.mem_append_left _ (h.sites group hgroup site hsite)
    refine forall_mem_changeOrAppend (fun _ hgroup => hgroup.add hc) (CaptureGroup.StandsOn.add ?_ hc) hdone
    simp [CaptureGroup.StandsOn]

end DocumentFilter
