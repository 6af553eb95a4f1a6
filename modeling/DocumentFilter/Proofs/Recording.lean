/-
What a node has recorded, looked up by marker, path and component.

Groups and sites are tables with keys: recording a comparison changes the entry
with its key, or makes one, and no other. So of comparisons that are recorded
one after the other every entry holds the operations of those that came under
its key, in this order, and there is no entry for any other key (`Records`).
-/
import DocumentFilter.Proofs.Capture
import Mathlib.Data.List.Nodup

namespace DocumentFilter

/-! ## Tables with keys -/

section Table

variable {α κ : Type} [DecidableEq κ]

/-- The change and the new entry are for one key: those that fit are the entries with it. -/
structure ForKey (key : α → κ) (k : κ) (fits : α → Bool) (change : α → α) (new : α) : Prop where
  fits : ∀ a, fits a = true ↔ key a = k
  change : ∀ a, key (change a) = key a
  new : key new = k

variable {key : α → κ} {k : κ} {fits : α → Bool} {change : α → α} {new : α}

theorem find?_changeOrAppend_self (h : ForKey key k fits change new) : ∀ l : List α,
    (changeOrAppend fits change new l).find? (key · = k) = some (((l.find? (key · = k)).map change).getD new)
  | [] => by simp [changeOrAppend, h.new]
  | a :: l => by
    unfold changeOrAppend
    by_cases hkey : key a = k
    · rw [if_pos ((h.fits a).mpr hkey), List.find?_cons_of_pos (by simp [h.change, hkey]),
        List.find?_cons_of_pos (by simp [hkey])]
      rfl
    · rw [if_neg (mt (h.fits a).mp hkey), List.find?_cons_of_neg (by simp [hkey]),
        List.find?_cons_of_neg (by simp [hkey]), find?_changeOrAppend_self h l]

theorem find?_changeOrAppend_other (h : ForKey key k fits change new) {k' : κ} (hne : k' ≠ k) : ∀ l : List α,
    (changeOrAppend fits change new l).find? (key · = k') = l.find? (key · = k')
  | [] => by simp [changeOrAppend, h.new, hne.symm]
  | a :: l => by
    unfold changeOrAppend
    by_cases hkey : key a = k
    · rw [if_pos ((h.fits a).mpr hkey), List.find?_cons_of_neg (by simp [h.change, hkey, hne.symm]),
        List.find?_cons_of_neg (by simp [hkey, hne.symm])]
    · rw [if_neg (mt (h.fits a).mp hkey), List.find?_cons, List.find?_cons, find?_changeOrAppend_other h hne l]

theorem map_key_changeOrAppend (h : ForKey key k fits change new) : ∀ l : List α,
    (changeOrAppend fits change new l).map key = if k ∈ l.map key then l.map key else l.map key ++ [k]
  | [] => by simp [changeOrAppend, h.new]
  | a :: l => by
    unfold changeOrAppend
    by_cases hkey : key a = k
    · rw [if_pos ((h.fits a).mpr hkey), List.map_cons, List.map_cons, h.change, if_pos (by simp [hkey])]
    · simp only [if_neg (mt (h.fits a).mp hkey), List.map_cons, map_key_changeOrAppend h l, List.mem_cons,
        Ne.symm hkey, false_or]
      split <;> rfl

theorem nodup_changeOrAppend (h : ForKey key k fits change new) {l : List α} (hl : (l.map key).Nodup) :
    ((changeOrAppend fits change new l).map key).Nodup := by
  rw [map_key_changeOrAppend h]
  split
  · exact hl
  · rename_i hk
    exact hl.append (List.nodup_singleton k) (List.disjoint_singleton.mpr hk)

end Table

/-! ## Sites and groups -/

/-- Where a comparison is recorded in its group. -/
def Comparison.key (c : Comparison) : String × Option Component := (c.path, c.component)

/-- What is recorded at the site. -/
def CaptureSite.key (site : CaptureSite) : String × Option Component := (site.path, site.component)

theorem CaptureSite.forKey (c : Comparison) : ForKey key c.key (fits c) (add c) (ofComparison c) where
  fits := fun site => by simp [fits, key, Comparison.key]
  change := fun _ => rfl
  new := rfl

variable {M : Type}

namespace CaptureGroup

/-- The operations that the group has for a path and component. -/
def operations? (group : CaptureGroup M) (key : String × Option Component) : Option (List Operation) :=
  (group.sites.find? (·.key = key)).map (·.operations)

theorem operations?_add_self (c : Comparison) (group : CaptureGroup M) :
    (group.add c).operations? c.key = some ((group.operations? c.key).getD [] ++ c.operations) := by
  rw [operations?, add, find?_changeOrAppend_self (CaptureSite.forKey c), operations?]
  cases group.sites.find? (·.key = c.key) <;> rfl

theorem operations?_add_other {c : Comparison} {key : String × Option Component} (hne : key ≠ c.key)
    (group : CaptureGroup M) : (group.add c).operations? key = group.operations? key := by
  rw [operations?, add, find?_changeOrAppend_other (CaptureSite.forKey c) hne, operations?]

/-- The group has sites, with a path and component each of its own. -/
structure IsTable (group : CaptureGroup M) : Prop where
  nonempty : group.sites ≠ []
  nodup : (group.sites.map CaptureSite.key).Nodup

theorem isTable_add (c : Comparison) {group : CaptureGroup M} (h : (group.sites.map CaptureSite.key).Nodup) :
    (group.add c).IsTable where
  nonempty := by
    unfold add
    cases group.sites with
    | nil => simp [changeOrAppend]
    | cons site sites =>
      simp only [changeOrAppend]
      split <;> simp
  nodup := nodup_changeOrAppend (CaptureSite.forKey c) h

theorem forKey (marker : M) [DecidableEq M] (c : Comparison) :
    ForKey CaptureGroup.marker marker (·.marker == marker) (add c) (add c ⟨marker, []⟩) where
  fits := fun _ => beq_iff_eq
  change := fun _ => rfl
  new := rfl

end CaptureGroup

/-! ## Nodes -/

variable [DecidableEq M]

/-- The operations that groups have recorded under a marker for a path and component. -/
def recorded? (groups : List (CaptureGroup M)) (marker : M) (key : String × Option Component) :
    Option (List Operation) :=
  (groups.find? (·.marker = marker)).bind (·.operations? key)

theorem recorded?_capture (tree : CaptureTree M) (marker : M) (c : Comparison) (marker' : M)
    (key : String × Option Component) : recorded? (tree.capture marker c).groups marker' key =
      if marker' = marker ∧ key = c.key then some ((recorded? tree.groups marker' key).getD [] ++ c.operations)
      else recorded? tree.groups marker' key := by
  by_cases hmarker : marker' = marker
  · subst hmarker
    have hgroup : recorded? (tree.capture marker' c).groups marker' key =
        (((tree.groups.find? (·.marker = marker')).getD ⟨marker', []⟩).add c).operations? key := by
      rw [recorded?, CaptureTree.capture, find?_changeOrAppend_self (CaptureGroup.forKey marker' c)]
      cases tree.groups.find? (·.marker = marker') <;> rfl
    have hbefore : recorded? tree.groups marker' key =
        ((tree.groups.find? (·.marker = marker')).getD ⟨marker', []⟩).operations? key := by
      rw [recorded?]
      cases tree.groups.find? (·.marker = marker') <;> rfl
    rw [hgroup, hbefore]
    by_cases hkey : key = c.key
    · rw [if_pos ⟨rfl, hkey⟩, hkey, CaptureGroup.operations?_add_self]
    · rw [if_neg fun h => hkey h.2, CaptureGroup.operations?_add_other hkey]
  · rw [if_neg fun h => hmarker h.1, recorded?, CaptureTree.capture,
      find?_changeOrAppend_other (CaptureGroup.forKey marker c) hmarker, recorded?]

/-- A comparison with the capture that took it, the one at a position of the declared ones. -/
structure Claim (M : Type) where
  comparison : Comparison
  position : Nat
  capture : Capture M

/-- The comparisons on a path and component that captures with the marker took, in order. -/
def claimsUnder (own : List (Claim M)) (marker : M) (key : String × Option Component) : List (Claim M) :=
  own.filter fun claim => claim.capture.marker = marker ∧ claim.comparison.key = key

/-- Their operations, one comparison after the other; none if there is no such comparison. -/
def gathered? (own : List (Claim M)) (marker : M) (key : String × Option Component) : Option (List Operation) :=
  match claimsUnder own marker key with
  | [] => none
  | claims => some (claims.flatMap (·.comparison.operations))

theorem gathered?_append (own : List (Claim M)) (claim : Claim M) (marker : M) (key : String × Option Component) :
    gathered? (own ++ [claim]) marker key =
      if claim.capture.marker = marker ∧ claim.comparison.key = key then
        some ((gathered? own marker key).getD [] ++ claim.comparison.operations)
      else gathered? own marker key := by
  unfold gathered?
  by_cases hunder : claim.capture.marker = marker ∧ claim.comparison.key = key
  · have hclaims : claimsUnder (own ++ [claim]) marker key = claimsUnder own marker key ++ [claim] := by
      simp [claimsUnder, hunder]
    rw [if_pos hunder, hclaims]
    cases claimsUnder own marker key <;> simp
  · have hclaims : claimsUnder (own ++ [claim]) marker key = claimsUnder own marker key := by
      simp only [claimsUnder, List.filter_append]
      rw [List.filter_cons_of_neg (by simpa using hunder), List.filter_nil, List.append_nil]
    rw [if_neg hunder, hclaims]

/-- The groups record what was taken, and nothing else: one group for each marker, one site in it for each path and
component, and there the operations of what was taken under them, in order. -/
structure Records (own : List (Claim M)) (groups : List (CaptureGroup M)) : Prop where
  markers : (groups.map (·.marker)).Nodup
  sites : ∀ group ∈ groups, group.IsTable
  operations : ∀ marker path component,
    recorded? groups marker (path, component) = gathered? own marker (path, component)

theorem records_nil : Records ([] : List (Claim M)) [] := ⟨by simp, by simp, fun _ _ _ => rfl⟩

theorem Records.capture {own : List (Claim M)} {tree : CaptureTree M} (h : Records own tree.groups)
    (claim : Claim M) : Records (own ++ [claim]) (tree.capture claim.capture.marker claim.comparison).groups where
  markers := nodup_changeOrAppend (CaptureGroup.forKey claim.capture.marker claim.comparison) h.markers
  sites := by
    refine forall_mem_changeOrAppend ?_ (CaptureGroup.isTable_add _ (by simp)) h.sites
    exact fun group hgroup => CaptureGroup.isTable_add _ hgroup.nodup
  operations := by
    intro marker path component
    rw [recorded?_capture, gathered?_append, h.operations]
    simp only [eq_comm]

end DocumentFilter
