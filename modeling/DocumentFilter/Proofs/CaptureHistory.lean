/-
A node of captures as the record of what was done to it.

Groups and sites are both lists of entries with keys, to which recording adds
at the entry of one key. So both are, at any time, what was logged under each
key, entry by entry in the order in which the keys first came (`Gathers`): a
group gathers the comparisons captured under its marker, a site the operations
of those on its path and component. One capture keeps this at both levels
(`Gathers.capture`), adding a child leaves it alone, and so it holds of every
node that was ever made (`represents_of_gathers` puts it in terms of the calls).
-/
import DocumentFilter.Proofs.Distinct
import DocumentFilter.Proofs.Recording
import Mathlib.Algebra.GroupWithZero.Nat
import Mathlib.Data.List.Induction

namespace DocumentFilter

/-! ## Logs -/

section Logs

variable {α κ ι : Type} [DecidableEq κ]

/-- What was logged under the key, in order. -/
def logged (log : List (κ × ι)) (k : κ) : List ι := (log.filter (·.1 = k)).map Prod.snd

theorem logged_append_self (log : List (κ × ι)) (k : κ) (x : ι) : logged (log ++ [(k, x)]) k = logged log k ++ [x] := by
  simp [logged]

theorem logged_append_other (log : List (κ × ι)) {k k' : κ} (hne : k' ≠ k) (x : ι) :
    logged (log ++ [(k, x)]) k' = logged log k' := by
  simp [logged, hne.symm]

theorem logged_eq_nil {log : List (κ × ι)} {k : κ} (h : k ∉ log.map Prod.fst) : logged log k = [] := by
  rw [logged, List.map_eq_nil_iff, List.filter_eq_nil_iff]
  intro entry hentry hkey
  exact h (of_decide_eq_true hkey ▸ List.mem_map_of_mem hentry)

/-- The list has one entry for each key of the log, in the order in which the keys first came, and each holds what was
logged under its key. -/
structure Gathers (key : α → κ) (Holds : List ι → α → Prop) (log : List (κ × ι)) (l : List α) : Prop where
  keys : l.map key = (log.map Prod.fst).eraseDups
  holds : ∀ a ∈ l, Holds (logged log (key a)) a

variable {key : α → κ} {Holds : List ι → α → Prop} {log : List (κ × ι)} {l : List α}

theorem gathers_nil : Gathers key Holds [] [] := ⟨rfl, by simp⟩

theorem Gathers.nodup (h : Gathers key Holds log l) : (l.map key).Nodup := h.keys ▸ nodup_eraseDups _

theorem Gathers.mem_keys_iff (h : Gathers key Holds log l) {k : κ} : k ∈ l.map key ↔ k ∈ log.map Prod.fst := by
  rw [h.keys, List.mem_eraseDups]

/-- Of entries with keys of their own a search for a key finds the one that has it. -/
theorem find?_key_eq_some {k : κ} {a : α} (hl : (l.map key).Nodup) :
    l.find? (key · = k) = some a ↔ a ∈ l ∧ key a = k := by
  induction l with
  | nil => simp
  | cons b l ih =>
    rw [List.map_cons, List.nodup_cons] at hl
    by_cases hb : key b = k
    · rw [List.find?_cons_of_pos (by simpa using hb), Option.some.injEq]
      constructor
      · rintro rfl
        exact ⟨List.mem_cons_self, hb⟩
      · rintro ⟨ha, hkey⟩
        rcases List.mem_cons.mp ha with rfl | ha
        · rfl
        · exact absurd (hb.trans hkey.symm ▸ List.mem_map_of_mem ha) hl.1
    · rw [List.find?_cons_of_neg (by simpa using hb), ih hl.2, List.mem_cons]
      constructor
      · exact fun h => ⟨.inr h.1, h.2⟩
      · rintro ⟨rfl | ha, hkey⟩
        · exact absurd hkey hb
        · exact ⟨ha, hkey⟩

/-- **An entry more in the log**: the item is added where its key is, or makes a new entry at the end. -/
theorem Gathers.changeOrAppend {k : κ} {x : ι} {fits : α → Bool} {change : α → α} {new : α}
    (h : Gathers key Holds log l) (hkey : ForKey key k fits change new)
    (hchange : ∀ xs a, Holds xs a → Holds (xs ++ [x]) (change a)) (hnew : Holds [x] new) :
    Gathers key Holds (log ++ [(k, x)]) (DocumentFilter.changeOrAppend fits change new l) := by
  have hkeys : (DocumentFilter.changeOrAppend fits change new l).map key = ((log ++ [(k, x)]).map Prod.fst).eraseDups := by
    rw [map_key_changeOrAppend hkey, h.keys, List.map_append, List.map_singleton, eraseDups_append_singleton]
    simp only [List.mem_eraseDups]
  refine ⟨hkeys, fun a ha => ?_⟩
  have hfind : (DocumentFilter.changeOrAppend fits change new l).find? (key · = key a) = some a :=
    (find?_key_eq_some (hkeys ▸ nodup_eraseDups _)).mpr ⟨ha, rfl⟩
  by_cases hself : key a = k
  · rw [hself, find?_changeOrAppend_self hkey, Option.some.injEq] at hfind
    rw [hself, logged_append_self]
    cases hbefore : l.find? (key · = k) with
    | some b =>
      obtain ⟨hb, hbkey⟩ := (find?_key_eq_some h.nodup).mp hbefore
      rw [hbefore] at hfind
      cases hfind
      exact hchange _ b (hbkey ▸ h.holds b hb)
    | none =>
      -- The key is new, so nothing has been logged under it.
      have hfresh : k ∉ l.map key := by
        rw [List.mem_map]
        rintro ⟨b, hb, hbkey⟩
        simpa [hbkey] using List.find?_eq_none.mp hbefore b hb
      rw [hbefore] at hfind
      cases hfind
      rw [logged_eq_nil (mt h.mem_keys_iff.mpr hfresh)]
      exact hnew
  · rw [find?_changeOrAppend_other hkey hself, find?_key_eq_some h.nodup] at hfind
    rw [logged_append_other _ hself]
    exact h.holds a hfind.1

/-- The keys are those that came, each of them once, in the order in which they first came. -/
structure InFirstOrder (came keys : List κ) : Prop where
  nodup : keys.Nodup
  mem_iff : ∀ k, k ∈ keys ↔ k ∈ came
  ordered : keys.Pairwise fun a b => came.idxOf a < came.idxOf b

theorem Gathers.inFirstOrder (h : Gathers key Holds log l) : InFirstOrder (log.map Prod.fst) (l.map key) :=
  ⟨h.nodup, fun _ => h.mem_keys_iff, h.keys ▸ pairwise_idxOf_eraseDups _⟩

end Logs

/-! ## Groups -/

variable {M : Type}

namespace CaptureGroup

/-- The sites gather the operations of the comparisons by path and component. -/
def GathersSites (comparisons : List Comparison) (group : CaptureGroup M) : Prop :=
  Gathers CaptureSite.key (fun lists site => site.operations = lists.flatten)
    (comparisons.map fun c => (c.key, c.operations)) group.sites

theorem GathersSites.add {comparisons : List Comparison} {group : CaptureGroup M} (h : group.GathersSites comparisons)
    (c : Comparison) : (group.add c).GathersSites (comparisons ++ [c]) := by
  rw [GathersSites, List.map_append]
  refine Gathers.changeOrAppend h (CaptureSite.forKey c) (fun lists site hsite => ?_) ?_
  · simp [CaptureSite.add, hsite]
  · simp [CaptureSite.ofComparison]

theorem length_entries (group : CaptureGroup M) : group.entries.length = group.size := by
  simp [entries, size, CaptureSite.atoms, List.length_flatMap]

theorem sum_size_eq (groups : List (CaptureGroup M)) :
    (groups.map size).sum = (groups.flatMap entries).length := by
  simp only [List.length_flatMap, length_entries]

end CaptureGroup

variable [DecidableEq M]

/-- The groups gather the calls by marker. -/
def GathersCalls (calls : List (M × Comparison)) (groups : List (CaptureGroup M)) : Prop :=
  Gathers CaptureGroup.marker CaptureGroup.GathersSites calls groups

/-- **One more capture** is gathered with those before. -/
theorem GathersCalls.capture {calls : List (M × Comparison)} {tree : CaptureTree M} (h : GathersCalls calls tree.groups)
    (marker : M) (c : Comparison) : GathersCalls (calls ++ [(marker, c)]) (tree.capture marker c).groups := by
  have hempty : (⟨marker, []⟩ : CaptureGroup M).GathersSites [] := gathers_nil
  exact Gathers.changeOrAppend h (CaptureGroup.forKey marker c) (fun _ _ hgroup => hgroup.add c) (hempty.add c)

/-! ## Histories -/

/-- What is done to a node. -/
inductive CaptureStep (M : Type) where
  | capture (marker : M) (c : Comparison)
  | addChild (child : CaptureTree M)

namespace CaptureStep

/-- The call that the step is, if it is one. -/
def call? : CaptureStep M → Option (M × Comparison)
  | .capture marker c => some (marker, c)
  | .addChild _ => none

/-- The child that the step adds, if it adds one. -/
def child? : CaptureStep M → Option (CaptureTree M)
  | .capture _ _ => none
  | .addChild child => some child

/-- Does the step to a node. -/
def apply (tree : CaptureTree M) : CaptureStep M → CaptureTree M
  | .capture marker c => tree.capture marker c
  | .addChild child => tree.addChild child

end CaptureStep

namespace CaptureTree

/-- What has become of a new node. -/
def afterSteps (operator : Junction) (steps : List (CaptureStep M)) : CaptureTree M :=
  steps.foldl CaptureStep.apply (empty operator)

/-- The node represents the calls: it has one group for each marker, and that one site for each path and component
captured under the marker, in the order of the first captures; the site has the operations captured under both, in the
order of the calls; a search finds the group of a marker, and the sizes of the groups count the operations. -/
structure Represents (tree : CaptureTree M) (calls : List (M × Comparison)) : Prop where
  markers : InFirstOrder (calls.map Prod.fst) (tree.groups.map (·.marker))
  sites : ∀ group ∈ tree.groups,
    InFirstOrder ((logged calls group.marker).map (·.key)) (group.sites.map (·.key))
  operations : ∀ group ∈ tree.groups, ∀ site ∈ group.sites,
    site.operations = ((logged calls group.marker).filter (·.key = site.key)).flatMap (·.operations)
  found : ∀ marker, (∃ group, tree.group? marker = some group) ↔ marker ∈ calls.map Prod.fst
  group_eq : ∀ marker group, tree.group? marker = some group ↔ group ∈ tree.groups ∧ group.marker = marker
  size : (tree.groups.map (·.size)).sum = (calls.flatMap (·.2.operations)).length

section Represents

variable {calls : List (M × Comparison)} {tree : CaptureTree M}

/-- A node that gathers the calls represents them. -/
theorem represents_of_gathers (h : GathersCalls calls tree.groups)
    (hsize : (tree.groups.map (·.size)).sum = (calls.flatMap (·.2.operations)).length) : tree.Represents calls := by
  have hgroup (marker : M) (group : CaptureGroup M) :
      tree.group? marker = some group ↔ group ∈ tree.groups ∧ group.marker = marker := find?_key_eq_some h.nodup
  refine ⟨h.inFirstOrder, fun group hmem => ?_, fun group hmem site hsite => ?_, fun marker => ?_, hgroup, hsize⟩
  · have hsites := (h.holds group hmem).inFirstOrder
    rwa [List.map_map] at hsites
  · rw [(h.holds group hmem).holds site hsite, logged, List.filter_map, List.map_map, List.flatMap_def]
    rfl
  · rw [← h.mem_keys_iff, List.mem_map]
    exact exists_congr fun group => hgroup marker group

end Represents

/-- A capture adds its operations to what the groups hold. -/
theorem sum_size_capture (tree : CaptureTree M) (marker : M) (c : Comparison) :
    ((tree.capture marker c).groups.map (·.size)).sum = (tree.groups.map (·.size)).sum + c.operations.length := by
  rw [CaptureGroup.sum_size_eq, CaptureGroup.sum_size_eq, (perm_entries_capture tree marker c).length_eq,
    List.length_append, List.length_map, Comparison.atoms, List.length_map]

/-- What a new node has become after some steps gathers the calls among them, and nothing else has changed but that
the children were added. -/
theorem afterSteps_gathers (operator : Junction) (steps : List (CaptureStep M)) :
    GathersCalls (steps.filterMap CaptureStep.call?) (afterSteps operator steps).groups ∧
      ((afterSteps operator steps).groups.map (·.size)).sum =
        ((steps.filterMap CaptureStep.call?).flatMap (·.2.operations)).length ∧
      (afterSteps operator steps).children = steps.filterMap CaptureStep.child? ∧
      (afterSteps operator steps).operator = operator := by
  induction steps using List.reverseRecOn with
  | nil => exact ⟨gathers_nil, rfl, rfl, rfl⟩
  | append_singleton steps step ih =>
    obtain ⟨hgathers, hsize, hchildren, hoperator⟩ := ih
    have hlast : afterSteps operator (steps ++ [step]) = step.apply (afterSteps operator steps) := by
      simp [afterSteps]
    rw [hlast]
    cases step with
    | capture marker c =>
      simp only [List.filterMap_append, List.filterMap_cons, List.filterMap_nil, CaptureStep.call?, CaptureStep.child?,
        List.append_nil, CaptureStep.apply]
      refine ⟨hgathers.capture marker c, ?_, hchildren, hoperator⟩
      rw [sum_size_capture, hsize]
      simp
    | addChild child =>
      simp only [List.filterMap_append, List.filterMap_cons, List.filterMap_nil, CaptureStep.call?, CaptureStep.child?,
        List.append_nil, CaptureStep.apply]
      exact ⟨hgathers, hsize, by rw [addChild, hchildren], hoperator⟩

/-- **A node represents the calls that were made on it**, however children were added in between: these it has as well,
in order, and nothing else. -/
theorem afterSteps_represents (operator : Junction) (steps : List (CaptureStep M)) :
    (afterSteps operator steps).Represents (steps.filterMap CaptureStep.call?) ∧
      (afterSteps operator steps).children = steps.filterMap CaptureStep.child? ∧
      (afterSteps operator steps).operator = operator := by
  obtain ⟨hgathers, hsize, hchildren, hoperator⟩ := afterSteps_gathers operator steps
  exact ⟨represents_of_gathers hgathers hsize, hchildren, hoperator⟩

example : (afterSteps .or [.capture "ages" (.single "age" .gte (.number (.int 18))), .addChild (empty .and),
      .capture "names" (.single "name" .ne .null), .capture "ages" (.single "size" .lt (.number (.int 3))),
      .capture "ages" (.single "age" .lt (.number (.int 65)))]).groups =
    [⟨"ages", [⟨"age", none, [⟨.gte, .number (.int 18)⟩, ⟨.lt, .number (.int 65)⟩]⟩,
        ⟨"size", none, [⟨.lt, .number (.int 3)⟩]⟩]⟩,
      ⟨"names", [⟨"name", none, [⟨.ne, .null⟩]⟩]⟩] := by decide

end CaptureTree

end DocumentFilter
