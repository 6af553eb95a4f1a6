/-
Index rules, read by segments.

A rule is compared with a path as text: it covers what it is, and what it begins
if a dot follows. Reading a path forgets what was read once a segment ends, so
behind the text of a rule, itself a path, the dot ends the rule's last segment
and is never the second half of an escape (`segmentsFrom_written_append`). So a
rule covers the paths whose segments begin with its own (`covers_iff_isPrefix`),
which is all that an index looks at.
-/
import DocumentFilter.Proofs.Outcome
import DocumentFilter.Proofs.Path
import DocumentFilter.Schema.Collection

namespace DocumentFilter

namespace Path

/-! ## Segments behind segments -/

/-- Segments behind segments are written behind a dot. -/
theorem written_append {head tail : List Segment} (hhead : head ≠ []) (htail : tail ≠ []) :
    written (head ++ tail) = written head ++ '.' :: written tail := by
  induction head with
  | nil => exact absurd rfl hhead
  | cons segment others ih =>
    cases others with
    | nil =>
      obtain ⟨next, tail, rfl⟩ := List.exists_cons_of_ne_nil htail
      rw [List.singleton_append, written_cons_cons, written_singleton]
    | cons next others =>
      have hothers := ih (List.cons_ne_nil _ _)
      rw [List.cons_append, List.cons_append, written_cons_cons, ← List.cons_append, hothers, written_cons_cons,
        List.append_assoc, List.cons_append]

/-- Behind segments and a dot a path is read afresh. -/
theorem segmentsFrom_written_append {head : List Segment} (hhead : head ≠ []) (hfull : ∀ s ∈ head, s ≠ [])
    (rest : List Char) :
    segmentsFrom [] (written head ++ '.' :: rest) = (segmentsFrom [] rest).map (head ++ ·) := by
  induction head with
  | nil => exact absurd rfl hhead
  | cons segment others ih =>
    rw [List.forall_mem_cons] at hfull
    have hdot (rest : List Char) :
        segmentsFrom segment ('.' :: rest) = (segmentsFrom [] rest).map (segment :: ·) := by
      simp [segmentsFrom, hfull.1]
    cases others with
    | nil =>
      rw [written_singleton, segmentsFrom_escape, List.nil_append, hdot]
      rfl
    | cons next others =>
      rw [written_cons_cons, List.append_assoc, segmentsFrom_escape, List.nil_append, List.cons_append, hdot,
        ih (List.cons_ne_nil _ _) hfull.2]
      cases segmentsFrom [] rest <;> rfl

/-- The text of a path is its segments, written. -/
theorem toList_of_segments? {path : String} {segments : List Segment} (h : segments? path = .ok segments) :
    path.toList = written segments := by
  rw [(segments?_eq_ok.mp h).2.2]
  exact String.toList_ofList

/-- **A rule covers the paths whose segments begin with its own.** -/
theorem covers_iff_isPrefix {rule path : String} {head segments : List Segment} (hwild : rule ≠ wildcard)
    (hrule : segments? rule = .ok head) (hpath : segments? path = .ok segments) :
    covers rule path = true ↔ head <+: segments := by
  obtain ⟨hhead, hfull, -⟩ := segments?_eq_ok.mp hrule
  obtain ⟨hne, hsegments, -⟩ := segments?_eq_ok.mp hpath
  simp only [covers, Bool.or_eq_true, beq_iff_eq, hwild, false_or, List.isPrefixOf_iff_prefix]
  constructor
  · rintro (rfl | ⟨rest, hrest⟩)
    · have hsame : head = segments := Except.ok.inj (hrule.symm.trans hpath)
      exact hsame ▸ List.prefix_rfl
    · have hread := segmentsFrom_written hne hsegments
      rw [← toList_of_segments? hpath, ← hrest, toList_of_segments? hrule, List.append_assoc, List.singleton_append,
        segmentsFrom_written_append hhead hfull, map_eq_ok] at hread
      obtain ⟨tail, -, htail⟩ := hread
      exact ⟨tail, htail⟩
  · rintro ⟨tail, rfl⟩
    by_cases htail : tail = []
    · left
      rw [← String.toList_inj, toList_of_segments? hrule, toList_of_segments? hpath, htail, List.append_nil]
    · right
      refine ⟨written tail, ?_⟩
      rw [toList_of_segments? hrule, toList_of_segments? hpath, written_append hhead htail, List.append_assoc,
        List.singleton_append]

/-- The rule covers what begins with the segments: it is the wildcard, or a path whose segments these are the first
of. -/
def CoversSegments (rule : String) (segments : List Segment) : Prop :=
  rule = wildcard ∨ ∃ head, segments? rule = .ok head ∧ head <+: segments

/-- The rule is the wildcard or a path. -/
def IsRule (rule : String) : Prop := rule = wildcard ∨ ∃ head, segments? rule = .ok head

theorem covers_iff_coversSegments {rule path : String} {segments : List Segment} (hrule : IsRule rule)
    (hpath : segments? path = .ok segments) : covers rule path = true ↔ CoversSegments rule segments := by
  by_cases hwild : rule = wildcard
  · simp [covers, CoversSegments, hwild]
  · obtain ⟨head, hhead⟩ := hrule.resolve_left hwild
    rw [covers_iff_isPrefix hwild hhead hpath, CoversSegments, or_iff_right hwild]
    constructor
    · exact fun h => ⟨head, hhead, h⟩
    · rintro ⟨head', hhead', h⟩
      rwa [Except.ok.inj (hhead.symm.trans hhead')]

/-- What is covered is covered with all that lies below. -/
theorem CoversSegments.append {rule : String} {segments : List Segment} (h : CoversSegments rule segments)
    (tail : List Segment) : CoversSegments rule (segments ++ tail) :=
  h.imp_right fun ⟨head, hhead, hprefix⟩ => ⟨head, hhead, hprefix.trans (List.prefix_append segments tail)⟩

end Path

/-! ## Indexes -/

namespace Indexing

open DocumentFilter.Path

/-- All rules of the index. -/
def rules (indexing : Indexing) : List String := indexing.allow.getD [] ++ indexing.deny.getD []

/-- The index decides on a path by its segments: its rules cover a path with all below it, and none besides. -/
structure DecidesBySegments (indexing : Indexing) : Prop where
  covers : ∀ rule ∈ indexing.rules, ∀ path segments, segments? path = .ok segments →
    (Path.covers rule path = true ↔ CoversSegments rule segments)
  below : ∀ rule ∈ indexing.rules, ∀ path below segments tail, segments? path = .ok segments →
    segments? below = .ok (segments ++ tail) → Path.covers rule path = true → Path.covers rule below = true
  beside : ∀ rule ∈ indexing.rules, rule ≠ wildcard → ∀ path parent name other tail,
    segments? rule = .ok (parent ++ [name]) → other ≠ name → segments? path = .ok (parent ++ other :: tail) →
    Path.covers rule path = false
  allowed : ∀ rules, indexing.allow = some rules → ∀ path segments, segments? path = .ok segments →
    (indexing.isIndexed path = true ↔ ∃ rule ∈ rules, CoversSegments rule segments)
  denied : ∀ rules, indexing.allow = none → indexing.deny = some rules → ∀ path segments,
    segments? path = .ok segments → (indexing.isIndexed path = true ↔ ¬ ∃ rule ∈ rules, CoversSegments rule segments)
  unrestricted : indexing.allow = none → indexing.deny = none → ∀ path, indexing.isIndexed path = true

theorem isIndexed_of_allow {indexing : Indexing} {rules : List String} (hallow : indexing.allow = some rules)
    (path : String) : indexing.isIndexed path = rules.any (Path.covers · path) := by
  rw [isIndexed, hallow]

theorem isIndexed_of_deny {indexing : Indexing} {rules : List String} (hallow : indexing.allow = none)
    (hdeny : indexing.deny = some rules) (path : String) :
    indexing.isIndexed path = !rules.any (Path.covers · path) := by
  rw [isIndexed, hallow, hdeny]

/-- **Index rules match by whole segments**: a rule other than the wildcard covers the paths whose segments begin with
its own, and what an index of such rules and the wildcard decides follows from that. -/
theorem decides_bySegments :
    (∀ rule path head segments, rule ≠ wildcard → segments? rule = .ok head → segments? path = .ok segments →
      (Path.covers rule path = true ↔ head <+: segments)) ∧
      ∀ indexing : Indexing, (∀ rule ∈ indexing.rules, IsRule rule) → indexing.DecidesBySegments := by
  refine ⟨fun rule path head segments => covers_iff_isPrefix, fun indexing hrules => ?_⟩
  have hcovers : ∀ rule ∈ indexing.rules, ∀ path segments, segments? path = .ok segments →
      (Path.covers rule path = true ↔ CoversSegments rule segments) :=
    fun rule hrule path segments hpath => covers_iff_coversSegments (hrules rule hrule) hpath
  have hany {rules : List String} (hsubset : ∀ rule ∈ rules, rule ∈ indexing.rules) {path : String}
      {segments : List Segment} (hpath : segments? path = .ok segments) :
      rules.any (Path.covers · path) = true ↔ ∃ rule ∈ rules, CoversSegments rule segments := by
    rw [List.any_eq_true]
    exact exists_congr fun rule => and_congr_right fun hrule => hcovers rule (hsubset rule hrule) path segments hpath
  refine ⟨hcovers, ?_, ?_, ?_, ?_, ?_⟩
  · intro rule hrule path below segments tail hpath hbelow hcovered
    have hsegments := (hcovers rule hrule path segments hpath).mp hcovered
    exact (hcovers rule hrule below (segments ++ tail) hbelow).mpr (hsegments.append tail)
  · intro rule hrule hwild path parent name other tail hhead hne hpath
    rw [Bool.eq_false_iff, Ne, covers_iff_isPrefix hwild hhead hpath, List.prefix_append_right_inj,
      List.cons_prefix_cons]
    exact fun h => hne h.1.symm
  · intro rules hallow path segments hpath
    rw [isIndexed_of_allow hallow]
    exact hany (fun rule hrule => by simp [Indexing.rules, hallow, hrule]) hpath
  · intro rules hallow hdeny path segments hpath
    rw [isIndexed_of_deny hallow hdeny, Bool.not_eq_true', Bool.eq_false_iff, Ne]
    exact not_congr (hany (fun rule hrule => by simp [Indexing.rules, hdeny, hrule]) hpath)
  · intro hallow hdeny path
    rw [isIndexed, hallow, hdeny]

/-- Only the address and what is named `x&` are indexed. -/
def addresses : Indexing := { allow := some ["address", "x&&"] }

/-- Neither a longer name nor an escaped dot in one makes a path lie below a rule. -/
theorem decides_bySegments_addresses :
    (∀ rule ∈ addresses.rules, IsRule rule) ∧ Path.covers "address" "addressbook.city" = false ∧
      Path.covers "x&&" "x&&&.y" = false ∧ Path.covers "x&&" "x&&.y" = true ∧
      addresses.isIndexed "x&&.y.z" = true := by
  have hrules : ∀ rule ∈ addresses.rules, IsRule rule := by
    intro rule hrule
    have hcases : rule = "address" ∨ rule = "x&&" := by simpa [rules, addresses] using hrule
    rcases hcases with rfl | rfl
    · exact .inr ⟨_, rfl⟩
    · exact .inr ⟨_, rfl⟩
  obtain ⟨hcovers, hdecides⟩ := decides_bySegments
  have h := hdecides addresses hrules
  have hx : segments? "x&&" = .ok [['x', '&']] := rfl
  have haddress : segments? "address" = .ok [['a', 'd', 'd', 'r', 'e', 's', 's']] := rfl
  have hbeside : Path.covers "address" "addressbook.city" = false :=
    h.beside "address" (by decide) (by decide) _ [] _ ['a', 'd', 'd', 'r', 'e', 's', 's', 'b', 'o', 'o', 'k'] _
      haddress (by decide) rfl
  have hescaped : Path.covers "x&&" "x&&&.y" = false :=
    h.beside "x&&" (by decide) (by decide) _ [] _ ['x', '&', '.', 'y'] _ hx (by decide) rfl
  have hbelow : Path.covers "x&&" "x&&.y" = true :=
    (hcovers "x&&" "x&&.y" [['x', '&']] [['x', '&'], ['y']] (by decide) hx rfl).mpr ⟨[['y']], rfl⟩
  have hindexed : addresses.isIndexed "x&&.y.z" = true :=
    (h.allowed _ rfl "x&&.y.z" [['x', '&'], ['y'], ['z']] rfl).mpr ⟨"x&&", by decide, .inr ⟨_, hx, [['y'], ['z']], rfl⟩⟩
  exact ⟨hrules, hbeside, hescaped, hbelow, hindexed⟩

end Indexing

end DocumentFilter
