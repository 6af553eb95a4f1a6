/-
Paths and their segments. Taking a path apart and putting segments together
are inverse: `segments?` gives some segments exactly if there are any, none is
empty and the path is what `ofSegments` makes of them (`segments?_eq_ok`), so
a path that is accepted spells one list of segments (`accepted_iff_spelled`).
-/
import DocumentFilter.Path
import Mathlib.Data.List.Basic

namespace DocumentFilter

namespace Path

/-- The characters of the path of some segments. -/
def written (segments : List Segment) : List Char := ['.'].intercalate (segments.map escape)

@[simp]
theorem written_singleton (segment : Segment) : written [segment] = escape segment := by
  simp [written, List.intercalate]

@[simp]
theorem written_cons_cons (segment next : Segment) (others : List Segment) :
    written (segment :: next :: others) = escape segment ++ '.' :: written (next :: others) := by
  simp [written, List.intercalate]

@[simp]
theorem escape_append (a b : Segment) : escape (a ++ b) = escape a ++ escape b := List.flatMap_append

theorem escape_special {c : Char} (h : c = '.' ∨ c = '&') : escape [c] = ['&', c] := by
  rcases h with rfl | rfl <;> rfl

theorem escape_plain {c : Char} (hdot : c ≠ '.') (hamp : c ≠ '&') : escape [c] = [c] := by
  simp [escape, hdot, hamp]

theorem segmentsFrom_special {segment : Segment} {c : Char} (rest : List Char) (h : c = '.' ∨ c = '&') :
    segmentsFrom segment ('&' :: c :: rest) = segmentsFrom (segment ++ [c]) rest := by
  rcases h with rfl | rfl <;> simp [segmentsFrom]

theorem segmentsFrom_plain {segment : Segment} {c : Char} (rest : List Char) (hdot : c ≠ '.') (hamp : c ≠ '&') :
    segmentsFrom segment (c :: rest) = segmentsFrom (segment ++ [c]) rest := by
  rw [segmentsFrom]
  · exact fun h => absurd h hamp
  · exact fun _ _ h => absurd h hamp
  · exact fun h => absurd h hdot

/-- What is read of an escaped text is the text. -/
theorem segmentsFrom_escape (segment text : Segment) (rest : List Char) :
    segmentsFrom segment (escape text ++ rest) = segmentsFrom (segment ++ text) rest := by
  induction text generalizing segment with
  | nil => simp [escape]
  | cons c text ih =>
    have hsplit : escape (c :: text) = escape [c] ++ escape text := escape_append [c] text
    have hwhole : segment ++ c :: text = segment ++ [c] ++ text := List.append_cons ..
    rw [hsplit, hwhole, ← ih, List.append_assoc]
    by_cases hspecial : c = '.' ∨ c = '&'
    · rw [escape_special hspecial]
      exact segmentsFrom_special _ hspecial
    · obtain ⟨hdot, hamp⟩ := not_or.mp hspecial
      rw [escape_plain hdot hamp]
      exact segmentsFrom_plain _ hdot hamp

/-- Segments that are put together are read back. -/
theorem segmentsFrom_written {segments : List Segment} (hne : segments ≠ []) (hsegments : ∀ s ∈ segments, s ≠ []) :
    segmentsFrom [] (written segments) = .ok segments := by
  induction segments with
  | nil => exact absurd rfl hne
  | cons segment others ih =>
    rw [List.forall_mem_cons] at hsegments
    have hfirst : segment.isEmpty = false := by simpa using hsegments.1
    cases others with
    | nil =>
      have h := segmentsFrom_escape [] segment []
      rw [List.append_nil, List.nil_append] at h
      simp [h, segmentsFrom, hsegments.1]
    | cons next others =>
      have hothers := ih (by simp) hsegments.2
      rw [written_cons_cons, segmentsFrom_escape, List.nil_append]
      simp [segmentsFrom, hsegments.1, hothers, Except.map]

/-- What has been read is what was written, behind the segment's given beginning. -/
theorem written_of_segmentsFrom {segment : Segment} {chars : List Char} {segments : List Segment}
    (h : segmentsFrom segment chars = .ok segments) :
    segments ≠ [] ∧ (∀ s ∈ segments, s ≠ []) ∧ escape segment ++ chars = written segments := by
  fun_induction segmentsFrom segment chars generalizing segments with
  | case1 segment hempty => cases h
  | case2 segment hempty =>
    cases h
    simpa using hempty
  | case3 => cases h
  | case4 segment c rest hspecial ih =>
    have hspecial : c = '.' ∨ c = '&' := by simpa using hspecial
    obtain ⟨hne, hsegments, hwritten⟩ := ih h
    refine ⟨hne, hsegments, ?_⟩
    rw [← hwritten, escape_append, escape_special hspecial, List.append_assoc]
    rfl
  | case5 => cases h
  | case6 => cases h
  | case7 segment rest hempty ih =>
    cases hrest : segmentsFrom [] rest with
    | error problem =>
      rw [hrest] at h
      cases h
    | ok others =>
      rw [hrest] at h
      cases h
      obtain ⟨hne, hsegments, hwritten⟩ := ih hrest
      obtain ⟨next, others, rfl⟩ := List.exists_cons_of_ne_nil hne
      refine ⟨by simp, List.forall_mem_cons.mpr ⟨by simpa using hempty, hsegments⟩, ?_⟩
      rw [written_cons_cons, ← hwritten]
      rfl
  | case8 segment c rest hsingle hspecial hdot ih =>
    have hamp : c ≠ '&' := by
      rintro rfl
      cases rest with
      | nil => exact hsingle rfl rfl
      | cons next rest => exact hspecial next rest rfl rfl
    obtain ⟨hne, hsegments, hwritten⟩ := ih h
    refine ⟨hne, hsegments, ?_⟩
    rw [← hwritten, escape_append, escape_plain hdot hamp, List.append_assoc]
    rfl

/-- **Exactly the paths put together from segments can be taken apart**, into those very segments. -/
theorem segments?_eq_ok {path : String} {segments : List Segment} : segments? path = .ok segments ↔
    segments ≠ [] ∧ (∀ s ∈ segments, s ≠ []) ∧ path = ofSegments segments := by
  have hpath : path = ofSegments segments ↔ path.toList = written segments := by
    rw [ofSegments, ← String.toList_inj, String.toList_ofList]
    rfl
  rw [hpath]
  unfold segments?
  constructor
  · intro h
    split at h
    · cases h
    · exact written_of_segmentsFrom h
  · rintro ⟨hne, hsegments, hwritten⟩
    have hread := segmentsFrom_written hne hsegments
    rw [← hwritten] at hread
    split
    · rename_i hempty
      rw [hempty] at hread
      cases hread
    · exact hread

/-- The path is put together from some segments, none of which is empty. -/
def IsWellFormed (path : String) : Prop :=
  ∃ segments : List Segment, segments ≠ [] ∧ (∀ s ∈ segments, s ≠ []) ∧ path = ofSegments segments

theorem isWellFormed_iff {path : String} : IsWellFormed path ↔ ∃ segments, segments? path = .ok segments :=
  exists_congr fun _ => segments?_eq_ok.symm

/-- The path is put together from the segments, of which there is at least one and none is empty. -/
def Spells (segments : List Segment) (path : String) : Prop :=
  segments ≠ [] ∧ (∀ s ∈ segments, s ≠ []) ∧ path = ofSegments segments

/-- **The paths that are accepted are those put together from segments**, each from a single list of segments, and
taking apart and putting together undo each other. -/
theorem accepted_iff_spelled (path : String) :
    ((∃ segments, segments? path = .ok segments) ↔ ∃ segments, Spells segments path) ∧
      (∀ segments segments', Spells segments path → Spells segments' path → segments = segments') ∧
      (∀ segments, segments? path = .ok segments → ofSegments segments = path) ∧
      ∀ segments, segments ≠ [] → (∀ s ∈ segments, s ≠ []) → segments? (ofSegments segments) = .ok segments := by
  refine ⟨isWellFormed_iff.symm, fun segments segments' h h' => ?_, fun segments h => ?_, fun segments hne hfull => ?_⟩
  · exact Except.ok.inj ((segments?_eq_ok.mpr h).symm.trans (segments?_eq_ok.mpr h'))
  · exact (segments?_eq_ok.mp h).2.2.symm
  · exact segments?_eq_ok.mpr ⟨hne, hfull, rfl⟩

/-- A dot separates segments behind an even run of `&`, and belongs to its segment behind an odd one. -/
theorem accepted_iff_spelled_escapes :
    segments? "a&&.b&&&.c" = .ok [['a', '&'], ['b', '&', '.', 'c']] ∧
      (∀ segments, Spells segments "a&&.b&&&.c" → segments = [['a', '&'], ['b', '&', '.', 'c']]) ∧
      ¬ ∃ segments, Spells segments "a&&&.." := by
  obtain ⟨-, hunique, -, hread⟩ := accepted_iff_spelled "a&&.b&&&.c"
  have hspelled : Spells [['a', '&'], ['b', '&', '.', 'c']] "a&&.b&&&.c" := ⟨by decide, by decide, by decide⟩
  refine ⟨hread _ hspelled.1 hspelled.2.1, fun segments h => hunique _ _ h hspelled, ?_⟩
  rw [← (accepted_iff_spelled "a&&&..").1]
  intro ⟨segments, h⟩
  have hrefused : segments? "a&&&.." = .error .emptySegment := by decide
  cases hrefused.symm.trans h

end Path

end DocumentFilter
