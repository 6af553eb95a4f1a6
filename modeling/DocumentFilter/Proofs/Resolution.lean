/-
Building and resolving, whatever the backend.

A backend says which primitive an atom becomes under a marker. If each group
becomes the primitives of its entries, then the tree that is built from a
sorted filter can be read back, node by node, into what the filter asks
(`exists_reading`), and a build that fails does so at one of the groups.
Of a rule table it is known which rule's tree or failure is the outcome.
-/
import DocumentFilter.Proofs.Matcher
import DocumentFilter.Resolution.Resolved
import DocumentFilter.Resolution.RuleTable

namespace DocumentFilter

variable {M F : Type}

namespace FilterTree

section Build

variable {primitives : CaptureGroup M → Except FilterError (List F)}

/-- The primitives of groups, one group after the other. -/
def Makes (primitives : CaptureGroup M → Except FilterError (List F)) (groups : List (CaptureGroup M))
    (own : List F) : Prop :=
  ∃ lists, List.Forall₂ (fun group list => primitives group = .ok list) groups lists ∧ own = lists.flatten

mutual
theorem parallel_of_build : ∀ {t : CaptureTree M} {tree : FilterTree F}, build primitives t = .ok tree →
    t.grouped.Parallel (Makes primitives) tree
  | ⟨j, groups, children⟩, tree, h => by
    simp only [build, bind_eq_ok, pure_eq_ok, mapM_eq_ok] at h
    obtain ⟨trees, htrees, lists, hlists, rfl⟩ := h
    exact ⟨rfl, ⟨lists, hlists, rfl⟩, allParallel_of_buildAll htrees⟩

theorem allParallel_of_buildAll : ∀ {ts : List (CaptureTree M)} {trees : List (FilterTree F)},
    buildAll primitives ts = .ok trees → AllParallel (Makes primitives) (CaptureTree.groupedAll ts) trees
  | [], trees, h => by
    cases h
    trivial
  | t :: ts, trees, h => by
    simp only [buildAll, bind_eq_ok, pure_eq_ok] at h
    obtain ⟨first, hfirst, others, hothers, rfl⟩ := h
    exact ⟨parallel_of_build hfirst, allParallel_of_buildAll hothers⟩
end

mutual
/-- A build fails only at a group that cannot be made into primitives. -/
theorem build_eq_error {err : FilterError} : ∀ {t : CaptureTree M}, build primitives t = .error err →
    ∃ group ∈ t.grouped.filters, primitives group = .error err
  | ⟨j, groups, children⟩, h => by
    simp only [build, bind_eq_error] at h
    obtain h | ⟨_, -, h | ⟨_, -, h⟩⟩ := h
    · obtain ⟨tree, htree, group, hgroup, herr⟩ := buildAll_eq_error h
      exact ⟨group, mem_filters.mpr (.inr ⟨tree, htree, hgroup⟩), herr⟩
    · obtain ⟨group, hgroup, herr⟩ := mapM_eq_error h
      exact ⟨group, mem_filters.mpr (.inl hgroup), herr⟩
    · cases h

theorem buildAll_eq_error {err : FilterError} : ∀ {ts : List (CaptureTree M)},
    buildAll primitives ts = .error err →
      ∃ tree ∈ CaptureTree.groupedAll ts, ∃ group ∈ tree.filters, primitives group = .error err
  | [], h => by cases h
  | t :: ts, h => by
    simp only [buildAll, bind_eq_error] at h
    obtain h | ⟨_, -, h | ⟨_, -, h⟩⟩ := h
    · exact ⟨t.grouped, List.mem_cons_self, build_eq_error h⟩
    · obtain ⟨tree, htree, hgroup⟩ := buildAll_eq_error h
      exact ⟨tree, List.mem_cons_of_mem _ htree, hgroup⟩
    · cases h
end

theorem ok_of_build {t : CaptureTree M} {tree : FilterTree F} (h : build primitives t = .ok tree) :
    ∀ group ∈ t.grouped.filters, ∃ list, primitives group = .ok list := by
  intro group hgroup
  obtain ⟨nodes, hmakes, hgroups, -⟩ := (parallel_of_build h).nodes
  obtain ⟨n, hn, hgroup⟩ := (hgroups group).mp hgroup
  obtain ⟨lists, hlists, -⟩ := hmakes n hn
  obtain ⟨list, -, hlist⟩ := exists_right_of_forall₂ hlists group hgroup
  exact ⟨list, hlist⟩

/-! ## Entry by entry -/

/-- Each group becomes the primitives of its entries, in order. -/
def EntryWise (primitives : CaptureGroup M → Except FilterError (List F))
    (translate : M → Atom → Except FilterError F) : Prop :=
  ∀ group list, primitives group = .ok list →
    List.Forall₂ (fun x p => translate x.1 x.2 = .ok p) group.entries list

variable {translate : M → Atom → Except FilterError F}

theorem EntryWise.of_makes (hentry : EntryWise primitives translate) {groups : List (CaptureGroup M)}
    {own : List F} (h : Makes primitives groups own) :
    List.Forall₂ (fun x p => translate x.1 x.2 = .ok p) (groups.flatMap CaptureGroup.entries) own := by
  obtain ⟨lists, hlists, rfl⟩ := h
  exact forall₂_flatMap (hlists.imp fun group list => hentry group list)

/-- Every primitive of a built tree is the translation of something. -/
theorem translated_of_mem (hentry : EntryWise primitives translate) {t : CaptureTree M} {tree : FilterTree F}
    (h : build primitives t = .ok tree) : ∀ p ∈ tree.filters, ∃ marker a, translate marker a = .ok p := by
  intro p hp
  obtain ⟨nodes, hmakes, -, hown⟩ := (parallel_of_build h).nodes
  obtain ⟨n, hn, hp⟩ := (hown p).mp hp
  obtain ⟨x, -, hx⟩ := exists_left_of_forall₂ (hentry.of_makes (hmakes n hn)) p hp
  exact ⟨x.1, x.2, hx⟩

end Build

section Sorted

variable {primitives : CaptureGroup M → Except FilterError (List F)}
  {translate : M → Atom → Except FilterError F} {captures : List (Capture M)} {e : Expression}
  {t : CaptureTree M} {tree : FilterTree F}

/-- **A tree built from a sorted filter asks what the filter asks**, node by node, if each primitive stands for
the atom that it is made from. -/
theorem exists_reading {StandsFor : F → Atom → Prop} (hentry : EntryWise primitives translate)
    (hstands : ∀ c ∈ e.childrenFirst, ∀ a ∈ c.atoms, ∀ capture ∈ captures, capture.Covers a →
      ∀ p, translate capture.marker a = .ok p → StandsFor p a)
    (hsorts : Matcher.Sorts captures e t) (hbuild : build primitives t = .ok tree) :
    ∃ reading : FilterTree Atom, tree.Parallel (List.Forall₂ StandsFor) reading ∧
      e.Mirrored Expression.SameAtoms reading := by
  refine Expression.Mirrored.readBack ?_ hstands hsorts (parallel_of_build hbuild)
  intro comparisons groups own hstands hsorted hmakes
  refine ⟨(groups.flatMap CaptureGroup.entries).map Prod.snd, ?_, hsorted.atoms⟩
  rw [List.forall₂_map_right_iff]
  refine List.Forall₂.flip ?_
  refine ((List.forall₂_and_left _ _).mpr ⟨fun x hx => hx, hentry.of_makes hmakes⟩).imp ?_
  rintro x p ⟨hx, hp⟩
  obtain ⟨c, hc, ha, capture, hcapture, hmarker, hcovers⟩ := hsorted.of_mem_entries hx
  exact hstands c hc x.2 ha capture hcapture hcovers p (hmarker ▸ hp)

/-- A tree is built from a sorted filter only if every atom has a translation. -/
theorem translated_of_build (hentry : EntryWise primitives translate) (hsorts : Matcher.Sorts captures e t)
    (hbuild : build primitives t = .ok tree) : ∀ c ∈ e.childrenFirst, ∀ a ∈ c.atoms,
      ∃ capture ∈ captures, capture.Covers a ∧ ∃ p, translate capture.marker a = .ok p := by
  intro c hc a ha
  obtain ⟨nodes, hsorted, hcs, hgroups⟩ := hsorts.nodes
  obtain ⟨n, hn, hc⟩ := (hcs c).mp hc
  obtain ⟨x, hx, rfl⟩ := List.mem_map.mp ((hsorted n hn).atoms.mem_iff.mpr (List.mem_flatMap.mpr ⟨c, hc, ha⟩))
  obtain ⟨capture, hcapture, hmarker, hcovers⟩ := (hsorted n hn).covered x hx
  obtain ⟨group, hgroup, hx⟩ := List.mem_flatMap.mp hx
  obtain ⟨list, hlist⟩ := ok_of_build hbuild group ((hgroups group).mpr ⟨n, hn, hgroup⟩)
  obtain ⟨p, -, hp⟩ := exists_right_of_forall₂ (hentry group list hlist) x hx
  exact ⟨capture, hcapture, hcovers, p, hmarker ▸ hp⟩

/-- A build from a sorted filter fails only at an atom without a translation, if groups fail only at entries. -/
theorem untranslated_of_build {err : FilterError}
    (hfail : ∀ group : CaptureGroup M, group.StandsOn (e.childrenFirst.map (·.path)) →
      primitives group = .error err → ∃ x ∈ group.entries, translate x.1 x.2 = .error err)
    (hsorts : Matcher.Sorts captures e t) (hbuild : build primitives t = .error err) :
    ∃ c ∈ e.childrenFirst, ∃ a ∈ c.atoms, ∃ capture ∈ captures, capture.Covers a ∧
      translate capture.marker a = .error err := by
  obtain ⟨group, hgroup, herr⟩ := build_eq_error hbuild
  obtain ⟨nodes, hsorted, hcs, hgroups⟩ := hsorts.nodes
  obtain ⟨n, hn, hgroup⟩ := (hgroups group).mp hgroup
  have hpaths : group.StandsOn (e.childrenFirst.map (·.path)) := by
    intro site hsite
    obtain ⟨c, hc, hpath⟩ := List.mem_map.mp ((hsorted n hn).sites group hgroup site hsite)
    exact List.mem_map.mpr ⟨c, (hcs c).mpr ⟨n, hn, hc⟩, hpath⟩
  obtain ⟨x, hx, htranslate⟩ := hfail group hpaths herr
  obtain ⟨c, hc, ha, capture, hcapture, hmarker, hcovers⟩ :=
    (hsorted n hn).of_mem_entries (List.mem_flatMap.mpr ⟨group, hgroup, hx⟩)
  exact ⟨c, (hcs c).mpr ⟨n, hn, hc⟩, x.2, ha, capture, hcapture, hcovers, hmarker ▸ htranslate⟩

end Sorted

end FilterTree

/-! ## Rule tables -/

namespace RuleTable

variable [DecidableEq M]

theorem applyFrom_cases (e : Expression) : ∀ (rule : Rule M F) (others : List (Rule M F)),
    (∃ r ∈ rule :: others, ∃ tree, r.matcher.apply e = .ok tree ∧ applyFrom e rule others = r.build tree) ∨
      (∀ r ∈ rule :: others, ∃ failure, r.matcher.apply e = .error failure) ∧
        ∃ r failure, (rule :: others).getLast? = some r ∧ r.matcher.apply e = .error failure ∧
          applyFrom e rule others = .error (.unresolvable (.unmatched failure))
  | rule, [] => by
    unfold applyFrom
    split
    · rename_i tree htree
      exact .inl ⟨rule, List.mem_cons_self, tree, htree, rfl⟩
    · rename_i failure hfailure
      exact .inr ⟨by simpa using ⟨failure, hfailure⟩, rule, failure, rfl, hfailure, rfl⟩
  | rule, next :: others => by
    unfold applyFrom
    split
    · rename_i tree htree
      exact .inl ⟨rule, List.mem_cons_self, tree, htree, rfl⟩
    · rename_i failure hfailure
      rcases applyFrom_cases e next others with ⟨r, hr, hmatch⟩ | ⟨hall, r, last, hlast, hmatch⟩
      · exact .inl ⟨r, List.mem_cons_of_mem _ hr, hmatch⟩
      · refine .inr ⟨List.forall_mem_cons.mpr ⟨⟨failure, hfailure⟩, hall⟩, r, last, ?_, hmatch⟩
        rw [List.getLast?_cons_cons, hlast]

/-- The outcome is the tree of a rule that matches, or else the failure of the last rule. -/
theorem apply_cases (table : RuleTable M F) (e : Expression) :
    (∃ rule ∈ table.rules, ∃ tree, rule.matcher.apply e = .ok tree ∧ table.apply e = rule.build tree) ∨
      (∀ rule ∈ table.rules, ∃ failure, rule.matcher.apply e = .error failure) ∧
        ∃ rule failure, table.rules.getLast? = some rule ∧ rule.matcher.apply e = .error failure ∧
          table.apply e = .error (.unresolvable (.unmatched failure)) :=
  applyFrom_cases e table.first table.others

theorem apply_eq_ok {table : RuleTable M F} {e : Expression} {tree : FilterTree F} (h : table.apply e = .ok tree) :
    ∃ rule ∈ table.rules, ∃ t, rule.matcher.apply e = .ok t ∧ rule.build t = .ok tree := by
  rcases table.apply_cases e with ⟨rule, hrule, t, hmatch, happly⟩ | ⟨-, _, _, -, -, happly⟩
  · exact ⟨rule, hrule, t, hmatch, happly.symm.trans h⟩
  · cases happly.symm.trans h

end RuleTable

/-! ## The limit on primitives -/

/-- Behind the rules only the limit can fail. -/
theorem Resolved.ofTree_cases (limits : Limits) (clause : Clause) (tree : FilterTree F) :
    ofTree limits clause tree = .ok ⟨tree, clause.warnings⟩ ∨
      ∃ max actual, ofTree limits clause tree = .error (.tooManyFilters max actual) := by
  unfold ofTree
  split
  · exact .inl rfl
  · exact .inr ⟨_, _, rfl⟩

/-- What is within the limit is resolved as it is. -/
theorem Resolved.ofTree_eq_ok {limits : Limits} {clause : Clause} {tree : FilterTree F} {r : Resolved F} :
    ofTree limits clause tree = .ok r ↔ tree.count ≤ limits.maxFilters ∧ r = ⟨tree, clause.warnings⟩ := by
  unfold ofTree
  split
  · rename_i hcount
    simp [hcount, eq_comm]
  · rename_i hcount
    simp [hcount]

section Resolve

variable [DecidableEq M] {table : RuleTable M F} {clause : Clause}

theorem RuleTable.resolve_eq_ok {limits : Limits} {r : Resolved F} :
    table.apply clause.expression >>= Resolved.ofTree limits clause = .ok r ↔ ∃ tree,
      table.apply clause.expression = .ok tree ∧ tree.count ≤ limits.maxFilters ∧ r = ⟨tree, clause.warnings⟩ := by
  simp only [bind_eq_ok, Resolved.ofTree_eq_ok]

theorem RuleTable.resolve_of_apply_ok (limits : Limits) {tree : FilterTree F}
    (h : table.apply clause.expression = .ok tree) :
    (∃ r, table.apply clause.expression >>= Resolved.ofTree limits clause = .ok r) ∨
      ∃ max actual, table.apply clause.expression >>= Resolved.ofTree limits clause =
        .error (.tooManyFilters max actual) := by
  rw [h]
  exact (Resolved.ofTree_cases limits clause tree).imp_left fun hok => ⟨_, hok⟩

theorem RuleTable.resolve_of_apply_error (limits : Limits) {err : FilterError}
    (h : table.apply clause.expression = .error err) :
    table.apply clause.expression >>= Resolved.ofTree limits clause = .error err :=
  bind_eq_error.mpr (.inl h)

/-- If every rule builds what its matcher captured, a clause resolves by the tree of a rule that matches it. -/
theorem RuleTable.built_of_resolve {primitives : CaptureGroup M → Except FilterError (List F)}
    (hrules : ∀ rule ∈ table.rules, ∀ e t, rule.matcher.apply e = .ok t →
      rule.build t = FilterTree.build primitives t) {limits : Limits} {r : Resolved F}
    (h : table.apply clause.expression >>= Resolved.ofTree limits clause = .ok r) :
    ∃ rule ∈ table.rules, ∃ t, rule.matcher.apply clause.expression = .ok t ∧
      FilterTree.build primitives t = .ok r.tree := by
  obtain ⟨tree, happly, -, rfl⟩ := resolve_eq_ok.mp h
  obtain ⟨rule, hrule, t, hmatch, hbuild⟩ := RuleTable.apply_eq_ok happly
  exact ⟨rule, hrule, t, hmatch, hrules rule hrule _ t hmatch ▸ hbuild⟩

end Resolve

end DocumentFilter
