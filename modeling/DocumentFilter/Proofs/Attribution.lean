/-
A match is a faithful copy of the filter: which capture took which comparison,
and where its operations went.

Comparisons are taken children first. Each goes to the first declared capture
that accepts it, under the strict strategy to the first of those that none of
the comparisons before it used (`Claim.IsFirst`). What a walk has still to offer
is the captures at unused positions (`remaining`), and that is all that a step
needs to know of those before it. The groups of a node are then the table of
what its own comparisons were taken by (`Records`), and nothing else.
-/
import DocumentFilter.Proofs.Preference
import DocumentFilter.Proofs.Recording

namespace DocumentFilter

/-! ## The captures that remain -/

section Remaining

variable {M : Type}

/-- The captures at positions that are not used, with their positions. -/
def unused (captures : List (Capture M)) (used : List Nat) : List (Capture M × Nat) :=
  captures.zipIdx.filter fun x => x.2 ∉ used

/-- The captures at positions that are not used. -/
def remaining (captures : List (Capture M)) (used : List Nat) : List (Capture M) := (unused captures used).map Prod.fst

variable {captures : List (Capture M)} {used : List Nat}

theorem remaining_nil : remaining captures [] = captures := by simp [remaining, unused]

theorem mem_unused {capture : Capture M} {i : Nat} :
    (capture, i) ∈ unused captures used ↔ captures[i]? = some capture ∧ i ∉ used := by
  simp [unused, List.mk_mem_zipIdx_iff_getElem?]

/-- The unused positions are in declaration order. -/
theorem pairwise_unused (captures : List (Capture M)) (used : List Nat) :
    (unused captures used).Pairwise fun x y => x.2 < y.2 := by
  refine List.Pairwise.filter _ (List.pairwise_map.mp ?_)
  rw [List.zipIdx_map_snd]
  exact List.pairwise_lt_range'

/-- Using one more position takes its capture away. -/
theorem unused_append {before after : List (Capture M × Nat)} {x : Capture M × Nat}
    (h : unused captures used = before ++ x :: after) : unused captures (used ++ [x.2]) = before ++ after := by
  have hpairwise := pairwise_unused captures used
  rw [h, List.pairwise_append, List.pairwise_cons] at hpairwise
  obtain ⟨-, ⟨hafter, -⟩, hbefore⟩ := hpairwise
  have hfilter : unused captures (used ++ [x.2]) = (unused captures used).filter fun y => y.2 ≠ x.2 := by
    simp only [unused, List.filter_filter]
    refine List.filter_congr fun y _ => ?_
    simp [not_or, and_comm]
  rw [hfilter, h, List.filter_append, List.filter_cons_of_neg (by simp)]
  refine congr (congrArg _ (List.filter_eq_self.mpr fun y hy => ?_)) (List.filter_eq_self.mpr fun y hy => ?_)
  · exact decide_eq_true (Nat.ne_of_lt (hbefore y hy x List.mem_cons_self))
  · exact decide_eq_true (Nat.ne_of_gt (hafter y hy))

end Remaining

/-! ## Claims -/

variable {M : Type}

/-- The comparison has the first declared capture that accepts it, of those at positions that are not used. -/
structure Claim.IsFirst (captures : List (Capture M)) (used : List Nat) (claim : Claim M) : Prop where
  declared : captures[claim.position]? = some claim.capture
  accepts : claim.capture.accepts claim.comparison = true
  unused : claim.position ∉ used
  first : ∀ i capture, i < claim.position → captures[i]? = some capture →
    capture.accepts claim.comparison = true → i ∈ used

/-- The claims are one of each comparison, in order. -/
def ClaimsOf (comparisons : List Comparison) (claims : List (Claim M)) : Prop :=
  claims.map (·.comparison) = comparisons

/-- The comparisons are those of the claims and those left over. -/
def Splits (comparisons : List Comparison) (claims : List (Claim M)) (left : List Comparison) : Prop :=
  (claims.map (·.comparison) ++ left).Perm comparisons

theorem Splits.append {cs ds left left' : List Comparison} {claims others : List (Claim M)}
    (h : Splits cs claims left) (h' : Splits ds others left') : Splits (cs ++ ds) (claims ++ others) (left ++ left') := by
  have hswap := (List.perm_append_comm_assoc (others.map (·.comparison)) left left').append_left
    (claims.map (·.comparison))
  unfold Splits
  rw [List.map_append, List.append_assoc]
  refine hswap.trans ?_
  rw [← List.append_assoc]
  exact List.Perm.append h h'

/-- The claims are of some of the comparisons, in order, and the others are left over. -/
structure Shares (comparisons : List Comparison) (claims : List (Claim M)) (left : List Comparison) : Prop where
  taken : (claims.map (·.comparison)).Sublist comparisons
  all : Splits comparisons claims left

theorem Shares.cons_taken {cs left : List Comparison} {own : List (Claim M)} (h : Shares cs own left)
    (claim : Claim M) : Shares (claim.comparison :: cs) (claim :: own) left :=
  ⟨h.taken.cons_cons _, h.all.cons _⟩

theorem Shares.cons_left {cs left : List Comparison} {own : List (Claim M)} (h : Shares cs own left)
    (c : Comparison) : Shares (c :: cs) own (c :: left) :=
  ⟨h.taken.cons _, List.perm_middle.trans (h.all.cons c)⟩

/-- If none is left over, there is a claim of each. -/
theorem Shares.claimsOf {cs : List Comparison} {own : List (Claim M)} (h : Shares cs own []) : ClaimsOf cs own := by
  have hlength := h.all.length_eq
  rw [List.append_nil] at hlength
  exact h.taken.eq_of_length hlength

/-- The positions that are used after some claims; captures that are not for single use are never used up. -/
def usedAfter (singleUse : Bool) (used : List Nat) (claims : List (Claim M)) : List Nat :=
  if singleUse then used ++ claims.map (·.position) else used

theorem usedAfter_append (singleUse : Bool) (used : List Nat) (claims others : List (Claim M)) :
    usedAfter singleUse used (claims ++ others) = usedAfter singleUse (usedAfter singleUse used claims) others := by
  cases singleUse <;> simp [usedAfter]

/-- Each claim is the first one at its turn, where the claims before it have used up what they took. -/
def InOrder (singleUse : Bool) (captures : List (Capture M)) (used : List Nat) : List (Claim M) → Prop
  | [] => True
  | claim :: claims =>
    claim.IsFirst captures used ∧ InOrder singleUse captures (usedAfter singleUse used [claim]) claims

theorem InOrder.append {singleUse : Bool} {captures : List (Capture M)} {others : List (Claim M)} :
    ∀ {claims : List (Claim M)} {used : List Nat}, InOrder singleUse captures used claims →
      InOrder singleUse captures (usedAfter singleUse used claims) others →
      InOrder singleUse captures used (claims ++ others)
  | [], used, _, h => by cases singleUse <;> simpa [usedAfter] using h
  | claim :: claims, used, ⟨hfirst, hclaims⟩, h => by
    rw [← List.singleton_append, usedAfter_append] at h
    exact ⟨hfirst, hclaims.append h⟩

theorem InOrder.isFirst {singleUse : Bool} {captures : List (Capture M)} {claim : Claim M} {after : List (Claim M)} :
    ∀ {before : List (Claim M)} {used : List Nat}, InOrder singleUse captures used (before ++ claim :: after) →
      claim.IsFirst captures (usedAfter singleUse used before)
  | [], used, ⟨hfirst, _⟩ => by cases singleUse <;> simpa [usedAfter] using hfirst
  | other :: before, used, ⟨_, h⟩ => by
    rw [← List.singleton_append, usedAfter_append]
    exact h.isFirst

namespace Matcher

variable {singleUse : Bool} {captures : List (Capture M)}

/-- A comparison goes to the first remaining capture that accepts it, or is left over. -/
theorem claim_remaining (singleUse : Bool) (captures : List (Capture M)) (used : List Nat) (left : List Comparison)
    (c : Comparison) :
    (∃ taken : Claim M, taken.comparison = c ∧ taken.IsFirst captures used ∧
        claim singleUse ⟨remaining captures used, left⟩ c =
          (some taken.capture.marker, ⟨remaining captures (usedAfter singleUse used [taken]), left⟩)) ∨
      claim singleUse ⟨remaining captures used, left⟩ c = (none, ⟨remaining captures used, left ++ [c]⟩) := by
  cases hfind : (unused captures used).find? (·.1.accepts c) with
  | none =>
    have hnone : (remaining captures used).find? (·.accepts c) = none := by
      rw [remaining, List.find?_map]
      exact congrArg (Option.map Prod.fst) hfind
    exact .inr (by simp only [claim, hnone])
  | some x =>
    obtain ⟨capture, i⟩ := x
    have hsome : (remaining captures used).find? (·.accepts c) = some capture := by
      rw [remaining, List.find?_map]
      exact congrArg (Option.map Prod.fst) hfind
    obtain ⟨haccepts, before, after, hunused, hbefore⟩ := List.find?_eq_some_iff_append.mp hfind
    obtain ⟨hdeclared, hused⟩ := mem_unused.mp (List.mem_of_find?_eq_some hfind)
    refine .inl ⟨⟨c, i, capture⟩, rfl, ⟨hdeclared, haccepts, hused, fun j other hj hother haccepts => ?_⟩, ?_⟩
    · -- An earlier capture that accepts the comparison would have been found, were it not used.
      by_contra hunusedj
      have hmem : (other, j) ∈ before ++ (capture, i) :: after := hunused ▸ mem_unused.mpr ⟨hother, hunusedj⟩
      have hpairwise := pairwise_unused captures used
      rw [hunused, List.pairwise_append, List.pairwise_cons] at hpairwise
      rcases List.mem_append.mp hmem with hmem | hmem
      · simpa [haccepts] using hbefore _ hmem
      · rcases List.mem_cons.mp hmem with heq | hmem
        · exact absurd (congrArg Prod.snd heq) (Nat.ne_of_lt hj)
        · exact absurd (hpairwise.2.1.1 _ hmem) (Nat.lt_asymm hj)
    · have hrest : (remaining captures used).eraseP (·.accepts c) = remaining captures (used ++ [i]) := by
        rw [remaining, remaining, unused_append hunused, hunused, List.map_append, List.map_cons,
          List.eraseP_append_right _ (by simpa using hbefore), List.map_append]
        exact congrArg _ (List.eraseP_cons_of_pos (p := fun capture : Capture M => capture.accepts c) haccepts)
      simp only [claim, hsome, hrest, usedAfter, List.map_singleton]
      cases singleUse <;> rfl

variable [DecidableEq M]

/-- Of the comparisons of a node some are taken, in order, and recorded, and the others are left over. -/
theorem claimAll_shares : ∀ {cs : List Comparison} {done : List (Claim M)} {tree tree' : CaptureTree M}
    {used : List Nat} {progress progress' : MatchProgress M}, progress.available = remaining captures used →
    claimAll singleUse cs tree progress = (tree', progress') → Records done tree.groups →
    ∃ (own : List (Claim M)) (left : List Comparison), Shares cs own left ∧ InOrder singleUse captures used own ∧
      Records (done ++ own) tree'.groups ∧
      progress' = ⟨remaining captures (usedAfter singleUse used own), progress.unclaimed ++ left⟩
  | [], done, tree, tree', used, ⟨available, before⟩, progress', havailable, hclaimed, hdone => by
    obtain rfl : available = remaining captures used := havailable
    cases hclaimed
    refine ⟨[], [], ⟨.slnil, .refl _⟩, trivial, by rwa [List.append_nil], ?_⟩
    cases singleUse <;> simp [usedAfter]
  | c :: cs, done, tree, tree', used, ⟨available, before⟩, progress', havailable, hclaimed, hdone => by
    obtain rfl : available = remaining captures used := havailable
    unfold claimAll at hclaimed
    obtain ⟨taken, rfl, hfirst, hclaim⟩ | hclaim := claim_remaining singleUse captures used before c <;>
      simp only [hclaim] at hclaimed
    · obtain ⟨own, left, hshares, horder, hrecords, rfl⟩ := claimAll_shares rfl hclaimed (hdone.capture taken)
      refine ⟨taken :: own, left, hshares.cons_taken taken, ⟨hfirst, horder⟩, by rwa [List.append_cons], ?_⟩
      rw [← usedAfter_append, List.singleton_append]
    · obtain ⟨own, left, hshares, horder, hrecords, rfl⟩ := claimAll_shares rfl hclaimed hdone
      refine ⟨own, c :: left, hshares.cons_left c, horder, hrecords, ?_⟩
      simp

end Matcher

/-! ## Trees -/

namespace FilterTree

variable {F : Type}

mutual
/-- What the tree holds, children before a node's own. -/
def childrenFirst : FilterTree F → List F
  | ⟨_, own, children⟩ => childrenFirstAll children ++ own

/-- `childrenFirst` on lists of trees. -/
def childrenFirstAll : List (FilterTree F) → List F
  | [] => []
  | tree :: trees => tree.childrenFirst ++ childrenFirstAll trees
end

end FilterTree

namespace Matcher

variable [DecidableEq M] {singleUse : Bool} {captures : List (Capture M)}

section Shares

variable {R : List Comparison → List (Claim M) → Prop} {whole : Prop}

mutual
/-- The comparisons of a tree are taken in order and recorded in their nodes, or left over. What is known of a node
where nothing is left over may be used wherever that is known of the whole walk. -/
theorem walk_shares (hR : ∀ cs own left, Shares cs own left → (whole → left = []) → R cs own) :
    ∀ {e : Expression} {used : List Nat} {progress progress' : MatchProgress M} {tree : CaptureTree M},
    progress.available = remaining captures used → walk singleUse e progress = (some tree, progress') →
    (whole → progress'.unclaimed = []) →
    ∃ (claims : FilterTree (Claim M)) (left : List Comparison), e.Mirrored R claims ∧
      claims.Parallel Records tree.grouped ∧ InOrder singleUse captures used claims.childrenFirst ∧
      progress' = ⟨remaining captures (usedAfter singleUse used claims.childrenFirst), progress.unclaimed ++ left⟩ ∧
      Splits e.childrenFirst claims.childrenFirst left
  | ⟨operator, children, comparisons⟩, used, progress, progress', tree, havailable, hwalk, hend => by
    obtain ⟨j, trees, middle, groups, rfl, hchildren, hclaimed, rfl⟩ := walk_eq_some hwalk
    obtain ⟨below, leftBelow, hmirrored, hparallel, horder, rfl, hbelow⟩ := walkAll_shares hR havailable hchildren
      fun h => unclaimed_of_claimAll hclaimed (hend h)
    obtain ⟨own, leftOwn, hshares, horder', hrecords, rfl⟩ := claimAll_shares rfl hclaimed records_nil
    refine ⟨⟨j, own, below⟩, leftBelow ++ leftOwn, ⟨rfl, ?_, hmirrored⟩, ⟨rfl, hrecords, hparallel⟩,
      horder.append horder', ?_, ?_⟩
    · exact hR comparisons own leftOwn hshares fun h => (List.append_eq_nil_iff.mp (hend h)).2
    · rw [FilterTree.childrenFirst, usedAfter_append, List.append_assoc]
    · exact hbelow.append hshares.all

theorem walkAll_shares (hR : ∀ cs own left, Shares cs own left → (whole → left = []) → R cs own) :
    ∀ {es : List Expression} {used : List Nat} {progress progress' : MatchProgress M} {trees : List (CaptureTree M)},
    progress.available = remaining captures used → walkAll singleUse es progress = (some trees, progress') →
    (whole → progress'.unclaimed = []) →
    ∃ (claims : List (FilterTree (Claim M))) (left : List Comparison), Expression.AllMirrored R es claims ∧
      FilterTree.AllParallel Records claims (CaptureTree.groupedAll trees) ∧
      InOrder singleUse captures used (FilterTree.childrenFirstAll claims) ∧
      progress' = ⟨remaining captures (usedAfter singleUse used (FilterTree.childrenFirstAll claims)),
        progress.unclaimed ++ left⟩ ∧
      Splits (Expression.childrenFirstAll es) (FilterTree.childrenFirstAll claims) left
  | [], used, ⟨available, before⟩, progress', trees, havailable, hwalk, _ => by
    obtain rfl : available = remaining captures used := havailable
    cases hwalk
    refine ⟨[], [], trivial, trivial, trivial, ?_, .refl _⟩
    cases singleUse <;> simp [FilterTree.childrenFirstAll, usedAfter]
  | e :: es, used, progress, progress', trees, havailable, hwalk, hend => by
    obtain ⟨tree, others, middle, hfirst, hothers, rfl⟩ := walkAll_cons_eq_some hwalk
    obtain ⟨first, left, hmirrored, hparallel, horder, rfl, hperm⟩ := walk_shares hR havailable hfirst
      fun h => (reaches_of_walkAll hothers).unclaimed_eq_nil (hend h)
    obtain ⟨rest, left', hmirrors, hparallels, horders, rfl, hperms⟩ := walkAll_shares hR rfl hothers hend
    refine ⟨first :: rest, left ++ left', ⟨hmirrored, hmirrors⟩, ⟨hparallel, hparallels⟩, horder.append horders, ?_, ?_⟩
    · rw [FilterTree.childrenFirstAll, usedAfter_append, List.append_assoc]
    · exact hperm.append hperms
end

end Shares

/-- If nothing is left over, the comparisons of a tree are taken in order and recorded in their nodes. -/
theorem walk_claims {e : Expression} {used : List Nat} {progress progress' : MatchProgress M} {tree : CaptureTree M}
    (havailable : progress.available = remaining captures used)
    (hwalk : walk singleUse e progress = (some tree, progress')) (hend : progress'.unclaimed = []) :
    ∃ claims : FilterTree (Claim M), e.Mirrored ClaimsOf claims ∧ claims.Parallel Records tree.grouped ∧
      InOrder singleUse captures used claims.childrenFirst ∧
      progress'.available = remaining captures (usedAfter singleUse used claims.childrenFirst) := by
  have hnode (cs : List Comparison) (own : List (Claim M)) (left : List Comparison) (h : Shares cs own left)
      (hleft : True → left = []) : ClaimsOf cs own := (hleft trivial ▸ h).claimsOf
  obtain ⟨claims, left, hmirrored, hparallel, horder, rfl, -⟩ :=
    walk_shares hnode havailable hwalk fun _ => hend
  exact ⟨claims, hmirrored, hparallel, horder, rfl⟩

/-- The claims say how the tree was made from the expression: there is one for each comparison, at its node; the groups
of a node record its claims; and in the order of the walk every claim has the first capture that accepts its
comparison, under the strict strategy the first that no claim before it has. -/
structure Attributes (matcher : Matcher M) (e : Expression) (tree : CaptureTree M) (claims : FilterTree (Claim M)) :
    Prop where
  comparisons : e.Mirrored ClaimsOf claims
  records : claims.Parallel Records tree.grouped
  first : ∀ before claim after, claims.childrenFirst = before ++ claim :: after →
    claim.IsFirst matcher.captures (if matcher.strategy = .strict then before.map (·.position) else [])

/-- **What a matcher accepts it copies faithfully**, by the strict and by the greedy strategy. -/
theorem apply_attributes {matcher : Matcher M} (hstrategy : matcher.strategy ≠ .empty) {e : Expression}
    {tree : CaptureTree M} (h : matcher.apply e = .ok tree) : ∃ claims, matcher.Attributes e tree claims := by
  have hclaims {singleUse : Bool} (hstrict : singleUse = decide (matcher.strategy = .strict))
      (h : conclude singleUse (walk singleUse e ⟨matcher.captures, []⟩) = .ok tree) :
      ∃ claims, matcher.Attributes e tree claims := by
    obtain ⟨hwalk, hend⟩ := of_conclude_eq_ok h
    obtain ⟨claims, hcomparisons, hrecords, horder, -⟩ := walk_claims remaining_nil.symm hwalk hend
    refine ⟨claims, hcomparisons, hrecords, fun before claim after hsplit => ?_⟩
    rw [hsplit] at horder
    simpa [usedAfter, hstrict] using horder.isFirst
  unfold apply at h
  split at h
  · rename_i hempty
    exact absurd hempty hstrategy
  · rename_i hstrict
    exact hclaims (by simp [hstrict]) h
  · rename_i hgreedy
    exact hclaims (by simp [hgreedy]) h

/-- Captures that overlap, of which two and two share a marker. -/
def overlapping : List (Capture String) :=
  [⟨"age", "age", [.gte, .lt], .number⟩, ⟨"range", "*", [.gte, .lt], .number⟩, ⟨"range", "*", [.gte], .number⟩,
    ⟨"age", "*", [.gte], .number⟩]

/-- Two bounds of an age and one of a size, and a bound of the age below. -/
def ageBounds : Expression :=
  ⟨.or, [⟨.and, [], [.single "age" .gte (.number (.int 18))]⟩],
    [.single "age" .lt (.number (.int 65)), .single "size" .gte (.number (.int 3)),
      .single "age" .gte (.number (.int 70))]⟩

theorem apply_attributes_overlapping :
    (∃ claims, Attributes ⟨.strict, overlapping⟩ ageBounds
      ⟨.or, [⟨"range", [⟨"age", none, [⟨.lt, .number (.int 65)⟩]⟩, ⟨"size", none, [⟨.gte, .number (.int 3)⟩]⟩]⟩,
          ⟨"age", [⟨"age", none, [⟨.gte, .number (.int 70)⟩]⟩]⟩],
        [⟨.and, [⟨"age", [⟨"age", none, [⟨.gte, .number (.int 18)⟩]⟩]⟩], []⟩]⟩ claims) ∧
      ∃ claims, Attributes ⟨.greedy, overlapping⟩ ageBounds
        ⟨.or, [⟨"age", [⟨"age", none, [⟨.lt, .number (.int 65)⟩, ⟨.gte, .number (.int 70)⟩]⟩]⟩,
            ⟨"range", [⟨"size", none, [⟨.gte, .number (.int 3)⟩]⟩]⟩],
          [⟨.and, [⟨"age", [⟨"age", none, [⟨.gte, .number (.int 18)⟩]⟩]⟩], []⟩]⟩ claims :=
  ⟨apply_attributes (by decide) rfl, apply_attributes (by decide) rfl⟩

end Matcher

end DocumentFilter
