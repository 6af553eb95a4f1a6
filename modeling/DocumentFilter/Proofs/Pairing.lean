/-
The strict strategy asks for captures and comparisons to be paired one to one
(`Pairable`), and looks for a pairing by first fit: each comparison takes the
first capture left that accepts it, and is never given another (`FirstFit`). A
pairing that is found is one, but first fit may miss one that exists: a wildcard
that is declared first takes what a path declared after it needs.

Declared in the order of a pairing the captures are taken one after the other,
so some declaration order finds it. If of two captures that overlap on the
filter the one that accepts less is declared first (`SpecificFirst`), a pairing
is always found: a pairing that does not give a comparison to the first capture
that accepts it can be changed to one that does, since whatever the other
capture has to take in exchange it accepts (`Pairable.exchange`).
-/
import DocumentFilter.Proofs.Accounting
import Mathlib.Data.List.Perm.Basic

namespace DocumentFilter

namespace Matcher

variable {M : Type} {captures : List (Capture M)} {cs : List Comparison}

/-! ## Pairings -/

/-- The captures, in some order, accept the comparisons one to one. -/
def Pairable (captures : List (Capture M)) (cs : List Comparison) : Prop :=
  ∃ order : List (Capture M), order.Perm captures ∧
    List.Forall₂ (fun capture c => capture.accepts c = true) order cs

/-- Pairings do not know of the order in which the captures are declared. -/
theorem Pairable.of_perm_captures {others : List (Capture M)} (h : Pairable captures cs)
    (hperm : others.Perm captures) : Pairable others cs := by
  obtain ⟨order, horder, hpairs⟩ := h
  exact ⟨order, horder.trans hperm.symm, hpairs⟩

/-- Pairings do not know of the order in which the comparisons are listed. -/
theorem Pairable.of_perm {ds : List Comparison} (h : Pairable captures cs) (hperm : ds.Perm cs) :
    Pairable captures ds := by
  obtain ⟨order, horder, hpairs⟩ := h
  obtain ⟨order', hpairs', horder'⟩ := List.perm_comp_forall₂ hperm hpairs.flip
  exact ⟨order', horder'.trans horder, hpairs'.flip⟩

/-- Another capture may stand in for one if it accepts what that one accepts. -/
theorem forall₂_accepts_replace {x y : Capture M} {after : List (Capture M)} :
    ∀ {before : List (Capture M)} {cs : List Comparison}, (∀ c ∈ cs, x.accepts c = true → y.accepts c = true) →
    List.Forall₂ (fun capture c => capture.accepts c = true) (before ++ x :: after) cs →
    List.Forall₂ (fun capture c => capture.accepts c = true) (before ++ y :: after) cs
  | [], c :: _, hy, .cons hx hafter => .cons (hy c List.mem_cons_self hx) hafter
  | _ :: _, _ :: _, hy, .cons hfirst hrest =>
    .cons hfirst (forall₂_accepts_replace (fun c hc => hy c (List.mem_cons_of_mem _ hc)) hrest)

/-- A pairing can be had that gives a comparison to `x`, if any other capture that accepts it accepts what `x` does. -/
theorem Pairable.exchange {x : Capture M} {rest : List (Capture M)} {c : Comparison}
    (h : Pairable (x :: rest) (c :: cs))
    (hstand : ∀ y ∈ rest, y.accepts c = true → ∀ d ∈ cs, x.accepts d = true → y.accepts d = true) :
    Pairable rest cs := by
  obtain ⟨order, horder, hpairs⟩ := h
  obtain ⟨y, order, hy, hothers, rfl⟩ := List.forall₂_cons_right_iff.mp hpairs
  obtain rfl | hmem := List.mem_cons.mp (horder.subset List.mem_cons_self)
  · exact ⟨order, horder.cons_inv, hothers⟩
  · -- `y` has the comparison and `x` another one, which `y` accepts as well.
    obtain ⟨before, after, rfl⟩ := List.append_of_mem hmem
    have hwithout : order.Perm (x :: (before ++ after)) := by
      have hmiddle : (x :: (before ++ y :: after)).Perm (y :: x :: (before ++ after)) :=
        (List.perm_middle.cons x).trans (.swap y x _)
      exact (horder.trans hmiddle).cons_inv
    obtain ⟨first, last, rfl⟩ := List.append_of_mem (hwithout.symm.subset List.mem_cons_self)
    have hremaining : (first ++ last).Perm (before ++ after) := (List.perm_middle.symm.trans hwithout).cons_inv
    refine ⟨first ++ y :: last, ?_, forall₂_accepts_replace (hstand y hmem hy) hothers⟩
    exact List.perm_middle.trans ((hremaining.cons y).trans List.perm_middle.symm)

/-! ## First fit -/

/-- Each comparison takes the first capture left that accepts it, and all captures are taken. -/
inductive FirstFit : List (Capture M) → List Comparison → Prop
  | nil : FirstFit [] []
  | cons {before after capture c cs} : capture.accepts c = true → (∀ other ∈ before, other.accepts c = false) →
      FirstFit (before ++ after) cs → FirstFit (before ++ capture :: after) (c :: cs)

theorem FirstFit.pairable (h : FirstFit captures cs) : Pairable captures cs := by
  induction h with
  | nil => exact ⟨[], .refl _, .nil⟩
  | @cons before after capture c cs haccepts _ _ ih =>
    obtain ⟨order, horder, hpairs⟩ := ih
    exact ⟨capture :: order, (horder.cons capture).trans List.perm_middle.symm, .cons haccepts hpairs⟩

/-- Captures that are declared as they are paired fit. -/
theorem firstFit_of_forall₂ (h : List.Forall₂ (fun capture c => capture.accepts c = true) captures cs) :
    FirstFit captures cs := by
  induction h with
  | nil => exact .nil
  | @cons capture c _ _ haccepts _ ih =>
    have hnone : ∀ other ∈ ([] : List (Capture M)), other.accepts c = false := by simp
    exact FirstFit.cons haccepts hnone ih

/-- Of two captures that accept a comparison in common, the one that is declared first accepts no other that the second
does not. -/
def SpecificFirst (captures : List (Capture M)) (cs : List Comparison) : Prop :=
  captures.Pairwise fun x y =>
    (∃ c ∈ cs, x.accepts c = true ∧ y.accepts c = true) → ∀ d ∈ cs, x.accepts d = true → y.accepts d = true

instance (captures : List (Capture M)) (cs : List Comparison) : Decidable (SpecificFirst captures cs) :=
  inferInstanceAs (Decidable (List.Pairwise _ _))

/-- Fewer captures and fewer comparisons overlap less. -/
theorem SpecificFirst.mono {others : List (Capture M)} {ds : List Comparison} (h : SpecificFirst captures cs)
    (hcaptures : others.Sublist captures) (hcs : ds ⊆ cs) : SpecificFirst others ds := by
  refine (h.sublist hcaptures).imp fun hxy => ?_
  rintro ⟨c, hc, hboth⟩ d hd hx
  exact hxy ⟨c, hcs hc, hboth⟩ d (hcs hd) hx

/-- Captures that accept a comparison in common accept the same ones. -/
def Interchangeable (captures : List (Capture M)) (cs : List Comparison) : Prop :=
  ∀ x ∈ captures, ∀ y ∈ captures, (∃ c ∈ cs, x.accepts c = true ∧ y.accepts c = true) →
    ∀ d ∈ cs, x.accepts d = true → y.accepts d = true

theorem Interchangeable.specificFirst {order : List (Capture M)} (h : Interchangeable captures cs)
    (hperm : order.Perm captures) : SpecificFirst order cs :=
  List.pairwise_of_forall_mem_list fun x hx y hy => h x (hperm.subset hx) y (hperm.subset hy)

/-- **First fit finds a pairing** if there is one, where of overlapping captures those that accept less come first. -/
theorem Pairable.firstFit : ∀ {cs : List Comparison} {captures : List (Capture M)}, Pairable captures cs →
    SpecificFirst captures cs → FirstFit captures cs
  | [], captures, ⟨order, horder, hpairs⟩, _ => by
    obtain rfl : order = [] := List.forall₂_nil_right_iff.mp hpairs
    obtain rfl : captures = [] := horder.symm.eq_nil
    exact .nil
  | c :: cs, captures, hpairable, hspecific => by
    have haccepted : ∃ capture ∈ captures, capture.accepts c = true := by
      obtain ⟨order, horder, hpairs⟩ := hpairable
      obtain ⟨y, others, hy, -, rfl⟩ := List.forall₂_cons_right_iff.mp hpairs
      exact ⟨y, horder.subset List.mem_cons_self, hy⟩
    obtain ⟨before, x, after, rfl, hx, hbefore⟩ := exists_first haccepted
    have hrest : Pairable (before ++ after) cs := by
      refine (hpairable.of_perm_captures List.perm_middle.symm).exchange fun y hmem hy d hd hxd => ?_
      -- No capture before `x` accepts the comparison, and those after `x` accept more than `x` does.
      rcases List.mem_append.mp hmem with hmem | hmem
      · rw [hbefore y hmem] at hy
        cases hy
      · have hafter := (List.pairwise_cons.mp (List.pairwise_append.mp hspecific).2.1).1 y hmem
        exact hafter ⟨c, List.mem_cons_self, hx, hy⟩ d (List.mem_cons_of_mem _ hd) hxd
    have hsublist : (before ++ after).Sublist (before ++ x :: after) := (List.sublist_cons_self x after).append_left _
    exact .cons hx hbefore (hrest.firstFit (hspecific.mono hsublist (List.subset_cons_self c cs)))

/-! ## What a strict matcher finds -/

theorem FirstFit.offer_eq_nil (h : FirstFit captures cs) : offer true ⟨captures, []⟩ cs = ⟨[], []⟩ := by
  induction h with
  | nil => rfl
  | cons haccepts hbefore _ ih => rw [offer, claim_first true haccepts hbefore, if_pos rfl, ih]

theorem firstFit_of_offer_eq_nil : ∀ {cs : List Comparison} {captures : List (Capture M)},
    offer true ⟨captures, []⟩ cs = ⟨[], []⟩ → FirstFit captures cs
  | [], captures, h => by
    obtain rfl : captures = [] := congrArg MatchProgress.available h
    exact .nil
  | c :: cs, captures, h => by
    rw [offer] at h
    obtain ⟨before, capture, after, rfl, haccepts, hbefore, hclaim⟩ | ⟨-, hclaim⟩ := claim_step true captures [] c
    · rw [hclaim, if_pos rfl] at h
      exact .cons haccepts hbefore (firstFit_of_offer_eq_nil h)
    · -- A comparison that is left over stays left over.
      rw [hclaim, List.nil_append] at h
      have hreaches := reaches_offer true cs ⟨captures, [c]⟩
      rw [h] at hreaches
      cases hreaches.unclaimed_eq_nil rfl

variable [DecidableEq M] {e : Expression}

theorem apply_strict_isOk_iff (he : e.isNormalized = true) :
    (∃ tree, apply ⟨.strict, captures⟩ e = .ok tree) ↔ FirstFit captures e.childrenFirst := by
  obtain ⟨tree, hwalk⟩ := walk_of_isNormalized true he ⟨captures, []⟩
  generalize hoffer : offer true ⟨captures, []⟩ e.childrenFirst = progress at hwalk
  obtain ⟨missing, left⟩ := progress
  constructor
  · rintro ⟨found, hfound⟩
    obtain ⟨⟨hmissing, hleft⟩, -⟩ := (apply_strict_eq_ok hwalk found).mp hfound
    rw [List.eq_nil_of_length_eq_zero hmissing, List.eq_nil_of_length_eq_zero hleft] at hoffer
    exact firstFit_of_offer_eq_nil hoffer
  · intro hfit
    rw [hfit.offer_eq_nil] at hoffer
    cases hoffer
    exact ⟨tree, (apply_strict_eq_ok hwalk tree).mpr ⟨⟨rfl, rfl⟩, rfl⟩⟩

/-- A strict matcher accepts every filter without NOT that has the comparisons, however it lists them. -/
def AcceptsEveryListing (captures : List (Capture M)) (cs : List Comparison) : Prop :=
  ∀ e : Expression, e.isNormalized = true → e.childrenFirst.Perm cs → ∃ tree, apply ⟨.strict, captures⟩ e = .ok tree

theorem acceptsEveryListing_of_specificFirst (hpairable : Pairable captures cs) (hspecific : SpecificFirst captures cs) :
    AcceptsEveryListing captures cs := by
  intro e he hperm
  have hpairable' : Pairable captures e.childrenFirst := hpairable.of_perm hperm
  have hspecific' : SpecificFirst captures e.childrenFirst := hspecific.mono (.refl _) hperm.subset
  exact (apply_strict_isOk_iff he).mpr (hpairable'.firstFit hspecific')

/-- Which pairings of captures and comparisons a strict matcher finds. -/
structure FindsPairings (captures : List (Capture M)) (e : Expression) : Prop where
  firstFit : (∃ tree, apply ⟨.strict, captures⟩ e = .ok tree) ↔ FirstFit captures e.childrenFirst
  someOrder : (∃ order : List (Capture M), order.Perm captures ∧ ∃ tree, apply ⟨.strict, order⟩ e = .ok tree) ↔
    Pairable captures e.childrenFirst
  specificFirst : Pairable captures e.childrenFirst → ∀ order : List (Capture M), order.Perm captures →
    SpecificFirst order e.childrenFirst → AcceptsEveryListing order e.childrenFirst
  /-- If no two captures overlap in part, their order does not matter either. -/
  anyOrder : Pairable captures e.childrenFirst → Interchangeable captures e.childrenFirst →
    ∀ order : List (Capture M), order.Perm captures → AcceptsEveryListing order e.childrenFirst

/-- **A strict matcher finds a pairing by first fit**, and so in some order of its captures; in a given order it finds
one whenever there is one, if of overlapping captures those that accept less come first. -/
theorem apply_strict_findsPairings (captures : List (Capture M)) {e : Expression} (he : e.isNormalized = true) :
    FindsPairings captures e where
  firstFit := apply_strict_isOk_iff he
  someOrder := by
    constructor
    · rintro ⟨order, horder, hok⟩
      have hfit : FirstFit order e.childrenFirst := (apply_strict_isOk_iff he).mp hok
      exact hfit.pairable.of_perm_captures horder.symm
    · rintro ⟨order, horder, hpairs⟩
      exact ⟨order, horder, (apply_strict_isOk_iff he).mpr (firstFit_of_forall₂ hpairs)⟩
  specificFirst := by
    intro hpairable order horder hspecific
    exact acceptsEveryListing_of_specificFirst (hpairable.of_perm_captures horder) hspecific
  anyOrder := by
    intro hpairable hinterchangeable order horder
    have hspecific : SpecificFirst order e.childrenFirst := hinterchangeable.specificFirst horder
    exact acceptsEveryListing_of_specificFirst (hpairable.of_perm_captures horder) hspecific

/-- A capture of any comparison, then one of an age. -/
def anyThenAge : List (Capture String) := [⟨"any", "*", [.eq, .gte], .number⟩, ⟨"age", "age", [.eq, .gte], .number⟩]

/-- An age and, below, a size. -/
def ageOverSize : Expression :=
  ⟨.and, [⟨.or, [], [.single "size" .gte (.number (.int 3))]⟩], [.single "age" .eq (.number (.int 18))]⟩

/-- A size and, below, an age. -/
def sizeOverAge : Expression :=
  ⟨.and, [⟨.or, [], [.single "age" .eq (.number (.int 18))]⟩], [.single "size" .gte (.number (.int 3))]⟩

theorem pairable_anyThenAge : Pairable anyThenAge ageOverSize.childrenFirst :=
  ⟨anyThenAge, .refl _, .cons rfl (.cons rfl .nil)⟩

/-- The wildcard takes the age, which comes first, and no capture is left for the size. -/
theorem apply_strict_sizeOverAge : sizeOverAge.isNormalized = true ∧ Pairable anyThenAge sizeOverAge.childrenFirst ∧
    apply ⟨.strict, anyThenAge⟩ sizeOverAge = .error ⟨1, 1, some (.single "size" .gte (.number (.int 3)))⟩ :=
  ⟨rfl, ⟨anyThenAge.reverse, List.reverse_perm _, .cons rfl (.cons rfl .nil)⟩, rfl⟩

theorem apply_strict_findsPairings_anyThenAge :
    (∃ tree, apply ⟨.strict, anyThenAge.reverse⟩ ageOverSize = .ok tree) ∧
      ∃ tree, apply ⟨.strict, anyThenAge.reverse⟩ sizeOverAge = .ok tree := by
  have hfinds := apply_strict_findsPairings anyThenAge (e := ageOverSize) rfl
  have hspecific : SpecificFirst anyThenAge.reverse ageOverSize.childrenFirst := by decide +kernel
  have hfound := hfinds.specificFirst pairable_anyThenAge anyThenAge.reverse (List.reverse_perm _) hspecific
  exact ⟨hfound ageOverSize rfl (.refl _), hfound sizeOverAge rfl (.swap _ _ [])⟩

end Matcher

end DocumentFilter
