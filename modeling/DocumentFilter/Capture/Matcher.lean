/-
Matchers: sets of captures that a filter's comparisons must be covered by.

Comparisons are taken children first, each by the first capture that accepts
it. Under the strict strategy a capture takes one comparison only and every
capture must take one; under the greedy strategy a capture may take any
number. The empty strategy accepts only the filter without conditions.
-/
import DocumentFilter.Capture.Tree

namespace DocumentFilter

/-- How completely the captures and the comparisons must cover each other. -/
inductive Strategy where
  | empty
  | strict
  | greedy
  deriving DecidableEq, Repr

/-- A strategy with captures in order of preference. -/
structure Matcher (M : Type) where
  strategy : Strategy
  captures : List (Capture M)

/-- The captures still to be had, and the comparisons that none took. -/
structure MatchProgress (M : Type) where
  available : List (Capture M)
  unclaimed : List Comparison := []

namespace Matcher

variable {M : Type} [DecidableEq M]

/-- Gives a comparison to the first available capture that accepts it; a single-use one is then used up. -/
def claim (singleUse : Bool) (progress : MatchProgress M) (c : Comparison) : Option M × MatchProgress M :=
  match progress.available.find? (·.accepts c) with
  | some capture =>
    let rest := if singleUse then progress.available.eraseP (·.accepts c) else progress.available
    (some capture.marker, { progress with available := rest })
  | none => (none, { progress with unclaimed := progress.unclaimed ++ [c] })

/-- Gives the comparisons of a node to captures, in order. -/
def claimAll (singleUse : Bool) :
    List Comparison → CaptureTree M → MatchProgress M → CaptureTree M × MatchProgress M
  | [], tree, progress => (tree, progress)
  | c :: cs, tree, progress =>
    match claim singleUse progress c with
    | (some marker, progress) => claimAll singleUse cs (tree.capture marker c) progress
    | (none, progress) => claimAll singleUse cs tree progress

mutual
/-- Gives the comparisons of a tree to captures, children first; a NOT ends the walk without a tree. -/
def walk (singleUse : Bool) : Expression → MatchProgress M → Option (CaptureTree M) × MatchProgress M
  | ⟨operator, children, comparisons⟩, progress =>
    match operator.junction? with
    | none => (none, progress)
    | some junction =>
      match walkAll singleUse children progress with
      | (none, progress) => (none, progress)
      | (some children, progress) =>
        let (tree, progress) := claimAll singleUse comparisons ⟨junction, [], children⟩ progress
        (some tree, progress)

/-- Gives the comparisons of a list of trees to captures, one tree after the other. -/
def walkAll (singleUse : Bool) :
    List Expression → MatchProgress M → Option (List (CaptureTree M)) × MatchProgress M
  | [], progress => (some [], progress)
  | e :: es, progress =>
    match walk singleUse e progress with
    | (none, progress) => (none, progress)
    | (some tree, progress) =>
      match walkAll singleUse es progress with
      | (none, progress) => (none, progress)
      | (some trees, progress) => (some (tree :: trees), progress)
end

/-- The outcome of a walk: the tree if there is one and nothing is missing on either side. -/
def conclude (singleUse : Bool) :
    Option (CaptureTree M) × MatchProgress M → Except MatchFailure (CaptureTree M)
  | (tree?, progress) =>
    let missing := if singleUse then progress.available.length else 0
    let failure : MatchFailure := ⟨missing, progress.unclaimed.length, progress.unclaimed.head?⟩
    match tree? with
    | some tree => if missing = 0 && progress.unclaimed.isEmpty then .ok tree else .error failure
    | none => .error failure

/-- Covers a filter by the captures. -/
def apply (matcher : Matcher M) (e : Expression) : Except MatchFailure (CaptureTree M) :=
  match matcher.strategy with
  | .empty => if e.isEmpty then .ok (.empty .and) else .error ⟨0, e.total, none⟩
  | .strict => conclude true (walk true e ⟨matcher.captures, []⟩)
  | .greedy => conclude false (walk false e ⟨matcher.captures, []⟩)

end Matcher

end DocumentFilter
