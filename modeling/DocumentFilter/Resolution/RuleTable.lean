/-
Rule tables: matchers in order, each with a way to build a filter tree. The
first rule whose matcher accepts a filter builds it; later ones are not tried.
-/
import DocumentFilter.Capture.Matcher
import DocumentFilter.Resolution.FilterTree

namespace DocumentFilter

/-- A matcher with a way to build what it accepts. -/
structure Rule (M F : Type) where
  matcher : Matcher M
  build : CaptureTree M → Except FilterError (FilterTree F)

/-- Rules in order, of which there is at least one. -/
structure RuleTable (M F : Type) where
  name : String
  first : Rule M F
  others : List (Rule M F)

namespace RuleTable

variable {M F : Type}

/-- The table of a list of rules, unless the list is empty. -/
def ofRules? (name : String) : List (Rule M F) → Option (RuleTable M F)
  | [] => none
  | first :: others => some ⟨name, first, others⟩

/-- What is said of a table without rules. -/
def noRulesMessage (name : String) : String := "rule table " ++ Text.inQuotes name ++ " has no rules"

/-- The number of rules. -/
def size (table : RuleTable M F) : Nat := table.others.length + 1

/-- The rules in order. -/
def rules (table : RuleTable M F) : List (Rule M F) := table.first :: table.others

variable [DecidableEq M]

/-- The tree of the first rule that matches, or else the failure of the last one. -/
def applyFrom (e : Expression) (rule : Rule M F) : List (Rule M F) → Except FilterError (FilterTree F)
  | [] =>
    match rule.matcher.apply e with
    | .ok tree => rule.build tree
    | .error failure => .error (.unresolvable (.unmatched failure))
  | next :: others =>
    match rule.matcher.apply e with
    | .ok tree => rule.build tree
    | .error _ => applyFrom e next others

/-- The tree that the table builds for a filter. -/
def apply (table : RuleTable M F) (e : Expression) : Except FilterError (FilterTree F) :=
  applyFrom e table.first table.others

end RuleTable

end DocumentFilter
