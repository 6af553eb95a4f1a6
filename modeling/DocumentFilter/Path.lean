/-
Dotted field paths.

A path is its segments joined by dots; within a segment `&` is written `&&`
and a dot `&.`, and no other `&` may stand in a path. No segment is empty.
`segments?` takes a path apart and `ofSegments` puts one together.
-/

namespace DocumentFilter

/-- Why a text is not a path. -/
inductive PathProblem where
  | empty
  | badEscape
  | emptySegment
  deriving DecidableEq, Repr

namespace Path

/-- A path segment, unescaped. -/
abbrev Segment := List Char

/-- The segments of the text behind a segment's given beginning, or the first problem from the left. -/
def segmentsFrom (segment : Segment) : List Char → Except PathProblem (List Segment)
  | [] => if segment.isEmpty then .error .emptySegment else .ok [segment]
  | ['&'] => .error .badEscape
  | '&' :: c :: rest => if c = '.' || c = '&' then segmentsFrom (segment ++ [c]) rest else .error .badEscape
  | '.' :: rest =>
    if segment.isEmpty then .error .emptySegment else (segmentsFrom [] rest).map (segment :: ·)
  | c :: rest => segmentsFrom (segment ++ [c]) rest

/-- The segments of a path. -/
def segments? (path : String) : Except PathProblem (List Segment) :=
  match path.toList with
  | [] => .error .empty
  | chars => segmentsFrom [] chars

/-- A segment as it is written in a path. -/
def escape (segment : Segment) : List Char :=
  segment.flatMap fun c => if c = '.' || c = '&' then ['&', c] else [c]

/-- The path of the given segments. -/
def ofSegments (segments : List Segment) : String :=
  String.ofList (['.'].intercalate (segments.map escape))

/-- The pattern that covers every path. -/
def wildcard : String := "*"

/-- A rule covers its own path and the paths below it; the wildcard covers all. -/
def covers (rule path : String) : Bool :=
  rule == wildcard || rule == path || (rule.toList ++ ['.']).isPrefixOf path.toList

end Path

/-- Keys that begin with a dollar sign name operators, not fields. -/
def isDollarKey (key : String) : Bool := key.toList.head? == some '$'

end DocumentFilter
