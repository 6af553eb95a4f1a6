/-
Capture trees: the comparisons of a filter, sorted by the markers that
captured them.

Each node of the filter has a node here. Within a node there is one group for
each marker, and within a group one site for each path and component; both
are in order of first arrival, and operations that arrive later at a site are
put at its end.
-/
import DocumentFilter.Capture.Basic
import DocumentFilter.Error.Basic

namespace DocumentFilter

/-- The operations captured on one path and component. -/
structure CaptureSite where
  path : String
  component : Option Component
  operations : List Operation
  deriving DecidableEq

/-- What one marker captured in one node. -/
structure CaptureGroup (M : Type) where
  marker : M
  sites : List CaptureSite
  deriving DecidableEq

/-- A node with its capture groups. -/
structure CaptureTree (M : Type) where
  operator : Junction
  groups : List (CaptureGroup M)
  children : List (CaptureTree M)

/-- Changes the first item that fits, or puts a new one at the end if none does. -/
def changeOrAppend {α : Type} (fits : α → Bool) (change : α → α) (new : α) : List α → List α
  | [] => [new]
  | a :: as => if fits a then change a :: as else a :: changeOrAppend fits change new as

namespace CaptureSite

/-- The site where the operations of a comparison belong. -/
def fits (c : Comparison) (site : CaptureSite) : Bool := site.path == c.path && site.component == c.component

/-- Puts the operations of a comparison at the end. -/
def add (c : Comparison) (site : CaptureSite) : CaptureSite :=
  { site with operations := site.operations ++ c.operations }

/-- The site of a comparison alone. -/
def ofComparison (c : Comparison) : CaptureSite := ⟨c.path, c.component, c.operations⟩

end CaptureSite

namespace CaptureGroup

variable {M : Type}

/-- Puts the operations of a comparison at its site. -/
def add (c : Comparison) (group : CaptureGroup M) : CaptureGroup M :=
  { group with
    sites :=
      changeOrAppend (CaptureSite.fits c) (CaptureSite.add c) (CaptureSite.ofComparison c) group.sites }

/-- The number of operations in the group. -/
def size (group : CaptureGroup M) : Nat := (group.sites.flatMap (·.operations)).length

/-- The group has no site. -/
def isEmpty (group : CaptureGroup M) : Bool := group.sites.isEmpty

end CaptureGroup

namespace CaptureTree

variable {M : Type}

/-- A node that has captured nothing. -/
def empty (operator : Junction) : CaptureTree M := ⟨operator, [], []⟩

/-- The node has neither groups nor children. -/
def isEmpty (tree : CaptureTree M) : Bool := tree.groups.isEmpty && tree.children.isEmpty

/-- Puts a child at the end. -/
def addChild (tree child : CaptureTree M) : CaptureTree M :=
  { tree with children := tree.children ++ [child] }

variable [DecidableEq M]

/-- The group of a marker. -/
def group? (tree : CaptureTree M) (marker : M) : Option (CaptureGroup M) :=
  tree.groups.find? (·.marker == marker)

/-- Records a comparison under a marker. -/
def capture (tree : CaptureTree M) (marker : M) (c : Comparison) : CaptureTree M :=
  { tree with
    groups := changeOrAppend (·.marker == marker) (CaptureGroup.add c) (CaptureGroup.add c ⟨marker, []⟩)
      tree.groups }

end CaptureTree

end DocumentFilter
