import MarkupNesting.Number.Binary64
import MarkupNesting.Tree.Visit

/-! How deep a tree is. The depth of a node is its distance from the root, whatever depth is
recorded with it. -/

namespace MarkupNesting

structure Statistics where
  maxDepth : Nat
  totalNodes : Nat
  depthSum : Nat
  averageDepth : Binary64
  /-- The tags down to the first node of the greatest depth. -/
  deepestPath : List String
deriving DecidableEq

/-- A quotient with two decimal places; the hundredth that is nearest, a half going up. -/
def average (sum count : Nat) : Binary64 :=
  if count = 0 then .zero
  else
    let hundred := Binary64.ofNat 100
    let hundredths := ((Binary64.ofNat sum).div (.ofNat count)).mul hundred
    (Binary64.ofNat hundredths.rounded).div hundred

namespace Statistics

structure Tally where
  maxDepth : Nat := 0
  totalNodes : Nat := 0
  depthSum : Nat := 0
  deepestPath : List String := []

def Tally.add (s : Tally) (v : Visit) : Tally :=
  let deeper := s.maxDepth < v.level || s.deepestPath.isEmpty
  { maxDepth := if deeper then v.level else s.maxDepth
    totalNodes := s.totalNodes + 1
    depthSum := s.depthSum + v.level
    deepestPath := if deeper then v.path else s.deepestPath }

def ofTree (root : Tree) : Statistics :=
  let s := root.visits.foldl Tally.add {}
  ⟨s.maxDepth, s.totalNodes, s.depthSum, average s.depthSum s.totalNodes, s.deepestPath⟩

end Statistics

end MarkupNesting
