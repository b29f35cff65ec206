import SexprReader.Node

/-!
# Leaves

`Node.leaves` lists the tokens of a node from left to right.  A sequence node nests once per
element, so the walk keeps the nodes still to be visited in a list of its own (`gather`) and does
not recurse into children.  `leavesAll` is the same walk over a sequence of nodes.
-/

namespace SexprReader

namespace Node

/-- Adds the tokens of the waiting nodes to `found`, which holds the last one first. -/
def gather (found : List Token) : List Node → List Token
  | [] => found.reverse
  | leaf token :: waiting => gather (token :: found) waiting
  | tree _ children :: waiting => gather found (children ++ waiting)
termination_by waiting => sizeAll waiting
decreasing_by all_goals simp [sizeAll, size]

/-- The tokens of a sequence of nodes, from left to right. -/
def leavesAll (nodes : List Node) : List Token := gather [] nodes

/-- The tokens of a node, from left to right; a childless tree has none. -/
def leaves (node : Node) : List Token := leavesAll [node]

theorem gather_eq (found : List Token) :
    ∀ waiting, gather found waiting = found.reverse ++ leavesAll waiting
  | [] => by simp [leavesAll, gather]
  | leaf token :: waiting => by
    rw [leavesAll, gather, gather, gather_eq (token :: found) waiting, gather_eq [token] waiting]
    simp
  | tree category children :: waiting => by
    rw [leavesAll, gather, gather, gather_eq found, leavesAll]
termination_by waiting => sizeAll waiting
decreasing_by all_goals simp [sizeAll, size]

theorem leavesAll_nil : leavesAll [] = [] := by simp [leavesAll, gather]

theorem leavesAll_leaf_cons (token : Token) (waiting : List Node) :
    leavesAll (leaf token :: waiting) = token :: leavesAll waiting := by
  rw [leavesAll, gather, gather_eq]
  rfl

theorem leavesAll_tree_cons (category : Category) (children waiting : List Node) :
    leavesAll (tree category children :: waiting) = leavesAll (children ++ waiting) := by
  rw [leavesAll, gather, leavesAll]

end Node

end SexprReader
