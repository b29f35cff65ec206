import SexprReader.Node.Leaves

/-!
# The frontier of a node

`Node.leaves` walks a node with a list of the nodes still to be visited.  This file gives its
equations by recursion on the node: a leaf has itself (`leaves_leaf`), a tree has what its children
have (`leaves_tree`), and a sequence of nodes has the leaves of its parts one after the other
(`leavesAll_append`, `leavesAll_eq_flatMap`).

`Node.frontier` is the same by recursion on the node, with no list of waiting nodes.  What the walk
still has to add is the frontier of all the nodes that wait (`gather_eq_frontierAll`).
-/

namespace SexprReader

namespace Node

attribute [simp] leavesAll_nil

@[simp]
theorem leaves_leaf (token : Token) : (leaf token).leaves = [token] := by
  rw [leaves, leavesAll_leaf_cons, leavesAll_nil]

@[simp]
theorem leaves_tree (category : Category) (children : List Node) :
    (tree category children).leaves = leavesAll children := by
  rw [leaves, leavesAll_tree_cons, List.append_nil]

/-- A tree over one node has its leaves. -/
theorem leaves_tree_singleton (category : Category) (node : Node) :
    (tree category [node]).leaves = node.leaves := leaves_tree category [node]

@[simp]
theorem leavesAll_append :
    ∀ as bs : List Node, leavesAll (as ++ bs) = leavesAll as ++ leavesAll bs
  | [], bs => by rw [leavesAll_nil, List.nil_append, List.nil_append]
  | leaf token :: as, bs => by
    rw [List.cons_append, leavesAll_leaf_cons, leavesAll_leaf_cons, leavesAll_append as bs,
      List.cons_append]
  | tree category children :: as, bs => by
    rw [List.cons_append, leavesAll_tree_cons, leavesAll_tree_cons, ← List.append_assoc,
      leavesAll_append (children ++ as) bs]
-- a tree is replaced by its children, so what shrinks is the number of nodes and not the length
termination_by as => sizeAll as
decreasing_by all_goals simp [sizeAll, size]

@[simp]
theorem leavesAll_cons (node : Node) (rest : List Node) :
    leavesAll (node :: rest) = node.leaves ++ leavesAll rest :=
  leavesAll_append [node] rest

theorem leavesAll_eq_flatMap (nodes : List Node) : leavesAll nodes = nodes.flatMap leaves := by
  induction nodes with
  | nil => rw [leavesAll_nil, List.flatMap_nil]
  | cons node rest ih => rw [leavesAll_cons, ih, List.flatMap_cons]

/-- Tokens that stand side by side are their own leaves. -/
theorem leavesAll_map_leaf (tokens : List Token) : leavesAll (tokens.map leaf) = tokens := by
  induction tokens with
  | nil => exact leavesAll_nil
  | cons token tokens ih => rw [List.map_cons, leavesAll_cons, leaves_leaf, ih, List.singleton_append]

/-! ### The frontier by recursion -/

mutual

/-- The tokens of a node: a leaf is one, and a tree has those of its children. -/
def frontier : Node → List Token
  | leaf token => [token]
  | tree _ children => frontierAll children

/-- The tokens of nodes side by side. -/
def frontierAll : List Node → List Token
  | [] => []
  | node :: rest => node.frontier ++ frontierAll rest

end

@[simp]
theorem frontierAll_append (as bs : List Node) :
    frontierAll (as ++ bs) = frontierAll as ++ frontierAll bs := by
  induction as with
  | nil => rfl
  | cons a as ih => simp [frontierAll, ih]

theorem frontierAll_eq_flatMap (nodes : List Node) :
    frontierAll nodes = nodes.flatMap frontier := by
  induction nodes with
  | nil => rfl
  | cons node rest ih => simp [frontierAll, ih]

/-- The walk adds the frontier of all waiting nodes to what it has found. -/
theorem gather_eq_frontierAll (found : List Token) (waiting : List Node) :
    gather found waiting = found.reverse ++ frontierAll waiting := by
  -- one turn takes a leaf off the waiting nodes, or puts children in the place of their tree
  fun_induction gather found waiting with
  | case1 found => simp [frontierAll]
  | case2 found token waiting ih =>
    rw [ih, frontierAll, frontier, List.reverse_cons, List.append_assoc]
  | case3 found category children waiting ih =>
    rw [ih, frontierAll_append, frontierAll, frontier]

theorem frontier_eq_leaves (node : Node) : node.frontier = node.leaves := by
  unfold leaves leavesAll
  rw [gather_eq_frontierAll]
  simp [frontierAll]

/-- The walk with a list of waiting nodes lists what the recursion on the node does: a leaf, whatever
its category, has itself alone, and a tree has the tokens of its children in their order. -/
theorem leaves_eq_frontier (node : Node) :
    node.leaves = node.frontier ∧
      node.leaves = match node with
        | leaf token => [token]
        | tree _ children => children.flatMap leaves := by
  refine ⟨(frontier_eq_leaves node).symm, ?_⟩
  rw [← frontier_eq_leaves]
  cases node with
  | leaf token => rfl
  | tree category children =>
    show frontierAll children = children.flatMap leaves
    rw [frontierAll_eq_flatMap]
    exact congrArg children.flatMap (funext frontier_eq_leaves)

end Node

end SexprReader
