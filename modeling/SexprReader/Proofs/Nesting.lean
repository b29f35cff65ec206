import SexprReader.Node

/-!
# How deep nodes nest

`Node.nesting` is the greatest number of lists on a path from a node down to a leaf.  Sequences and
expressions count nothing, however long their chains are.  Nodes of another category can be counted
instead of lists; the expressions on a path are what takes room on the stack of calls.
-/

namespace SexprReader

namespace Node

mutual

/-- The greatest number of lists on a path down from the node, itself included, or of nodes of the
category that is `counted` instead. -/
def nesting (node : Node) (counted : Category := .list) : Nat :=
  match node with
  | leaf _ => 0
  | tree category children => (if category = counted then 1 else 0) + nestingAll children counted

/-- The greatest number of lists on a path down from one of the nodes, or of nodes of the category
that is `counted` instead. -/
def nestingAll (nodes : List Node) (counted : Category := .list) : Nat :=
  match nodes with
  | [] => 0
  | node :: rest => max (node.nesting counted) (nestingAll rest counted)

end

variable {category counted : Category} {children nodes : List Node} {n : Nat}

theorem nestingAll_le_iff :
    nestingAll nodes counted ≤ n ↔ ∀ node ∈ nodes, node.nesting counted ≤ n := by
  induction nodes with
  | nil => simp [nestingAll]
  | cons node rest ih => rw [nestingAll, Nat.max_le, ih, List.forall_mem_cons]

theorem nestingAll_append (as bs : List Node) :
    nestingAll (as ++ bs) counted = max (nestingAll as counted) (nestingAll bs counted) := by
  induction as with
  | nil => rw [List.nil_append, nestingAll, Nat.zero_max]
  | cons a as ih => rw [List.cons_append, nestingAll, nestingAll, ih, Nat.max_assoc]

theorem nesting_le_nestingAll {node : Node} (h : node ∈ nodes) :
    node.nesting counted ≤ nestingAll nodes counted :=
  nestingAll_le_iff.1 (Nat.le_refl _) node h

theorem nesting_le_of_mem {child : Node} (h : child ∈ children) :
    child.nesting counted ≤ (tree category children).nesting counted := by
  rw [nesting]
  exact Nat.le_trans (nesting_le_nestingAll h) (Nat.le_add_left _ _)

theorem nesting_tree_pos (counted : Category) (children : List Node) :
    0 < (tree counted children).nesting counted := by
  rw [nesting, if_pos rfl]
  omega

theorem nesting_tree_succ_le_iff :
    (tree counted children).nesting counted ≤ n + 1 ↔
      ∀ node ∈ children, node.nesting counted ≤ n := by
  rw [nesting, if_pos rfl, Nat.add_comm, Nat.add_le_add_iff_right, nestingAll_le_iff]

/-- Only nodes of the one category count. -/
theorem nesting_tree_le_iff (h : category ≠ counted) :
    (tree category children).nesting counted ≤ n ↔
      ∀ node ∈ children, node.nesting counted ≤ n := by
  rw [nesting, if_neg h, Nat.zero_add, nestingAll_le_iff]

end Node

end SexprReader
