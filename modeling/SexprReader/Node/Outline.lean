import SexprReader.Node
import SexprReader.Text.Column

/-!
# Outlines

`Node.outline` shows a node and everything below it, one line for each node from the top, children
two spaces further in than their parent.  As a sequence nests once per element, the walk keeps the
nodes still to be shown in a list of its own (`outlineFrom`) and does not recurse into children.
`Node.table` shows a list of nodes in rows of category and text.
-/

namespace SexprReader

namespace Node

/-- The line of a node: the indented category in a column of forty characters, then the text. -/
def outlineLine (indent : String) (node : Node) : String :=
  padRight 40 (indent ++ node.category.name) ++ " " ++ node.text

/-- Adds the lines of the waiting nodes to `lines`, which holds the last one first. -/
def outlineFrom (lines : List String) : List (String × Node) → List String
  | [] => lines.reverse
  | (indent, node) :: waiting =>
    outlineFrom (node.outlineLine indent :: lines)
      (node.children.map (fun child => (indent ++ "  ", child)) ++ waiting)
termination_by waiting => sizeAll (waiting.map Prod.snd)
decreasing_by cases node <;> simp [children, sizeAll, size, Function.comp_def]

/-- The lines of a node and everything below it, all behind the given indentation. -/
def outline (node : Node) (indent : String) : String :=
  "\n".intercalate (outlineFrom [] [(indent, node)])

/-- The row of a node: the category in a column of twenty characters, then the text. -/
def row (node : Node) : String := padRight 20 node.category.name ++ "\t: " ++ node.text

/-- The rows of the nodes. -/
def table (nodes : List Node) : String := "\n".intercalate (nodes.map row)

end Node

end SexprReader
