import SexprReader.Proofs.Outlines

/-!
# Outlines of parts

The outline of a node is its own line, and behind it, each after a line feed, the outlines of its
children two spaces further in (`Node.outline_eq_line_append`).  This is read off the entries that the
walk of `Node.outline` shows: an entry one level deeper has an indentation that is two spaces longer
(`Node.map_line_entries_succ`).

So every part of a node is shown in lines that stand together (`IsBlock`): the outline of a child is a
block in the outline of its parent, and a block in a block is a block (`IsBlock.trans`).
-/

namespace SexprReader

/-! ### Blocks of lines -/

/-- The block stands in the text, between the lines `before` it and the lines `after` it. -/
def IsBlock (block text : String) : Prop :=
  ∃ before after : List String,
    text = String.join (before.map (· ++ "\n")) ++ block ++ String.join (after.map ("\n" ++ ·))

theorem IsBlock.refl (text : String) : IsBlock text text :=
  ⟨[], [], by simp⟩

theorem IsBlock.trans {block text whole : String} (h : IsBlock block text)
    (h' : IsBlock text whole) : IsBlock block whole := by
  obtain ⟨before, after, rfl⟩ := h
  obtain ⟨before', after', rfl⟩ := h'
  refine ⟨before' ++ before, after ++ after', ?_⟩
  simp only [List.map_append, String.join_append, String.append_assoc]

/-- Lines of which each but the first has a line feed in front have one behind each but the last. -/
theorem append_join_lineFeed (line : String) (lines : List String) :
    line ++ String.join (lines.map ("\n" ++ ·)) ++ "\n" =
      String.join ((line :: lines).map (· ++ "\n")) := by
  induction lines generalizing line with
  | nil => simp
  | cons next lines ih =>
    calc
      line ++ String.join ((next :: lines).map ("\n" ++ ·)) ++ "\n"
        = line ++ "\n" ++ (next ++ String.join (lines.map ("\n" ++ ·)) ++ "\n") := by
          simp [String.append_assoc]
      _ = line ++ "\n" ++ String.join ((next :: lines).map (· ++ "\n")) := by rw [ih]
      _ = String.join ((line :: next :: lines).map (· ++ "\n")) := by simp

theorem intercalate_cons_eq (line : String) (lines : List String) :
    "\n".intercalate (line :: lines) = line ++ String.join (lines.map ("\n" ++ ·)) := by
  induction lines generalizing line with
  | nil => simp
  | cons next lines ih => simp [ih, String.append_assoc]

namespace Node

/-! ### The outlines of children -/

theorem Entry.indentAt_two_spaces (indent : String) (depth : Nat) :
    indentAt (indent ++ "  ") depth = indentAt indent (depth + 1) := by
  apply String.toList_injective
  simp [indentAt, Nat.mul_succ, Nat.add_comm (2 * depth), ← List.replicate_append_replicate]

theorem Entry.line_two_spaces (indent : String) (depth : Nat) (node : Node) :
    (node.entry depth).line (indent ++ "  ") = (node.entry (depth + 1)).line indent := by
  unfold Entry.line entry
  rw [indentAt_two_spaces]

mutual

/-- What lies one level deeper is shown two spaces further in. -/
theorem map_line_entries_succ (indent : String) (depth : Nat) (node : Node) :
    (node.entries (depth + 1)).map (Entry.line indent) =
      (node.entries depth).map (Entry.line (indent ++ "  ")) := by
  rw [entries_eq, entries_eq, List.map_cons, List.map_cons, Entry.line_two_spaces]
  cases node with
  | leaf token => rfl
  | tree category children =>
    exact congrArg _ (map_line_entriesAll_succ indent (depth + 1) children)

theorem map_line_entriesAll_succ (indent : String) (depth : Nat) (nodes : List Node) :
    (entriesAll (depth + 1) nodes).map (Entry.line indent) =
      (entriesAll depth nodes).map (Entry.line (indent ++ "  ")) := by
  cases nodes with
  | nil => rfl
  | cons node rest =>
    unfold entriesAll
    rw [List.map_append, List.map_append, map_line_entries_succ indent depth node,
      map_line_entriesAll_succ indent depth rest]

end

/-- A line feed and an outline are its lines, each behind a line feed. -/
theorem lineFeed_append_outline (node : Node) (indent : String) :
    "\n" ++ node.outline indent =
      String.join (((node.entries 0).map (Entry.line indent)).map ("\n" ++ ·)) := by
  rw [outline_eq, entries_eq, List.map_cons, intercalate_cons_eq, List.map_cons, String.join_cons,
    String.append_assoc]

/-- The lines of nodes side by side are the outlines of these nodes, two spaces further in. -/
theorem join_entriesAll (indent : String) (nodes : List Node) :
    String.join (((entriesAll 1 nodes).map (Entry.line indent)).map ("\n" ++ ·)) =
      String.join (nodes.map fun node => "\n" ++ node.outline (indent ++ "  ")) := by
  induction nodes with
  | nil => rfl
  | cons node rest ih =>
    rw [entriesAll, List.map_append, List.map_append, String.join_append, ih, List.map_cons,
      String.join_cons, lineFeed_append_outline, map_line_entries_succ]

/-- An outline is the line of the node, and the outlines of its children two spaces further in. -/
theorem outline_eq_line_append (node : Node) (indent : String) :
    node.outline indent = node.outlineLine indent ++
      String.join (node.children.map fun child => "\n" ++ child.outline (indent ++ "  ")) := by
  rw [outline_eq, entries_eq, List.map_cons, intercalate_cons_eq, join_entriesAll]
  unfold Entry.line entry outlineLine
  rw [Entry.indentAt_zero]

/-! ### The outlines of parts -/

/-- The node `part` lies `depth` levels deep in another one; on level zero it is that node. -/
inductive LiesIn (part : Node) : Nat → Node → Prop
  | self : LiesIn part 0 part
  | child {depth : Nat} {child node : Node} (hc : child ∈ node.children)
      (h : LiesIn part depth child) : LiesIn part (depth + 1) node

/-- The outline of a child stands in the outline of its parent. -/
theorem isBlock_outline_child {child node : Node} (h : child ∈ node.children) (indent : String) :
    IsBlock (child.outline (indent ++ "  ")) (node.outline indent) := by
  obtain ⟨left, right, hc⟩ := List.append_of_mem h
  have hlines : node.outline indent = node.outlineLine indent ++
      String.join ((node.children.map (·.outline (indent ++ "  "))).map ("\n" ++ ·)) := by
    rw [outline_eq_line_append, List.map_map]
    rfl
  -- in front of it are the line of its parent and the outlines to its left
  refine ⟨node.outlineLine indent :: left.map (·.outline (indent ++ "  ")),
    right.map (·.outline (indent ++ "  ")), ?_⟩
  rw [hlines, hc, ← append_join_lineFeed]
  simp [String.append_assoc]

theorem LiesIn.isBlock_outline {part node : Node} {depth : Nat} (h : LiesIn part depth node)
    (indent : String) :
    IsBlock (part.outline (Entry.indentAt indent depth)) (node.outline indent) := by
  induction h generalizing indent with
  | self =>
    rw [Entry.indentAt_zero]
    exact .refl _
  | child hc _ ih =>
    rw [← Entry.indentAt_two_spaces]
    exact (ih (indent ++ "  ")).trans (isBlock_outline_child hc indent)

/-- The walk with a list of waiting nodes shows a node as the recursion on it would: its own line, and
behind it, each after a line feed, the outlines of its children in order.  The line has the indented
category, spaces up to forty characters and one more, and the text.  So every part of the node is shown
in one block. -/
theorem outline_eq_and_isBlock (node : Node) (indent : String) :
    let label := indent ++ node.category.name
    node.outline indent =
        label ++ String.ofList (List.replicate (40 - label.length) ' ') ++ " " ++ node.text ++
          String.join (node.children.map fun child => "\n" ++ child.outline (indent ++ "  ")) ∧
      ∀ part depth, LiesIn part depth node →
        IsBlock (part.outline (indent ++ String.ofList (List.replicate (2 * depth) ' ')))
          (node.outline indent) :=
  ⟨outline_eq_line_append node indent, fun _ _ h => h.isBlock_outline indent⟩

/-- A string of two lines in a list, behind an indentation that is no space. -/
theorem outline_eq_and_isBlock_string :
    let atom : Node := .tree .atom [.leaf ⟨.string, "\"a\n  b\""⟩]
    let list : Node := .tree .list [.leaf ⟨.literal, "("⟩, .tree .seq [.tree .sexpr [atom]],
      .leaf ⟨.literal, ")"⟩]
    LiesIn atom 3 list ∧
      atom.outline ">      " =
        ">      Atom                              \n" ++
          ">        String                          \"a\n  b\"" ∧
      IsBlock (atom.outline ">      ") (list.outline ">") := by
  intro atom list
  have hseq : LiesIn atom 2 (.tree .seq [.tree .sexpr [atom]]) :=
    .child List.mem_cons_self (.child List.mem_cons_self .self)
  have hatom : LiesIn atom 3 list := .child (List.mem_cons_of_mem _ List.mem_cons_self) hseq
  obtain ⟨-, hblock⟩ := outline_eq_and_isBlock list ">"
  exact ⟨hatom, by decide +kernel, hblock atom 3 hatom⟩

end Node

end SexprReader
