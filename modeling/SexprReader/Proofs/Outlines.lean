import SexprReader.Node.Outline
import SexprReader.Proofs.Frontier

/-!
# What an outline shows

An outline has one line for each node, and a line shows three things: how deep the node lies, its
category and its text (`Node.Entry`).  `Node.entries` lists them by recursion on the node, a node before
what is below it.  The walk of `Node.outline` writes just these lines (`Node.outline_eq`), although it
keeps the nodes still to be shown in a list of its own.

The depths show which entries are below which.  So nodes side by side are known from their entries,
whatever stands behind them, as long as it is not below them itself (`Node.entriesAll_inj`); only a leaf
without a text would look like a childless tree.
-/

namespace SexprReader

namespace Node

/-- What a line of an outline shows of a node: how deep it lies, its category and its text. -/
structure Entry where
  depth : Nat
  category : Category
  text : String

namespace Entry

/-- The indentation of the nodes that lie `depth` levels deep. -/
def indentAt (indent : String) (depth : Nat) : String :=
  indent ++ String.ofList (List.replicate (2 * depth) ' ')

/-- The line that shows an entry. -/
def line (indent : String) (entry : Entry) : String :=
  padRight 40 (indentAt indent entry.depth ++ entry.category.name) ++ " " ++ entry.text

theorem indentAt_zero (indent : String) : indentAt indent 0 = indent := by
  simp [indentAt]

theorem indentAt_succ (indent : String) (depth : Nat) :
    indentAt indent (depth + 1) = indentAt indent depth ++ "  " := by
  apply String.toList_injective
  simp [indentAt, Nat.mul_succ, ← List.replicate_append_replicate]

end Entry

mutual

/-- The entries of a node that lies `depth` levels deep, and of everything below it. -/
def entries (depth : Nat) : Node → List Entry
  | leaf token => [⟨depth, token.category, token.text⟩]
  | tree category children => ⟨depth, category, ""⟩ :: entriesAll (depth + 1) children

/-- The entries of nodes side by side, and of everything below them. -/
def entriesAll (depth : Nat) : List Node → List Entry
  | [] => []
  | node :: rest => node.entries depth ++ entriesAll depth rest

end

/-- The entry of a node itself. -/
def entry (depth : Nat) (node : Node) : Entry := ⟨depth, node.category, node.text⟩

theorem entries_eq (depth : Nat) (node : Node) :
    node.entries depth = node.entry depth :: entriesAll (depth + 1) node.children := by
  cases node with
  | leaf token => rw [entries, children, entriesAll, entry, category, text]
  | tree category children => rw [entries, Node.children, entry, Node.category, Node.text]

/-! ### The walk -/

/-- The nodes that wait to be shown, each with the indentation of its depth. -/
def indented (indent : String) (waiting : List (Nat × Node)) : List (String × Node) :=
  waiting.map fun (depth, node) => (Entry.indentAt indent depth, node)

/-- The entries of all nodes that wait to be shown. -/
def entriesOf (waiting : List (Nat × Node)) : List Entry :=
  waiting.flatMap fun (depth, node) => node.entries depth

theorem entriesOf_cons (depth : Nat) (node : Node) (waiting : List (Nat × Node)) :
    entriesOf ((depth, node) :: waiting) = node.entries depth ++ entriesOf waiting := rfl

theorem entriesOf_append_children (depth : Nat) (nodes : List Node) (waiting : List (Nat × Node)) :
    entriesOf (nodes.map (depth, ·) ++ waiting) = entriesAll depth nodes ++ entriesOf waiting := by
  induction nodes with
  | nil => rfl
  | cons node rest ih =>
    rw [List.map_cons, List.cons_append, entriesOf_cons, ih, entriesAll, List.append_assoc]

/-- One turn of the walk shows a node, and then its children wait in front of the others. -/
theorem outlineFrom_indented_cons (indent : String) (lines : List String) (depth : Nat) (node : Node)
    (waiting : List (Nat × Node)) :
    outlineFrom lines (indented indent ((depth, node) :: waiting)) =
      outlineFrom ((node.entry depth).line indent :: lines)
        (indented indent (node.children.map (depth + 1, ·) ++ waiting)) := by
  have hchildren : indented indent (node.children.map (depth + 1, ·) ++ waiting) =
      node.children.map (fun child => (Entry.indentAt indent depth ++ "  ", child)) ++
        indented indent waiting := by
    simp [indented, Entry.indentAt_succ]
  rw [hchildren, indented, List.map_cons, outlineFrom]
  rfl

/-- The walk adds the lines of the entries of all waiting nodes. -/
theorem outlineFrom_eq (indent : String) (lines : List String) (waiting : List (Nat × Node)) :
    outlineFrom lines (indented indent waiting) =
      lines.reverse ++ (entriesOf waiting).map (Entry.line indent) := by
  -- a node is replaced by its children, so what shrinks is the number of nodes
  induction hn : sizeAll (waiting.map Prod.snd) using Nat.strongRecOn
    generalizing lines waiting with
  | ind n ih =>
    rcases waiting with _ | ⟨⟨depth, node⟩, waiting⟩
    · rw [indented, List.map_nil, outlineFrom]
      exact (List.append_nil _).symm
    · have hlt : sizeAll ((node.children.map (depth + 1, ·) ++ waiting).map Prod.snd) < n := by
        cases node <;> simp [← hn, children, sizeAll, size, Function.comp_def]
      rw [outlineFrom_indented_cons, ih _ hlt _ _ rfl, entriesOf_append_children, entriesOf_cons,
        entries_eq, List.reverse_cons, List.append_assoc]
      rfl

/-- An outline is the lines of the entries of the node and of everything below it. -/
theorem outline_eq (node : Node) (indent : String) :
    node.outline indent = "\n".intercalate ((node.entries 0).map (Entry.line indent)) := by
  have hstart : indented indent [(0, node)] = [(indent, node)] := by
    simp [indented, Entry.indentAt_zero]
  rw [outline, ← hstart, outlineFrom_eq, entriesOf_cons, List.reverse_nil, List.nil_append]
  exact congrArg (fun entries => "\n".intercalate (entries.map (Entry.line indent)))
    (List.append_nil _)

/-! ### From entries to nodes -/

/-- What comes next is not below a node that lies `depth` levels deep, nor beside it. -/
def Above (depth : Nat) (entries : List Entry) : Prop := ∀ entry ∈ entries.head?, entry.depth < depth

theorem entriesAll_cons_append (depth : Nat) (node : Node) (rest : List Node)
    (more : List Entry) :
    entriesAll depth (node :: rest) ++ more =
      node.entry depth ::
        (entriesAll (depth + 1) node.children ++ (entriesAll depth rest ++ more)) := by
  rw [entriesAll, entries_eq, List.cons_append, List.cons_append, List.append_assoc]

theorem not_above_entriesAll_cons {depth : Nat} {node : Node} {rest : List Node}
    {more : List Entry} : ¬ Above depth (entriesAll depth (node :: rest) ++ more) := by
  rw [entriesAll_cons_append]
  exact fun h => Nat.lt_irrefl depth (h (node.entry depth) rfl)

/-- Behind the children of a node come the nodes beside it, or what is above these. -/
theorem above_entriesAll_append {depth : Nat} {more : List Entry} (h : Above depth more)
    (nodes : List Node) : Above (depth + 1) (entriesAll depth nodes ++ more) := by
  cases nodes with
  | nil => exact fun entry he => Nat.lt_succ_of_lt (h entry he)
  | cons node rest =>
    rw [entriesAll_cons_append]
    intro entry he
    cases he
    exact Nat.lt_succ_self depth

/-- All leaves have texts. -/
def HasTexts (nodes : List Node) : Prop := ∀ token ∈ leavesAll nodes, token.text ≠ ""

theorem HasTexts.of_cons {node : Node} {rest : List Node} (h : HasTexts (node :: rest)) :
    HasTexts node.children ∧ HasTexts rest := by
  rw [HasTexts, leavesAll_cons] at h
  obtain ⟨hnode, hrest⟩ := List.forall_mem_append.1 h
  refine ⟨?_, hrest⟩
  cases node with
  | leaf token => simp [HasTexts, children]
  | tree category children => rwa [leaves_tree] at hnode

theorem HasTexts.head {node : Node} {rest : List Node} (h : HasTexts (node :: rest)) :
    HasTexts [node] := by
  rw [HasTexts, leavesAll_cons] at h
  rw [HasTexts, leavesAll_cons, leavesAll_nil, List.append_nil]
  exact (List.forall_mem_append.1 h).1

/-- A node is known from what its entry shows and what is below it, if leaves have texts. -/
theorem eq_of_entry_eq {a b : Node} {depth : Nat} (ha : HasTexts [a]) (hb : HasTexts [b])
    (he : a.entry depth = b.entry depth) (hc : a.children = b.children) : a = b := by
  simp only [entry, Entry.mk.injEq, true_and] at he
  obtain ⟨hcategory, htext⟩ := he
  cases a with
  | leaf t =>
    cases b with
    | leaf u =>
      obtain ⟨c, x⟩ := t
      cases hcategory
      cases htext
      rfl
    | tree => exact absurd htext (ha t (by simp))
  | tree =>
    cases b with
    | leaf u => exact absurd htext.symm (hb u (by simp))
    | tree =>
      cases hcategory
      cases hc
      rfl

/-- Nodes side by side are known from their entries, whatever stands behind these above them. -/
theorem entriesAll_inj {as bs : List Node} {depth : Nat} {more more' : List Entry}
    (ha : HasTexts as) (hb : HasTexts bs) (hm : Above depth more) (hm' : Above depth more')
    (he : entriesAll depth as ++ more = entriesAll depth bs ++ more') : as = bs ∧ more = more' := by
  -- an entry as deep as the nodes side by side begins one of them, and what stands above ends them
  induction hn : sizeAll as using Nat.strongRecOn generalizing as bs depth more more' with
  | ind n ih =>
    rcases as with _ | ⟨a, as⟩
    · rcases bs with _ | ⟨b, bs⟩
      · exact ⟨rfl, he⟩
      · have hmore : more = entriesAll depth (b :: bs) ++ more' := he
        exact absurd (hmore ▸ hm) not_above_entriesAll_cons
    · rcases bs with _ | ⟨b, bs⟩
      · have hmore : entriesAll depth (a :: as) ++ more = more' := he
        exact absurd (hmore.symm ▸ hm') not_above_entriesAll_cons
      · rw [entriesAll_cons_append, entriesAll_cons_append, List.cons.injEq] at he
        obtain ⟨hentry, hbelow⟩ := he
        have hsize : sizeAll a.children < n ∧ sizeAll as < n := by
          cases a
          all_goals
            simp only [← hn, children, sizeAll, size]
            omega
        obtain ⟨hchildren, hbeside⟩ := ih _ hsize.1 ha.of_cons.1 hb.of_cons.1
          (above_entriesAll_append hm as) (above_entriesAll_append hm' bs) hbelow rfl
        obtain ⟨rfl, hmore⟩ := ih _ hsize.2 ha.of_cons.2 hb.of_cons.2 hm hm' hbeside rfl
        rw [eq_of_entry_eq ha.head hb.head hentry hchildren]
        exact ⟨rfl, hmore⟩

/-- A node is known from its entries. -/
theorem entries_inj {a b : Node} (ha : HasTexts [a]) (hb : HasTexts [b])
    (he : a.entries 0 = b.entries 0) : a = b := by
  have hnone : Above 0 [] := fun _ h => nomatch h
  have hall : entriesAll 0 [a] ++ [] = entriesAll 0 [b] ++ [] := by
    rw [entriesAll, entriesAll, he]
    rfl
  exact List.singleton_inj.1 (entriesAll_inj ha hb hnone hnone hall).1

end Node

end SexprReader
