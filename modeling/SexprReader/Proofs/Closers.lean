import SexprReader.Proofs.Strictness

/-!
# What looking at the ends of lists changes

A list may end at any node unless the settings ask for a `)`.  Settings that ask for it are stricter
than those that do not, under the same limit, so looking at the ends only rejects (`Strictness`): trees
whose lists all end at a `)` are read as before, and in place of any other tree a `)` is missing
(`Program.read_checkClose`).
-/

namespace SexprReader

namespace Settings

variable (flat : Bool) (limit : Value)

theorem stricter_checkClose :
    Stricter { checkClose := true, flat, maxDepth := limit } { flat, maxDepth := limit } :=
  ⟨rfl, fun _ => rfl, fun _ => Or.inl rfl⟩

/-- The ends of lists are all that is objected to under the same limit. -/
theorem eq_expectedClose_of_objects {fault : ReadFault}
    (h : Objects { checkClose := true, flat, maxDepth := limit } { flat, maxDepth := limit } fault) :
    fault = .grammar .expectedClose := by
  cases h with
  | tooDeep h h' => cases h.symm.trans h'
  | incomparable h h' => cases h.symm.trans h'
  | expectedClose => rfl

/-- Of what is accepted under the same limit, only the ends of lists are asked for. -/
theorem accepts_iff_listsClose {depth : Nat} {node : Node}
    (h : Accepts { flat, maxDepth := limit } depth node) :
    Accepts { checkClose := true, flat, maxDepth := limit } depth node ↔ node.ListsClose :=
  ⟨fun ha => ha.2 rfl, fun hl => ⟨h.1, fun _ => hl⟩⟩

end Settings

namespace Program

/-- Where lists may end at any token, tokens are read to a tree; where they must end at a `)`, the
tokens are read to the same tree if all its lists do, and else a `)` is missing.  Where there is no
tree, the fault stays, or a `)` is missing before it. -/
theorem read_checkClose [CallStack] (flat : Bool) (limit : Value) {options options' : Options}
    (ho : options.settings = .ok { checkClose := true, flat, maxDepth := limit })
    (ho' : options'.settings = .ok { flat, maxDepth := limit }) (tokens : List Token) :
    (∀ tree, read (tokens.map .leaf) options' = .ok tree →
      (tree.ListsClose → read (tokens.map .leaf) options = .ok tree) ∧
        (¬ tree.ListsClose →
          read (tokens.map .leaf) options = .error (.grammar .expectedClose))) ∧
    (∀ fault, read (tokens.map .leaf) options' = .error fault →
      read (tokens.map .leaf) options = .error fault ∨
        read (tokens.map .leaf) options = .error (.grammar .expectedClose)) ∧
    GrammarFault.expectedClose.message = "expected ')'" := by
  obtain ⟨hok, herror⟩ := screened_read (Settings.stricter_checkClose flat limit) ho ho' tokens
  refine ⟨fun tree ht => ?_, fun fault hf => ?_, rfl⟩
  · have haccepts := Settings.accepts_iff_listsClose flat limit (accepts_of_read ho' ht)
    obtain ⟨hsame, hstop⟩ := hok tree ht
    rw [haccepts] at hsame hstop
    refine ⟨hsame, fun hn => ?_⟩
    obtain ⟨fault, hobjects, he⟩ := hstop hn
    rw [he, Settings.eq_expectedClose_of_objects flat limit hobjects]
  · obtain he | ⟨fault', hobjects, he⟩ := herror fault hf
    · exact Or.inl he
    · exact Or.inr (by rw [he, Settings.eq_expectedClose_of_objects flat limit hobjects])

/-- A list that ends at an identifier whose text is `)`, inside of one that ends as it should. -/
theorem read_checkClose_false_close :
    let options : Options := .loose (.object [("check_close", .bool true), ("max_depth", .int 2)])
    let options' : Options := .loose (.object [("max_depth", .int 2)])
    let list (closer : Token) (item : Node) : Node :=
      .tree .sexpr [.tree .list [.leaf .openParen, .tree .seq [item], .leaf closer]]
    let atom : Node := .tree .sexpr [.tree .atom [.leaf ⟨.integer, "1"⟩]]
    let tree : Node := .tree .program [list .closeParen (list ⟨.identifier, ")"⟩ atom)]
    let closed : Node := .tree .program [list .closeParen (list .closeParen atom)]
    (read (tree.leaves.map .leaf) options' = .ok tree ∧ ¬ tree.ListsClose ∧
      read (tree.leaves.map .leaf) options = .error (.grammar .expectedClose)) ∧
    closed.ListsClose ∧ read (closed.leaves.map .leaf) options = .ok closed := by
  intro options options' list atom tree closed
  have ho : options.settings = .ok { checkClose := true, flat := false, maxDepth := .int 2 } := rfl
  have ho' : options'.settings = .ok { flat := false, maxDepth := .int 2 } := rfl
  have hread : read (tree.leaves.map .leaf) options' = .ok tree :=
    eq_ok_of_toOption (by decide +kernel)
  have hread' : read (closed.leaves.map .leaf) options' = .ok closed :=
    eq_ok_of_toOption (by decide +kernel)
  have hclosed : closed.ListsClose := by
    simp [closed, list, atom, Node.listsClose_tree, Node.ListsClose.leaf, Node.isLiteral,
      Node.category, Node.text, Token.closeParen]
  have hopen : ¬ tree.ListsClose := by
    simp [tree, list, Node.listsClose_tree, Node.isLiteral, Node.category]
  obtain ⟨hok, -⟩ := read_checkClose false (.int 2) ho ho' tree.leaves
  obtain ⟨hok', -⟩ := read_checkClose false (.int 2) ho ho' closed.leaves
  exact ⟨⟨hread, hopen, (hok tree hread).2 hopen⟩, hclosed, (hok' closed hread').1 hclosed⟩

end Program

end SexprReader
