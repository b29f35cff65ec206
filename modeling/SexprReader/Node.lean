import SexprReader.Category

/-!
# Nodes

A `Token` is a category with the exact text it was scanned from.  A `Node` is a token (a leaf) or
a tree: a category over an ordered list of children.  A leaf has no children and a tree has the
empty text, whatever their categories; a childless tree is not a leaf.  Equality of nodes is
structural and decidable (`Node.same_eq_true`).
-/

namespace SexprReader

/-- A lexical category with the exact text that was scanned. -/
structure Token where
  category : Category
  text : String
deriving DecidableEq

/-- A token, or a category over an ordered list of children. -/
inductive Node where
  | leaf (token : Token)
  | tree (category : Category) (children : List Node)

namespace Node

def category : Node → Category
  | leaf token => token.category
  | tree category _ => category

/-- The text of a token; a tree has the empty text. -/
def text : Node → String
  | leaf token => token.text
  | tree _ _ => ""

/-- The children of a tree; a token has none. -/
def children : Node → List Node
  | leaf _ => []
  | tree _ children => children

def isLeaf : Node → Bool
  | leaf _ => true
  | tree _ _ => false

/-- The node is a literal of the given text.  Only a leaf can be one when `text` is not empty. -/
def isLiteral (node : Node) (text : String) : Bool :=
  node.category = .literal && node.text = text

theorem eq_leaf_of_isLiteral {node : Node} {text : String} (ht : text ≠ "")
    (h : node.isLiteral text = true) : node = leaf ⟨.literal, text⟩ := by
  simp only [isLiteral, Bool.and_eq_true, decide_eq_true_eq] at h
  obtain ⟨hc, hx⟩ := h
  cases node with
  | leaf token => obtain ⟨c, x⟩ := token; cases hc; cases hx; rfl
  | tree c ns => exact absurd hx.symm ht

/-! ### Equality -/

mutual

/-- Structural equality of two nodes. -/
def same : Node → Node → Bool
  | leaf a, leaf b => a = b
  | tree a as, tree b bs => a = b && sameAll as bs
  | _, _ => false

/-- Structural equality of two sequences of nodes. -/
def sameAll : List Node → List Node → Bool
  | [], [] => true
  | a :: as, b :: bs => same a b && sameAll as bs
  | _, _ => false

end

mutual

theorem eq_of_same {a b : Node} (h : same a b = true) : a = b := by
  cases a <;> cases b <;> simp [same] at h
  · rw [h]
  · rw [h.1, eq_of_sameAll h.2]

theorem eq_of_sameAll {as bs : List Node} (h : sameAll as bs = true) : as = bs := by
  cases as <;> cases bs <;> simp [sameAll] at h
  · rfl
  · rw [eq_of_same h.1, eq_of_sameAll h.2]

end

mutual

theorem same_self (a : Node) : same a a = true := by
  cases a with
  | leaf t => simp [same]
  | tree c ns => simp [same, sameAll_self ns]

theorem sameAll_self (as : List Node) : sameAll as as = true := by
  cases as with
  | nil => rfl
  | cons a as => simp [sameAll, same_self a, sameAll_self as]

end

theorem same_eq_true {a b : Node} : same a b = true ↔ a = b :=
  ⟨eq_of_same, fun h => h ▸ same_self a⟩

instance : DecidableEq Node := fun a b =>
  if h : same a b = true then isTrue (same_eq_true.1 h)
  else isFalse fun e => h (same_eq_true.2 e)

/-! ### Size -/

mutual

/-- The number of nodes in a node, itself included. -/
def size : Node → Nat
  | leaf _ => 1
  | tree _ children => sizeAll children + 1

/-- The number of nodes in a sequence of nodes. -/
def sizeAll : List Node → Nat
  | [] => 0
  | node :: rest => node.size + sizeAll rest

end

@[simp]
theorem sizeAll_append (as bs : List Node) : sizeAll (as ++ bs) = sizeAll as + sizeAll bs := by
  induction as with
  | nil => simp [sizeAll]
  | cons a as ih => simp only [List.cons_append, sizeAll, ih]; omega

end Node

end SexprReader
