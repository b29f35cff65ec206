import SexprReader.Proofs.Nesting
import SexprReader.Proofs.Scannable

/-!
# Trees of the grammar

Which trees stand for programs, said of the trees alone.  An expression holds an atom, a list or a
`)` that closes nothing.  A list is a `(`, a body, and a `(` or `)` that ends it.  What a body may
look like depends on the token behind it (`IsBodyBefore`): a single expression may stand before
either, an expression with a nested body stands before a `)` only, and an expression with a nested
body and an extra one stands before whatever the extra one may.  A nested body begins with an atom
and an extra one with a `(`, so each body is settled by the tokens alone.
-/

namespace SexprReader

namespace Node

/-- The first leaf is a token that an atom may stand over. -/
def StartsWithAtom (node : Node) : Prop :=
  ∃ token ∈ node.leaves.head?, token.category.isAtomic = true

/-- The first leaf is a `(`. -/
def StartsWithOpen (node : Node) : Prop := node.leaves.head? = some .openParen

mutual

/-- The node is an expression. -/
inductive IsExpr : Node → Prop
  | atom {token : Token} (h : token.category.isAtomic = true) :
      IsExpr (.tree .sexpr [.tree .atom [.leaf token]])
  | list {node : Node} (h : IsList node) : IsExpr (.tree .sexpr [node])
  | stray : IsExpr (.tree .sexpr [.leaf .closeParen])

/-- The node is a list. -/
inductive IsList : Node → Prop
  | mk {body : Node} {closer : Token} (hc : closer = .openParen ∨ closer = .closeParen)
      (hb : IsBodyBefore closer body) : IsList (.tree .list [.leaf .openParen, body, .leaf closer])

/-- The node is the body of a list, or a part of one, that stands before `closer`. -/
inductive IsBodyBefore : Token → Node → Prop
  | single {closer : Token} {head : Node} (hx : IsExpr head) :
      IsBodyBefore closer (.tree .seq [head])
  | nested {head inner : Node} (hx : IsExpr head) (ha : inner.StartsWithAtom)
      (hi : IsBodyBefore .closeParen inner) : IsBodyBefore .closeParen (.tree .seq [head, inner])
  | extra {closer : Token} {head inner extra : Node} (hx : IsExpr head) (ha : inner.StartsWithAtom)
      (hi : IsBodyBefore .openParen inner) (ho : extra.StartsWithOpen)
      (he : IsBodyBefore closer extra) : IsBodyBefore closer (.tree .seq [head, inner, extra])

end

/-- The node is a program: any number of expressions. -/
def IsProgram (node : Node) : Prop :=
  ∃ children, node = .tree .program children ∧ ∀ child ∈ children, child.IsExpr

end Node

end SexprReader
