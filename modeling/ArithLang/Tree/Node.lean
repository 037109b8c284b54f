import ArithLang.Tree.Literal
import ArithLang.Tree.Walk

/-!
# Expression trees

The nodes of an expression tree. A parser makes literals, operations and one root; other trees,
such as a root inside an operation or an operation without its token, can be put together by hand.
Two further forms stand for the general ideas behind the meaningful ones: an operation that is
not said to be a sum, a product or a power, and a plain node with any children. They have no
value and no translation.

A tree shows its outline, in which an operation without an operator is not told apart from a plain
node; trees are equal when their outlines are.
-/

namespace ArithLang

/-- The operators of the expression language. -/
inductive Operator where
  /-- Addition. -/
  | plus
  /-- Multiplication. -/
  | times
  /-- Exponentiation. -/
  | pow
deriving DecidableEq, Repr

namespace Operator

/-- The category of the operator's token. -/
def category : Operator → Category
  | .plus => .plus
  | .times => .times
  | .pow => .pow

/-- The kind of the operator's nodes. -/
def kind : Operator → Kind
  | .plus => .plus
  | .times => .times
  | .pow => .pow

end Operator

/-- An expression tree. -/
inductive Node where
  /-- An integer literal, anchored at its token. -/
  | int (literal : Literal)
  /-- The root of an expression. -/
  | prog (anchor : Option Token) (body : Node)
  /-- An operation with two operands; without an operator it has no meaning. -/
  | binary (operator : Option Operator) (anchor : Option Token) (left right : Node)
  /-- A node with any children and no meaning. -/
  | plain (anchor : Option Token) (children : List Node)

namespace Node

/-- The kind of an operation; without an operator it is that of a plain node. -/
def operationKind : Option Operator → Kind
  | none => .node
  | some operator => operator.kind

mutual

/-- What a tree shows of itself. -/
def outline : Node → Outline
  | .int literal => .node .int (some literal.token) []
  | .prog anchor body => .node .prog anchor [body.outline]
  | .binary operator anchor left right =>
    .node (operationKind operator) anchor [left.outline, right.outline]
  | .plain anchor children => .node .node anchor (outlineAll children)

/-- The outlines of some trees. -/
def outlineAll : List Node → List Outline
  | [] => []
  | child :: rest => child.outline :: outlineAll rest

end

instance : BEq Node := ⟨fun a b => decide (a.outline = b.outline)⟩

/-- The anchor of a node. -/
def anchor (node : Node) : Option Token := node.outline.anchor

/-- The children of a node. -/
def children : Node → List Node
  | .int _ => []
  | .prog _ body => [body]
  | .binary _ _ left right => [left, right]
  | .plain _ children => children

/-- The child at a position; a negative position counts from the end. -/
def child? (node : Node) (position : Int) : Option Node :=
  let position := if position < 0 then position + node.children.length else position
  if position < 0 then none else node.children[position.toNat]?

/-- The operands of an operation. -/
def operands? : Node → Option (Node × Node)
  | .binary _ _ left right => some (left, right)
  | _ => none

/-- The label of a node, for readers. -/
def label (node : Node) : String := node.outline.label

/-- The unambiguous form of a tree. -/
def inspect (node : Node) : String := node.outline.inspect

/-- The dump of a tree: one line for each node, indented by its depth. -/
def dump (node : Node) : String := node.outline.dump

end Node

end ArithLang
