import ArithLang.Tree.Node

/-!
# Values handed in from outside

Trees can be put together by hand, and then anything may turn up where a node, a token or a text
belongs. `Value` is what may turn up; `Node.make` puts a node together of values and says what is
wrong with them, and `Draft.build` does so for a whole tree.

The faults of a node are looked for in a fixed order: the number of its children, the children from
left to right, then the anchor. A literal takes no children, and its anchor must be an integer
token.
-/

namespace ArithLang

/-- Anything that may be handed in where a node, a token or a text belongs. -/
inductive Value where
  /-- Nothing. -/
  | absent
  /-- A truth value. -/
  | truth (value : Bool)
  /-- A number. -/
  | number (value : Int)
  /-- A text. -/
  | text (text : String)
  /-- A list. -/
  | list (items : List Value)
  /-- A table of entries with names. -/
  | record (entries : List (String × Value))
  /-- A token. -/
  | token (token : Token)
  /-- A tree. -/
  | node (node : Node)

namespace Value

mutual

/-- The unambiguous form of a value. -/
def inspect : Value → String
  | .absent => "None"
  | .truth true => "True"
  | .truth false => "False"
  | .number value => toString value
  | .text piece => Text.quoted piece
  | .list items => "[" ++ ", ".intercalate (inspectAll items) ++ "]"
  | .record entries => "\x7b" ++ ", ".intercalate (inspectEntries entries) ++ "\x7d"
  | .token t => t.inspect
  | .node tree => tree.inspect

/-- The unambiguous forms of some values. -/
def inspectAll : List Value → List String
  | [] => []
  | item :: rest => item.inspect :: inspectAll rest

/-- The unambiguous forms of some entries. -/
def inspectEntries : List (String × Value) → List String
  | [] => []
  | (key, item) :: rest => (Text.quoted key ++ ": " ++ item.inspect) :: inspectEntries rest

end

/-- The plain form of a value, for readers. -/
def display : Value → String
  | .text piece => piece
  | .token t => t.label
  | .node tree => tree.label
  | value => value.inspect

/-- The number that a value counts as, truth values included. -/
def number? : Value → Option Int
  | .number value => some value
  | .truth value => some (if value then 1 else 0)
  | _ => none

mutual

/-- Whether two values are equal. A truth value equals the number it counts as. -/
def equal : Value → Value → Bool
  | .absent, .absent => true
  | .text a, .text b => a == b
  | .token a, .token b => a == b
  | .node a, .node b => a == b
  | .list as, .list bs => equalAll as bs
  | .record as, .record bs => equalEntries as bs
  | a, b =>
    match a.number?, b.number? with
    | some m, some n => m == n
    | _, _ => false

/-- Whether two lists of values are equal. -/
def equalAll : List Value → List Value → Bool
  | [], [] => true
  | a :: as, b :: bs => equal a b && equalAll as bs
  | _, _ => false

/-- Whether two lists of entries are equal. -/
def equalEntries : List (String × Value) → List (String × Value) → Bool
  | [], [] => true
  | (key, a) :: as, (key', b) :: bs => key == key' && equal a b && equalEntries as bs
  | _, _ => false

end

end Value

/-- The forms of node that can be put together. -/
inductive Form where
  /-- A plain node. -/
  | plain
  /-- An operation without an operator. -/
  | pair
  /-- The root of an expression. -/
  | prog
  /-- An operation. -/
  | operation (operator : Operator)
  /-- An integer literal. -/
  | int
deriving DecidableEq, Repr

namespace Node

/-- Why a node cannot be put together. -/
inductive Error where
  /-- The number of children is wrong. -/
  | arity (kind : Kind) (expected given : Nat)
  /-- A child is not a node. -/
  | notNode (value : Value)
  /-- The anchor is not a token. -/
  | notToken (value : Value)
  /-- The anchor of a literal is not an integer token. -/
  | notInt (value : Value)
  /-- The anchor of a literal holds none. -/
  | literal (error : Literal.Error)

/-- The text of an error. -/
def Error.message : Error → String
  | .arity kind expected given =>
    kind.name ++ " takes " ++ toString expected ++ " children, got " ++ toString given
  | .notNode value => value.inspect ++ " is not a node"
  | .notToken value => value.inspect ++ " is not a token"
  | .notInt value => "Int needs an INT token, got " ++ value.inspect
  | .literal error => error.message

/-- The literal anchored at a value. -/
def makeInt (anchor : Value) : Except Error Node :=
  match anchor with
  | .token ⟨.category .int, payload⟩ =>
    match Literal.ofPayload payload with
    | .ok literal => .ok (.int literal)
    | .error error => .error (.literal error)
  | value => .error (.notInt value)

/-- The node that a value is. -/
def ofValue : Value → Except Error Node
  | .node node => .ok node
  | value => .error (.notNode value)

/-- The anchor that a value is, if it is one. -/
def anchorOfValue : Value → Except Error (Option Token)
  | .absent => .ok none
  | .token token => .ok (some token)
  | value => .error (.notToken value)

/-- The operation with two operands among some values. -/
def makeBinary (operator : Option Operator) (children : List Value) (anchor : Value) :
    Except Error Node :=
  match children with
  | [left, right] => do
    let left ← ofValue left
    let right ← ofValue right
    return .binary operator (← anchorOfValue anchor) left right
  | _ => .error (.arity (operationKind operator) 2 children.length)

/-- The root over the one child among some values. -/
def makeProg (children : List Value) (anchor : Value) : Except Error Node :=
  match children with
  | [body] => do
    let body ← ofValue body
    return .prog (← anchorOfValue anchor) body
  | _ => .error (.arity .prog 1 children.length)

/-- The node of a form with some children and an anchor. -/
def make (form : Form) (children : List Value) (anchor : Value) : Except Error Node :=
  match form with
  | .plain => do
    let nodes ← children.mapM ofValue
    return .plain (← anchorOfValue anchor) nodes
  | .pair => makeBinary none children anchor
  | .prog => makeProg children anchor
  | .operation operator => makeBinary (some operator) children anchor
  | .int => makeInt anchor

end Node

/-- The plan of a tree, or a value that is there already. -/
inductive Draft where
  /-- A value. -/
  | value (value : Value)
  /-- A node that is still to be put together. -/
  | node (form : Form) (anchor : Draft) (children : List Draft)

namespace Draft

mutual

/-- Puts a tree together: first the anchor, then the children from left to right, then the node.
The children of a literal are not looked at. -/
def build : Draft → Except Node.Error Value
  | .value v => .ok v
  | .node form anchor children => do
    let anchor ← anchor.build
    let children ← if form = .int then .ok [] else buildAll children
    return .node (← Node.make form children anchor)

/-- Puts some trees together, from left to right. -/
def buildAll : List Draft → Except Node.Error (List Value)
  | [] => .ok []
  | draft :: rest => do
    let value ← draft.build
    return value :: (← buildAll rest)

end

end Draft

end ArithLang
