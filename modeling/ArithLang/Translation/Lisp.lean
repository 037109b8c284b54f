import ArithLang.Tree.Node

/-!
# Translation to Lisp

An operation becomes a form with the operator in front, a literal stays as it is spelled. The root
adds a line that loads the function for powers.

Trees may be nested to any depth; no limit on the depth of calls is described (see
`ArithLang.Parser`).
-/

namespace ArithLang

namespace Lisp

/-- The line before a Lisp expression. -/
def header : String := "(require '[clojure.math.numeric-tower :refer [expt]])\n"

/-- The function for an operator. -/
def functionName : Operator → String
  | .plus => "+"
  | .times => "*"
  | .pow => "expt"

/-- The form of an operation. -/
def form (operator : Operator) (left right : String) : String :=
  "(" ++ functionName operator ++ " " ++ left ++ " " ++ right ++ ")"

end Lisp

/-- The Lisp text of a tree, `none` if a node has no meaning. -/
def Node.toLisp : Node → Option String
  | .int literal => some literal.lexeme
  | .prog _ body => return Lisp.header ++ (← body.toLisp)
  | .binary (some operator) _ left right =>
    return Lisp.form operator (← left.toLisp) (← right.toLisp)
  | .binary none _ _ _ => none
  | .plain _ _ => none

end ArithLang
