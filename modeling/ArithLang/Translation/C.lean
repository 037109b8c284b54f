import ArithLang.Tree.Node

/-!
# Translation to C

An operation becomes an expression in parentheses, a literal stays as it is spelled. Powers call the
function of the mathematical library and take the whole part of its result. The root becomes a
program that prints the value of the expression.

Trees may be nested to any depth; no limit on the depth of calls is described (see
`ArithLang.Parser`).
-/

namespace ArithLang

namespace C

/-- What stands before the expression in a C program. -/
def opening : String :=
  "#include <stdio.h>\n#include <math.h>\n\nint main(void) \x7b\n    printf(\"%d\","

/-- What stands after the expression in a C program. -/
def closing : String := ");\n    return 0;\n\x7d"

/-- The expression for an operation. -/
def expression (operator : Operator) (left right : String) : String :=
  match operator with
  | .plus => "(" ++ left ++ "+" ++ right ++ ")"
  | .times => "(" ++ left ++ "*" ++ right ++ ")"
  | .pow => "((int) pow(" ++ left ++ ", " ++ right ++ "))"

end C

/-- The C text of a tree, `none` if a node has no meaning. -/
def Node.toC : Node → Option String
  | .int literal => some literal.lexeme
  | .prog _ body => return C.opening ++ (← body.toC) ++ C.closing
  | .binary (some operator) _ left right => return C.expression operator (← left.toC) (← right.toC)
  | .binary none _ _ _ => none
  | .plain _ _ => none

end ArithLang
