import ArithLang.Power
import ArithLang.Text.Integer
import ArithLang.Tree.Node

/-!
# The value of an expression

Sums and products are exact; powers are computed in binary64. The left operand is evaluated first,
so if both operands have no value the reason is that of the left one.

An expression has no value if a literal is too long to be read, or a power is out of range. The
report on a power names both operands, which may be too long to be written; then that is what is
reported instead.

Trees may be nested to any depth; no limit on the depth of calls is described (see
`ArithLang.Parser`).
-/

namespace ArithLang

namespace Evaluation

/-- Why a tree has no value. -/
inductive Failure where
  /-- A literal has too many digits. -/
  | literalTooLong (digits : Nat)
  /-- A power is out of range. -/
  | outOfRange (base exponent : Nat)
  /-- A power is out of range, and one of its operands is too long to be written. -/
  | unwritable (base exponent : Nat)
  /-- A node has no meaning. -/
  | meaningless
deriving DecidableEq, Repr

/-- The text of a failure. -/
def Failure.message : Failure → String
  | .literalTooLong digits => "Integer literal with " ++ toString digits ++ " digits is too long"
  | .outOfRange base exponent =>
    "Result of power " ++ toString base ++ " ** " ++ toString exponent ++ " is out of range"
  | .unwritable _ _ => Text.unwritableMessage
  | .meaningless => ""

/-- The value of a literal. -/
def literal (literal : Literal) : Except Failure Nat :=
  if literal.length ≤ Text.digitLimit then .ok literal.value
  else .error (.literalTooLong literal.length)

/-- The value of a power. -/
def power (base exponent : Nat) : Except Failure Nat :=
  match Power.power? base exponent with
  | some value => .ok value
  | none =>
    if Text.isWritable base && Text.isWritable exponent then .error (.outOfRange base exponent)
    else .error (.unwritable base exponent)

/-- The value of an operation on two values. -/
def apply : Operator → Nat → Nat → Except Failure Nat
  | .plus, left, right => .ok (left + right)
  | .times, left, right => .ok (left * right)
  | .pow, left, right => power left right

end Evaluation

/-- The value of a tree. -/
def Node.evaluate : Node → Except Evaluation.Failure Nat
  | .int literal => Evaluation.literal literal
  | .prog _ body => body.evaluate
  | .binary (some operator) _ left right => do
    let left ← left.evaluate
    let right ← right.evaluate
    Evaluation.apply operator left right
  | .binary none _ _ _ => .error .meaningless
  | .plain _ _ => .error .meaningless

end ArithLang
