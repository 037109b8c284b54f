import ArithLang.Lookahead
import ArithLang.Scanner
import ArithLang.Tree.Node

/-!
# Parsing expressions

The parser of the expression language, one function for each rule of its grammar:

    Prog ::= Exp EOF
    Exp  ::= Term ('+' Term)*
    Term ::= Pow ('*' Pow)*
    Pow  ::= Fact ('**' Pow)?
    Fact ::= INT | '(' Exp ')'

Sums and products fold to the left, powers nest to the right, and parentheses leave no node. The
token of an operator becomes the anchor of its node.

Every rule takes at least one token before it calls itself again, and at most four rules are entered
between two tokens. The functions are therefore given a number of steps that the tokens within
reach cannot exhaust; they run out of steps only on a source that hands out opening parentheses
for ever, where there is no tree.

Expressions may be nested to any depth. A limit that an interpreter sets to the depth of its calls,
and the failure with which it stops a parser that exceeds it, are not described here: where it is
reached depends on the caller as much as on the text.
-/

namespace ArithLang.Parser

variable {φ : Type}

/-- The type of the tokens of a category. -/
abbrev ofCategory (category : Category) : TokenType := .category category

/-- Whether the current token belongs to a category. -/
def sees (category : Category) : Reading φ Bool := do
  return (← get).peek = some (ofCategory category)

/-- Takes a token of a category. -/
def take (category : Category) : Reading φ Token := Lookahead.consume (.one (ofCategory category))

/-- The node of an integer token. -/
def literalNode (token : Token) : Reading φ Node :=
  match Literal.ofPayload token.payload with
  | .ok literal => return .int literal
  | .error error => throw (.literal error)

mutual

/-- A sum: a product, and any number of further products after plus signs. -/
def expFrom : Nat → Reading φ Node
  | 0 => throw .endless
  | steps + 1 => do sumFrom steps (← termFrom steps)

/-- Adds to `left` the products that follow after plus signs. -/
def sumFrom : Nat → Node → Reading φ Node
  | 0, _ => throw .endless
  | steps + 1, left => do
    if ← sees .plus then
      let operator ← take .plus
      let right ← termFrom steps
      sumFrom steps (.binary (some .plus) (some operator) left right)
    else return left

/-- A product: a power, and any number of further powers after multiplication signs. -/
def termFrom : Nat → Reading φ Node
  | 0 => throw .endless
  | steps + 1 => do productFrom steps (← powFrom steps)

/-- Multiplies `left` by the powers that follow after multiplication signs. -/
def productFrom : Nat → Node → Reading φ Node
  | 0, _ => throw .endless
  | steps + 1, left => do
    if ← sees .times then
      let operator ← take .times
      let right ← powFrom steps
      productFrom steps (.binary (some .times) (some operator) left right)
    else return left

/-- A power: a factor, or a factor raised to a power. -/
def powFrom : Nat → Reading φ Node
  | 0 => throw .endless
  | steps + 1 => do
    let base ← factFrom steps
    if ← sees .pow then
      let operator ← take .pow
      let exponent ← powFrom steps
      return .binary (some .pow) (some operator) base exponent
    else return base

/-- A factor: an integer, or a sum in parentheses. -/
def factFrom : Nat → Reading φ Node
  | 0 => throw .endless
  | steps + 1 => do
    let token ← Lookahead.consume (.oneOf [ofCategory .int, ofCategory .openPar])
    if token.type = ofCategory .int then literalNode token
    else
      let inner ← expFrom steps
      let _ ← take .closePar
      return inner

end

/-- The number of tokens that are within reach before the source ends or gets stuck. -/
def reach (state : Lookahead φ) : Nat :=
  state.pushed.length + ((state.source.map fun source => source.upcoming.length).getD 0) + 2

/-- Runs a rule with more steps than the tokens within reach can use up. -/
def withSteps {α : Type} (rule : Nat → Reading φ α) : Reading φ α := fun state =>
  rule (4 * (reach state + 1)) state

/-- Parses a sum. -/
def exp : Reading φ Node := withSteps expFrom

/-- Parses a product. -/
def term : Reading φ Node := withSteps termFrom

/-- Parses a power. -/
def pow : Reading φ Node := withSteps powFrom

/-- Parses a factor. -/
def fact : Reading φ Node := withSteps factFrom

/-- Parses an expression up to the marker at its end. -/
def prog : Reading φ Node := do
  let body ← exp
  let _ ← take .eof
  return .prog none body

/-- Parses an expression up to the marker at its end, and reports that it does. -/
def parse : Reading φ Node := do
  modify (Lookahead.note .parsing)
  prog

/-- The tokens of a text, as a source. -/
def source {ε : Type} (text : String) : Source (Lexer.Error ε) := .ofRun (Scanner.run text)

end ArithLang.Parser
