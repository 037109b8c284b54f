import ArithLang.Evaluation
import ArithLang.Parser
import ArithLang.Translation.C
import ArithLang.Translation.Lisp
import ArithLang.Tree.Value

/-!
# Working with expressions

The operations on an expression that is handed in as a text or as a tree: parse it, check it,
evaluate it, translate it, show its tree. They report to a log what they do, and keep the log also
when they fail.

Whatever is handed in that is neither a text nor, where a tree will do, the root of a tree is
refused.
-/

namespace ArithLang.Expression

/-- Why an operation on an expression fails. -/
inductive Failure where
  /-- What was handed in is not a text. -/
  | notText (value : Value)
  /-- The text cannot be parsed. -/
  | parsing (failure : ArithLang.Failure (Lexer.Error Empty))
  /-- The tree has no value. -/
  | evaluation (failure : Evaluation.Failure)
  /-- A node of the tree has no translation. -/
  | meaningless
  /-- The value is too long to be written. -/
  | unprintable

/-- The text of a failure that is a fault of the expression; there is none if the failure has
another cause. -/
def Failure.reason? : Failure → Option String
  | .parsing (.rejected error) => some error.message
  | .parsing (.source error) => some (error.message Empty.elim)
  | .evaluation (.literalTooLong digits) => some (Evaluation.Failure.literalTooLong digits).message
  | .evaluation (.outOfRange base exponent) =>
    some (Evaluation.Failure.outOfRange base exponent).message
  | .unprintable => some "Result of evaluation has too many digits to print"
  | _ => none

/-- An operation that reports to a log, whose latest entry stands first. -/
abbrev Logged := EStateM Failure (List Log.Entry)

/-- Adds an entry to the log. -/
def note (entry : Log.Entry) : Logged Unit := modify (entry :: ·)

/-- The tokens of a text, each of them reported. -/
def tokenize (text : String) : Logged (List Token) := do
  let run : Run (Lexer.Error Empty) := Scanner.run text
  modify (run.tokens.reverse.map Log.Entry.token ++ ·)
  return Scanner.tokens text

/-- Parses a text. -/
def parseText (text : String) : Logged Node := fun log =>
  let reading : Reading (Lexer.Error Empty) Node := do
    Lookahead.init (Parser.source text)
    Parser.parse
  match reading { log := .source text :: log } with
  | .ok tree state => .ok tree state.log
  | .error failure state => .error (.parsing failure) state.log

/-- Parses what was handed in, which must be a text. -/
def parse : Value → Logged Node
  | .text text => parseText text
  | value => throw (.notText value)

/-- Parses a text, and answers the reason if it is no expression. -/
def tryParse (source : Value) : Logged (Except ParseError Node) := fun log =>
  match parse source log with
  | .ok tree log => .ok (.ok tree) log
  | .error (.parsing (.rejected reason)) log =>
    .ok (.error reason) (.rejected reason.message :: log)
  | .error failure log => .error failure log

/-- Whether a text is an expression. -/
def checkSyntax (source : Value) : Logged Bool := return (← tryParse source).isOk

/-- The tree of what was handed in: the tree itself, or what its text parses to. -/
def tree : Value → Logged Node
  | .node (.prog anchor body) => return .prog anchor body
  | source => parse source

/-- The value of a tree. A power out of range is reported to the log. -/
def evaluateTree (tree : Node) : Logged Nat := do
  match tree.evaluate with
  | .ok value => return value
  | .error failure =>
    if let .outOfRange base exponent := failure then note (.overflow base exponent)
    throw (.evaluation failure)

/-- A translation of a tree, which fails if a node has no meaning. -/
def translation (text : Option String) : Logged String :=
  match text with
  | some text => return text
  | none => throw .meaningless

/-- The value of an expression. -/
def evaluate (source : Value) : Logged Nat := do evaluateTree (← tree source)

/-- The value of an expression as text. -/
def valueText (source : Value) : Logged String := do
  let value ← evaluate source
  if Text.isWritable value then return toString value else throw .unprintable

/-- The Lisp text of an expression. -/
def toLisp (source : Value) : Logged String := do translation (← tree source).toLisp

/-- The C text of an expression. -/
def toC (source : Value) : Logged String := do translation (← tree source).toC

/-- The dump of the tree of an expression. -/
def dump (source : Value) : Logged String := return (← tree source).dump

/-- The unambiguous form of the outcome of `tryParse`. -/
def inspectOutcome : Except ParseError Node → String
  | .ok _ => "ParseResult(ok)"
  | .error reason => "ParseResult(error=" ++ Text.quoted reason.message ++ ")"

end ArithLang.Expression
