import ArithLang.Lexer.Basic
import ArithLang.Log.Entry
import ArithLang.Tree.Literal

/-!
# One token of look-ahead

A parser reads its tokens through a look-ahead: it sees the type of the current token, takes the
token if it is the one it expects, and may push a token back. Tokens come from a source, which is
asked for the token after the current one at the moment the current one is taken. So it is the step
that needs the following token in which a source that fails is noticed; the current token then
stays where it is, and from then on the source is at its end.

Tokens that are pushed back form a list before the source, nearest first. A token pushed back at
the end of the input leaves an empty place in that list.

All operations are functions on the state of the look-ahead that keep the state also when they
fail.
-/

namespace ArithLang

/-- Where tokens come from. -/
structure Source (φ : Type) where
  /-- The tokens that are still to come. -/
  upcoming : List Token
  /-- What comes after them. -/
  ending : Ending φ
  /-- Whether the tokens are reported to the log as they are drawn. A marker never is. -/
  announces : Bool

namespace Source

variable {φ : Type}

/-- The source of some given tokens. -/
def ofTokens (tokens : List Token) : Source φ := ⟨tokens, .finished none, false⟩

/-- The source of the tokens of a text. -/
def ofRun (run : Run φ) : Source φ := ⟨run.tokens, run.ending, true⟩

end Source

/-- Why the tokens are not those of an expression. -/
inductive ParseError where
  /-- One of the types `expected` was needed where `found` stood; `none` is the end of input. -/
  | unexpected (expected : List TokenType) (found : Option TokenType)
  /-- A fault in the parser's own words. -/
  | custom (message : String)
deriving DecidableEq, Repr

namespace ParseError

/-- Some words in double quotes, with commas between them and `or` before the last. -/
def alternatives : List String → String
  | [] => ""
  | [word] => "\"" ++ word ++ "\""
  | words =>
    let shown := words.map fun word => "\"" ++ word ++ "\""
    ", ".intercalate shown.dropLast ++ " or " ++ shown.getLastD ""

/-- The text of an error. -/
def message : ParseError → String
  | .unexpected expected none =>
    "Expected " ++ alternatives (expected.map TokenType.name) ++ ", got end of input"
  | .unexpected expected (some found) =>
    "Expected " ++ alternatives (expected.map TokenType.name) ++ ", got \"" ++ found.name ++ "\""
  | .custom message => message

end ParseError

/-- Why a step of a parser fails. -/
inductive Failure (φ : Type) where
  /-- The tokens are not those of an expression. -/
  | rejected (error : ParseError)
  /-- The source of the tokens fails. -/
  | source (error : φ)
  /-- The source of the tokens never answers, or the tokens never come to an end. -/
  | endless
  /-- There is no source. -/
  | noSource
  /-- Nothing was expected where something has to be. -/
  | nothingExpected
  /-- An integer token holds no literal. -/
  | literal (error : Literal.Error)
deriving DecidableEq, Repr

/-- What a parser expects of the next token. -/
inductive Expectation where
  /-- Nothing at all. -/
  | nothing
  /-- A type. -/
  | one (type : TokenType)
  /-- One of some types. -/
  | oneOf (types : List TokenType)
deriving DecidableEq, Repr

/-- The state of a look-ahead. -/
structure Lookahead (φ : Type) where
  /-- The current token, `none` at the end of the input. -/
  current : Option Token := none
  /-- The tokens that have been pushed back, nearest first. -/
  pushed : List (Option Token) := []
  /-- Where further tokens come from, if there is a source. -/
  source : Option (Source φ) := none
  /-- What has been reported, latest first. -/
  log : List Log.Entry := []

/-- A step of a parser: it may fail, and keeps the state of the look-ahead also then. -/
abbrev Reading (φ : Type) := EStateM (Failure φ) (Lookahead φ)

namespace Lookahead

variable {φ : Type}

/-- The type of the current token, `none` at the end of the input. -/
def peek (state : Lookahead φ) : Option TokenType := state.current.map Token.type

/-- Whether the input is at its end. -/
def atEnd (state : Lookahead φ) : Bool := state.peek.isNone

/-- Adds an entry to the log. -/
def note (entry : Log.Entry) (state : Lookahead φ) : Lookahead φ :=
  { state with log := entry :: state.log }

/-- The state after `token` has been drawn from `source`, which is left as `rest`. -/
def drawn (state : Lookahead φ) (token : Token) (rest : Source φ) : Lookahead φ :=
  let state := { state with source := some rest }
  if rest.announces then state.note (.token token) else state

/-- Draws a token from the source. -/
def draw : Reading φ (Option Token) := fun state =>
  match state.source with
  | none => .error .noSource state
  | some source =>
    let exhausted : Lookahead φ :=
      { state with source := some { source with upcoming := [], ending := .finished none } }
    match source.upcoming, source.ending with
    | token :: rest, _ => .ok (some token) (state.drawn token { source with upcoming := rest })
    | [], .finished marker => .ok marker exhausted
    | [], .failed error => .error (.source error) exhausted
    | [], .stuck (some token) => .ok (some token) (state.drawn token source)
    | [], .stuck none => .error .endless state

/-- Takes a source in place of whatever was there, and draws its first token. If that fails, the
current token and those pushed back stay. -/
def init (source : Source φ) : Reading φ Unit := fun state =>
  match draw { state with source := some source } with
  | .ok token state => .ok () { state with current := token, pushed := [] }
  | .error failure state => .error failure state

/-- Takes the current token, whatever it is, and makes the following one current. -/
def next : Reading φ (Option Token) := fun state =>
  match state.pushed with
  | token :: rest => .ok state.current { state with current := token, pushed := rest }
  | [] =>
    match draw state with
    | .ok token after => .ok state.current { after with current := token }
    | .error failure after => .error failure after

/-- Pushes a token back, which becomes the current one. -/
def backup (token : Option Token) : Reading φ Unit := fun state =>
  .ok () { state with current := token, pushed := state.current :: state.pushed }

/-- Takes the current token if its type is among some types; if not, the token stays and the
reading fails. -/
def consumeOneOf (types : List TokenType) : Reading φ Token := do
  match ← next with
  | none => throw (.rejected (.unexpected types none))
  | some token =>
    if token.type ∈ types then return token
    else
      backup token
      throw (.rejected (.unexpected types (some token.type)))

/-- Takes the current token if it is as expected. -/
def consume : Expectation → Reading φ Token
  | .nothing => throw .nothingExpected
  | .one type => consumeOneOf [type]
  | .oneOf types => consumeOneOf types

/-- Takes the current token if it is of the one type expected, and tells whether it did. Where
nothing is expected, the end of the input is what is meant. -/
def hasConsumed (expectation : Expectation) : Reading φ Bool := do
  let peek := (← get).peek
  let meets : Bool := match expectation with
    | .nothing => peek = none
    | .one type => peek = some type
    | .oneOf _ => false
  if meets then
    let _ ← next
    return true
  else return false

/-- Fails in the parser's own words. -/
def fail (message : String) : Reading φ Unit := throw (.rejected (.custom message))

end Lookahead

end ArithLang
