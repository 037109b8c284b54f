import ArithLang.Token

/-!
# Log entries

What the library reports while it works. An entry is a cause; its level, the logger it belongs to
and its text are derived from it.
-/

namespace ArithLang.Log

/-- A severity. The higher, the more urgent. -/
abbrev Level := Int

/-- The level of details. -/
def debug : Level := 10

/-- The level of general information. -/
def info : Level := 20

/-- The level of errors. -/
def error : Level := 40

/-- Something that is reported. -/
inductive Entry where
  /-- A text is about to be parsed. -/
  | source (text : String)
  /-- A lexer has made a token. -/
  | token (token : Token)
  /-- A parser has started. -/
  | parsing
  /-- A text turned out not to be an expression. -/
  | rejected (reason : String)
  /-- A power is out of range. -/
  | overflow (base exponent : Nat)
  /-- A grammar can be parsed with one token of look-ahead. -/
  | predictive (grammar : String)
  /-- A command has set up its log. -/
  | attached
  /-- A command tells its version. -/
  | version (line : String)
  /-- A command fails. -/
  | failure (reason : String)
  /-- A command closes its log. -/
  | detached
deriving DecidableEq, Repr

namespace Entry

/-- How urgent an entry is. -/
def level : Entry → Level
  | .version _ => info
  | .failure _ => error
  | _ => debug

/-- The logger that an entry belongs to. -/
def logger : Entry → String
  | .source _ => "sel.api"
  | .token _ => "sel.lexer"
  | .parsing => "sel.parser"
  | .rejected _ => "sel.api"
  | .overflow _ _ => "sel.eval"
  | .predictive _ => "sel.grammar"
  | _ => "root"

/-- The text of an entry. -/
def message : Entry → String
  | .source text => "Parsing \"" ++ text ++ "\""
  | .token t => "Token " ++ t.label
  | .parsing => "Parsing expression"
  | .rejected reason => "Syntax error: " ++ reason
  | .overflow base exponent => "Overflow in " ++ toString base ++ " ** " ++ toString exponent
  | .predictive grammar => grammar ++ " is LL(1)"
  | .attached => "Loggers attached"
  | .version line => line
  | .failure reason => reason
  | .detached => "Removing loggers"

end Entry

end ArithLang.Log
