import ArithLang.Text.Quoted

/-!
# Tokens

A token has a type and a payload. Its type is one of the categories of the expression language,
or a name chosen by whoever writes a lexer; a name never equals a category, not even the category
that is shown by the same word. Its payload is the text that was cut out, a number computed from
it, or nothing.

Tokens and token types have two written forms: a label for readers, and a form from which the
token can be told apart from any other, with the payload quoted.
-/

namespace ArithLang

/-- The kinds of token in an expression. -/
inductive Category where
  /-- A row of digits. -/
  | int
  /-- The sign of addition. -/
  | plus
  /-- The sign of multiplication. -/
  | times
  /-- The sign of exponentiation. -/
  | pow
  /-- An opening parenthesis. -/
  | openPar
  /-- A closing parenthesis. -/
  | closePar
  /-- The end of the text. -/
  | eof
  /-- A character that belongs to no other category. -/
  | badToken
deriving DecidableEq, Repr

/-- All categories, in their order. -/
def Category.all : List Category :=
  [.int, .plus, .times, .pow, .openPar, .closePar, .eof, .badToken]

/-- The word for a category. -/
def Category.name : Category → String
  | .int => "INT"
  | .plus => "PLUS"
  | .times => "TIMES"
  | .pow => "POW"
  | .openPar => "OPEN_PAR"
  | .closePar => "CLOSE_PAR"
  | .eof => "EOF"
  | .badToken => "BAD_TOKEN"

/-- The category that a word names. -/
def Category.ofName? (name : String) : Option Category :=
  Category.all.find? fun category => category.name == name

@[simp] theorem Category.ofName?_name (category : Category) :
    ofName? category.name = some category := by
  cases category <;> decide

/-- The type of a token. -/
inductive TokenType where
  /-- A category of the expression language. -/
  | category (category : Category)
  /-- A type known by its name only. -/
  | named (name : String)
deriving DecidableEq, Repr

namespace TokenType

/-- The word for a type, which does not tell a category from a name. -/
def name : TokenType → String
  | .category c => c.name
  | .named name => name

/-- The form of a type that marks the categories. -/
def inspect : TokenType → String
  | .category c => "TokenCategory." ++ c.name
  | .named name => name

end TokenType

/-- What a token carries. -/
inductive Payload where
  /-- Nothing. -/
  | absent
  /-- A piece of text. -/
  | text (piece : String)
  /-- A number. -/
  | number (value : Int)
deriving DecidableEq, Repr

namespace Payload

/-- The payload as plain text. -/
def display : Payload → String
  | .absent => ""
  | .text piece => piece
  | .number value => toString value

/-- The payload in its unambiguous form. -/
def inspect : Payload → String
  | .absent => "None"
  | .text piece => Text.quoted piece
  | .number value => toString value

end Payload

/-- A token: a type and what it carries. -/
structure Token where
  /-- The type of the token. -/
  type : TokenType
  /-- What the token carries. -/
  payload : Payload
deriving DecidableEq, Repr

namespace Token

/-- A token of the expression language, made of the text `lexeme`. -/
def ofCategory (category : Category) (lexeme : String) : Token := ⟨.category category, .text lexeme⟩

/-- A token that marks an end and carries nothing. -/
def marker (type : TokenType) : Token := ⟨type, .absent⟩

/-- The label of a token, for readers. -/
def label (token : Token) : String :=
  "[" ++ token.type.name ++ ", \"" ++ token.payload.display ++ "\"]"

/-- The unambiguous form of a token. -/
def inspect (token : Token) : String :=
  "Token(" ++ token.type.inspect ++ ", " ++ token.payload.inspect ++ ")"

end Token

end ArithLang
