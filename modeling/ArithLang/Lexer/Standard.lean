import ArithLang.Lexer.Basic
import ArithLang.Text.Blank
import ArithLang.Text.Integer

/-!
# Standard patterns and actions

Patterns and actions from which lexers are put together: digits, words, blanks, numbers in a few
notations, and the usual ways of making a token of a piece of text.
-/

namespace ArithLang

namespace Pattern

/-- A row of decimal digits of any script. -/
def digits : Pattern := oneOrMore Text.isDigit

/-- One decimal digit of any script. -/
def digit : Pattern := one Text.isDigit

/-- Whether `c` is one of the letters a to z, the letters A to Z and the underscore. -/
def isWordStart (c : Char) : Bool := c.isAlpha || c == '_'

/-- Whether `c` may continue a word. -/
def isWordPart (c : Char) : Bool := c.isAlphanum || c == '_'

/-- A word of ASCII letters, digits and underscores, which starts with no digit. -/
def word : Pattern := (one isWordStart).andThen (many isWordPart)

/-- One blank. -/
def blank : Pattern := one Text.isBlank

/-- A row of blanks. -/
def blanks : Pattern := oneOrMore Text.isBlank

/-- Any character but the line feed. -/
def any : Pattern := one (· != '\n')

/-- A row of the letters a to z. -/
def lowerCase : Pattern := oneOrMore Char.isLower

/-- Whether `c` is a hexadecimal digit in lower case. -/
def isHexDigit (c : Char) : Bool := c.isDigit || ('a' ≤ c && c ≤ 'f')

/-- A hexadecimal number after `0x`. -/
def hexadecimal : Pattern := (literal ['0', 'x']).andThen (oneOrMore isHexDigit)

/-- Two rows of digits with a point between them. -/
def decimal : Pattern := digits.andThen ((one (· == '.')).andThen digits)

/-- A row of ASCII digits, with or without a minus sign. -/
def signed : Pattern := (optional (one (· == '-'))).andThen (oneOrMore Char.isDigit)

end Pattern

namespace Action

variable {ε : Type}

/-- A token with the rule's name for its type and the piece for its payload. -/
def emit : Action ε := fun name piece => .ok (some ⟨.named name, .text piece⟩)

/-- A token of a category of the expression language. -/
def emitCategory (category : Category) : Action ε :=
  fun _ piece => .ok (some (.ofCategory category piece))

/-- No token. -/
def drop : Action ε := fun _ _ => .ok none

/-- A token with the integer that the piece writes, or a failure if it writes none. -/
def integer : Action Text.Integer.Error := fun name piece =>
  (Text.Integer.read piece).map fun value => some ⟨.named name, .number value⟩

/-- A token with the number of characters of the piece. -/
def length : Action ε := fun name piece => .ok (some ⟨.named name, .number piece.length⟩)

/-- A token without payload. -/
def bare : Action ε := fun name _ => .ok (some (.marker (.named name)))

/-- A token with a type of its own. -/
def rename (type : String) : Action ε := fun _ piece => .ok (some ⟨.named type, .text piece⟩)

end Action

end ArithLang
