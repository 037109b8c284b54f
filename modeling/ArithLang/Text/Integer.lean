import ArithLang.Text.Blank
import ArithLang.Text.Digit
import ArithLang.Text.Quoted

/-!
# Integers as text

Reading a signed decimal integer, and the limit on the length of one. Blanks around the number are
ignored, single underscores may separate digits, and digits of every script count. A number of
more than `digitLimit` digits is neither read nor written.

The digits are counted before anything that follows them is looked at, so a number that is both too
long and followed by something else is reported as too long.
-/

namespace ArithLang.Text

/-- The greatest number of digits that a number may have as text. -/
def digitLimit : Nat := 4300

/-- Whether `n` is short enough to be written. -/
def isWritable (n : Nat) : Bool := n < Nat.pow 10 digitLimit

/-- Why a number cannot be written. -/
def unwritableMessage : String :=
  "Exceeds the limit (4300 digits) for integer string conversion; "
    ++ "use sys.set_int_max_str_digits() to increase the limit"

namespace Integer

/-- Why a text is no integer. -/
inductive Error where
  /-- The text is not written as an integer. -/
  | malformed (text : String)
  /-- The text has too many digits. -/
  | tooLong (digits : Nat)
deriving DecidableEq, Repr

/-- The text of an error; of a malformed number it shows the first two hundred characters. -/
def Error.message : Error → String
  | .malformed text =>
    "invalid literal for int() with base 10: " ++ String.ofList ((quoted text).toList.take 200)
  | .tooLong digits =>
    "Exceeds the limit (4300 digits) for integer string conversion: value has " ++ toString digits
      ++ " digits; use sys.set_int_max_str_digits() to increase the limit"

/-- Whether a character around a number is ignored: a blank, but of the ASCII blanks only those
that move the cursor. -/
def isPadding (c : Char) : Bool :=
  isBlank c && !(0x1C ≤ c.toNat && c.toNat ≤ 0x1F)

/-- Whether the underscores of a row of digits stand alone and between digits; `afterDigit` tells
whether a digit precedes. -/
def separatesDigits : Bool → List Char → Bool
  | afterDigit, [] => afterDigit
  | afterDigit, '_' :: rest => afterDigit && separatesDigits false rest
  | _, _ :: rest => separatesDigits true rest

/-- The sign in front of a number, and what follows it. -/
def takeSign : List Char → Bool × List Char
  | '-' :: rest => (true, rest)
  | '+' :: rest => (false, rest)
  | rest => (false, rest)

/-- The integer that a text writes. -/
def read (text : String) : Except Error Int :=
  let (negative, body) := takeSign (text.toList.dropWhile isPadding)
  let row := body.takeWhile fun c => isDigit c || c == '_'
  let rest := body.dropWhile fun c => isDigit c || c == '_'
  let digits := row.filter isDigit
  if !separatesDigits false row then .error (.malformed text)
  else if digitLimit < digits.length then .error (.tooLong digits.length)
  else if !rest.all isPadding then .error (.malformed text)
  else
    let value : Int := digitsValue digits
    .ok (if negative then -value else value)

end Integer

end ArithLang.Text
