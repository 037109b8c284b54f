import ArithLang.Text.Printable

/-!
# Quoted text

A text in quotes, in which every character that would be invisible or ambiguous is escaped. The
quotes are single unless the text holds a single quote and no double one, so that a quote inside
rarely needs an escape. The quote in use and the backslash are preceded by a backslash, the line
feed, carriage return and tabulator are named by a letter, and a character that is not printable
is written by its code point in two, four or eight hexadecimal digits.
-/

namespace ArithLang.Text

/-- The last `width` hexadecimal digits of `n`, in lower case, padded with zeros. -/
def hexDigits : Nat → Nat → List Char
  | 0, _ => []
  | width + 1, n => hexDigits width (n / 16) ++ [Nat.digitChar (n % 16)]

@[simp] theorem length_hexDigits (width n : Nat) : (hexDigits width n).length = width := by
  induction width generalizing n with
  | zero => rfl
  | succ width ih => simp [hexDigits, ih]

namespace Quoted

/-- The quote around a text: double only where that saves escapes. -/
def quote (text : List Char) : Char :=
  if text.contains '\x27' && !text.contains '"' then '"' else '\x27'

/-- One character as it stands between two quotes `q`. -/
def escape (q c : Char) : List Char :=
  if c = q ∨ c = '\\' then ['\\', c]
  else if c = '\n' then ['\\', 'n']
  else if c = '\r' then ['\\', 'r']
  else if c = '\t' then ['\\', 't']
  else if isPrintable c then [c]
  else if c.toNat < 0x100 then '\\' :: 'x' :: hexDigits 2 c.toNat
  else if c.toNat < 0x10000 then '\\' :: 'u' :: hexDigits 4 c.toNat
  else '\\' :: 'U' :: hexDigits 8 c.toNat

/-- The characters of a text in quotes. -/
def encode (text : List Char) : List Char :=
  quote text :: (text.flatMap (escape (quote text)) ++ [quote text])

end Quoted

/-- A text in quotes. -/
def quoted (text : String) : String := String.ofList (Quoted.encode text.toList)

end ArithLang.Text
