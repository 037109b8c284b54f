import ArithLang.Text.Digit
import ArithLang.Token

/-!
# Integer literals

A literal is a non-empty row of decimal digits, of any script and with leading zeros if its writer
wants them. It keeps its spelling, and the token it was read from is determined by it.
-/

namespace ArithLang

/-- A non-empty row of decimal digits. -/
structure Literal where
  /-- The digits as they were written. -/
  lexeme : String
  /-- There is a digit. -/
  ne_nil : lexeme.toList ≠ []
  /-- There is nothing but digits. -/
  all_isDigit : lexeme.toList.all Text.isDigit = true
deriving DecidableEq, Repr

namespace Literal

/-- Why a payload is no literal. -/
inductive Error where
  /-- The payload is not a non-empty row of digits. -/
  | malformed (payload : Payload)
  /-- The payload is a number that is not zero, where a text belongs. -/
  | number (value : Int)
deriving DecidableEq, Repr

/-- The text of an error. -/
def Error.message : Error → String
  | .malformed payload => "Invalid integer literal " ++ payload.inspect
  | .number _ => "'int' object has no attribute 'isdecimal'"

/-- The literal that a text spells. -/
def ofText? (text : String) : Option Literal :=
  if ne_nil : text.toList ≠ [] then
    if all_isDigit : text.toList.all Text.isDigit = true then some ⟨text, ne_nil, all_isDigit⟩
    else none
  else none

/-- The literal that a payload holds. The number zero counts as an empty payload. -/
def ofPayload : Payload → Except Error Literal
  | .text text =>
    match ofText? text with
    | some literal => .ok literal
    | none => .error (.malformed (.text text))
  | .number value => .error (if value = 0 then .malformed (.number value) else .number value)
  | .absent => .error (.malformed .absent)

/-- The token that a literal is read from. -/
def token (literal : Literal) : Token := .ofCategory .int literal.lexeme

/-- The number of digits. -/
def length (literal : Literal) : Nat := literal.lexeme.length

/-- The number that a literal writes. -/
def value (literal : Literal) : Nat := Text.digitsValue literal.lexeme.toList

@[simp] theorem ofText?_lexeme (literal : Literal) : ofText? literal.lexeme = some literal := by
  simp only [ofText?, literal.ne_nil, literal.all_isDigit, ne_eq, not_false_eq_true, dite_true]

theorem lexeme_of_ofText? {text : String} {literal : Literal} (h : ofText? text = some literal) :
    literal.lexeme = text := by
  unfold ofText? at h
  split at h
  · split at h
    · exact (congrArg lexeme (Option.some.inj h)).symm
    · cases h
  · cases h

end Literal

end ArithLang
