/-!
# Powers in binary64

Powers of natural numbers as they come out of arithmetic in binary64: base and exponent are rounded
to binary64, the exact power of the rounded numbers is rounded again, and the result is read as a
natural number. Rounding is to nearest, and a tie goes to the even neighbour.

A natural number in binary64 has at most 53 significant binary digits and is below `2 ^ 1024`. Where
an operand or the power rounds to `2 ^ 1024` or more, there is no result.
-/

namespace ArithLang.Power

/-- The number of significant binary digits. -/
def precision : Nat := 53

/-- The least power of two that is out of range, as an exponent. -/
def range : Nat := 1024

/-- `n` in units of `unit`, rounded to the nearest whole number, a tie to the even one. -/
def roundDiv (n unit : Nat) : Nat :=
  let quotient := n / unit
  let twice := 2 * (n % unit)
  if unit < twice ∨ (twice = unit ∧ quotient % 2 = 1) then quotient + 1 else quotient

/-- `n` rounded to `precision` significant binary digits, whatever its size. -/
def round (n : Nat) : Nat :=
  if n < Nat.pow 2 precision then n
  else
    let unit := Nat.pow 2 (n.log2 + 1 - precision)
    roundDiv n unit * unit

/-- The binary64 number nearest to `n`, if it is in range. -/
def toBinary64? (n : Nat) : Option Nat :=
  let rounded := round n
  if rounded < Nat.pow 2 range then some rounded else none

/-- The power of two natural numbers, computed in binary64. An exponent above `range` makes no
difference to the powers of 0 and 1, and every other base is out of range there, so it is cut to
`range`. -/
def power? (base exponent : Nat) : Option Nat := do
  let base ← toBinary64? base
  let exponent ← toBinary64? exponent
  toBinary64? (Nat.pow base (min exponent range))

end ArithLang.Power
