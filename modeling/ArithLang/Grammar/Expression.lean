import ArithLang.Grammar.Basic
import ArithLang.Token

/-!
# The grammar of expressions

The expression language in plain form. Repetitions are written as tail rules, which may be empty, so
that the grammar can be checked for prediction by one token of look-ahead.
-/

namespace ArithLang.Grammar

/-- The productions of the expression language. -/
def expressionProductions : List Production :=
  [⟨"Prog", ["Exp", "EOF"]⟩,
    ⟨"Exp", ["Term", "ExpTail"]⟩,
    ⟨"ExpTail", ["PLUS", "Term", "ExpTail"]⟩,
    ⟨"ExpTail", []⟩,
    ⟨"Term", ["Pow", "TermTail"]⟩,
    ⟨"TermTail", ["TIMES", "Pow", "TermTail"]⟩,
    ⟨"TermTail", []⟩,
    ⟨"Pow", ["Fact", "PowTail"]⟩,
    ⟨"PowTail", ["POW", "Pow"]⟩,
    ⟨"PowTail", []⟩,
    ⟨"Fact", ["INT"]⟩,
    ⟨"Fact", ["OPEN_PAR", "Exp", "CLOSE_PAR"]⟩]

/-- The grammar of the expression language, whose terminals are the names of the categories but for
that of characters which belong to no expression. -/
def expression : Grammar where
  terminals := (Category.all.filter (· ≠ .badToken)).map Category.name
  productions := expressionProductions
  start := some "Prog"
  disjoint := by decide

end ArithLang.Grammar
