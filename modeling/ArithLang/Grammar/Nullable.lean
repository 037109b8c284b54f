import ArithLang.Grammar.Basic
import ArithLang.Grammar.Table

/-!
# Nullable symbols

A symbol is nullable if it derives the empty sequence. At first no symbol is known to be nullable;
a nonterminal becomes so when all symbols of one of its productions are. Every pass that changes
the table settles a further nonterminal, which bounds the number of passes.
-/

namespace ArithLang.Grammar

/-- Whether all of some symbols are known to be nullable. The symbols after the first that is not
are not looked up. -/
def allNullable (nullable : Table Bool) : List String → Except Undefined Bool
  | [] => .ok true
  | symbol :: rest => do
    if ← nullable.find symbol then allNullable nullable rest else return false

/-- Draws the consequence of one production. -/
def settleNullable (progress : Progress (Table Bool)) (production : Production) :
    Except Undefined (Progress (Table Bool)) := do
  if ← progress.found.find production.name then return progress
  else if ← allNullable progress.found production.symbols then
    return ⟨progress.found.set production.name true, true⟩
  else return progress

/-- Draws the consequences of all productions in order. -/
def nullablePass (g : Grammar) (nullable : Table Bool) :
    Except Undefined (Progress (Table Bool)) :=
  g.productions.foldlM settleNullable ⟨nullable, false⟩

/-- For each symbol, whether it derives the empty sequence. -/
def nullable (g : Grammar) : Except Undefined (Table Bool) :=
  untilStable g.nullablePass (g.nonterminals.length + 1) (.const g.symbols false)

end ArithLang.Grammar
