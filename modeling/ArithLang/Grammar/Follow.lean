import ArithLang.Grammar.First

/-!
# Following terminals

The terminals that can follow a nonterminal in what some nonterminal derives. In a production, a
nonterminal is followed by whatever the rest of the right-hand side can begin with, and if that
rest derives the empty sequence, by whatever follows the left-hand side. Every pass that changes
the table adds a terminal to a nonterminal, which bounds the number of passes.
-/

namespace ArithLang.Grammar

/-- The terminals that can follow at the end of `rest`, which stands at the end of a production of
`name`. -/
def followersAfter (first : Table (List String)) (nullable : Table Bool) (name : String)
    (rest : List String) (follow : Table (List String)) : Except Undefined (List String) := do
  let (here, empty) ← firstOfSequence first nullable rest
  if empty then return join here (← follow.find name) else return here

/-- Adds to the nonterminals in a production of `name` the terminals that follow them there. -/
def addFollow (g : Grammar) (first : Table (List String)) (nullable : Table Bool) (name : String) :
    List String → Progress (Table (List String)) → Except Undefined (Progress (Table (List String)))
  | [], progress => .ok progress
  | symbol :: rest, progress =>
    if g.isNonterminal symbol then do
      let candidates ← followersAfter first nullable name rest progress.found
      let known ← progress.found.find symbol
      let new := newMembers known candidates
      addFollow g first nullable name rest
        (if new.isEmpty then progress else ⟨progress.found.set symbol (known ++ new), true⟩)
    else addFollow g first nullable name rest progress

/-- Draws the consequences of all productions in order. -/
def followPass (g : Grammar) (first : Table (List String)) (nullable : Table Bool)
    (follow : Table (List String)) : Except Undefined (Progress (Table (List String))) :=
  g.productions.foldlM
    (fun progress production =>
      addFollow g first nullable production.name production.symbols progress)
    ⟨follow, false⟩

/-- For each nonterminal, the terminals that can follow it. -/
def follow (g : Grammar) : Except Undefined (Table (List String)) := do
  let nullable ← g.nullable
  let first ← g.first
  untilStable (g.followPass first nullable) (g.nonterminals.length * g.terminals.length + 1)
    (.const g.nonterminals [])

end ArithLang.Grammar
