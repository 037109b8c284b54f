import ArithLang.Grammar.Follow

/-!
# Prediction by one token of look-ahead

A production is selected by the terminals with which what its right-hand side derives can begin, and
if it derives the empty sequence, by those that can follow its left-hand side. A grammar is LL(1)
if no two productions of a nonterminal are selected by the same terminal; productions are told
apart by their places, so the same production written twice is a conflict.
-/

namespace ArithLang.Grammar

/-- Why a grammar is not found to be LL(1). -/
inductive Failure where
  /-- A name is looked up that is not defined. -/
  | undefined (name : Undefined)
  /-- The grammar is faulty. -/
  | faulty (error : Error)
deriving DecidableEq, Repr

/-- A production with the terminals that select it. -/
abbrev Prediction := Production × List String

/-- The terminals that select a production. -/
def selectors (first follow : Table (List String)) (nullable : Table Bool)
    (production : Production) : Except Undefined (List String) := do
  let (here, empty) ← firstOfSequence first nullable production.symbols
  if empty then return join here (← follow.find production.name) else return here

/-- The productions in order, each with the terminals that select it. -/
def predictions (g : Grammar) : Except Undefined (List Prediction) := do
  let nullable ← g.nullable
  let first ← g.first
  let follow ← g.follow
  g.productions.mapM fun production =>
    return (production, ← selectors first follow nullable production)

/-- All pairs of members of a list, the earlier member first, in lexicographic order. -/
def pairs {α : Type} : List α → List (α × α)
  | [] => []
  | a :: rest => rest.map (fun b => (a, b)) ++ pairs rest

/-- The fault of two productions that a common terminal selects. -/
def clash? (p q : Prediction) : Option Error :=
  let common := p.2.filter q.2.contains
  if common.isEmpty then none else some (.conflict (sortNames common) p.1 q.1)

/-- The first conflict among the productions of a name. -/
def conflictOf? (predictions : List Prediction) (name : String) : Option Error :=
  (pairs (predictions.filter fun p => p.1.name == name)).findSome? fun (p, q) => clash? p q

/-- Checks that one token of look-ahead selects at most one production of each nonterminal. The
nonterminals are taken in alphabetical order, and the first conflict is reported. -/
def checkLL1 (g : Grammar) : Except Failure Unit := do
  match g.checkSymbols with
  | .error error => throw (.faulty error)
  | .ok () =>
    match g.predictions with
    | .error name => throw (.undefined name)
    | .ok predictions =>
      match (sortNames g.nonterminals).findSome? (conflictOf? predictions) with
      | some error => throw (.faulty error)
      | none => return ()

/-- Whether one token of look-ahead selects at most one production of each nonterminal; a faulty
grammar has that property no more than one with a conflict. -/
def isLL1 (g : Grammar) : Except Undefined Bool :=
  match g.checkLL1 with
  | .ok () => .ok true
  | .error (.faulty _) => .ok false
  | .error (.undefined name) => .error name

end ArithLang.Grammar
