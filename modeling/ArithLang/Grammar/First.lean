import ArithLang.Grammar.Nullable

/-!
# First terminals

The terminals with which what a symbol derives can begin. A terminal begins with itself. A
nonterminal begins with whatever the symbols of a production can begin with, up to and including
the first symbol that is not nullable. Every pass that changes the table adds a terminal to a
nonterminal, which bounds the number of passes.
-/

namespace ArithLang.Grammar

/-- Adds to the first terminals of `name` those of the symbols of a production. -/
def addFirst (nullable : Table Bool) (name : String) :
    List String → Progress (Table (List String)) → Except Undefined (Progress (Table (List String)))
  | [], progress => .ok progress
  | symbol :: rest, progress => do
    let candidates ← progress.found.find symbol
    let known ← progress.found.find name
    let new := newMembers known candidates
    let progress := if new.isEmpty then progress else ⟨progress.found.set name (known ++ new), true⟩
    if ← nullable.find symbol then addFirst nullable name rest progress else return progress

/-- Draws the consequences of all productions in order. -/
def firstPass (g : Grammar) (nullable : Table Bool) (first : Table (List String)) :
    Except Undefined (Progress (Table (List String))) :=
  g.productions.foldlM
    (fun progress production => addFirst nullable production.name production.symbols progress)
    ⟨first, false⟩

/-- For each symbol, the terminals with which what it derives can begin. -/
def first (g : Grammar) : Except Undefined (Table (List String)) := do
  let nullable ← g.nullable
  let start : Table (List String) :=
    g.terminals.map (fun name => (name, [name])) ++ .const g.nonterminals []
  untilStable (g.firstPass nullable) (g.nonterminals.length * g.terminals.length + 1) start

/-- The terminals with which what a sequence derives can begin, and whether the whole sequence
derives the empty one. -/
def firstOfSequence (first : Table (List String)) (nullable : Table Bool) :
    List String → Except Undefined (List String × Bool)
  | [] => .ok ([], true)
  | symbol :: rest => do
    let here ← first.find symbol
    if ← nullable.find symbol then
      let (later, empty) ← firstOfSequence first nullable rest
      return (join here later, empty)
    else return (here, false)

/-- The terminals with which what a sequence of a grammar's symbols derives can begin, and whether
the whole sequence derives the empty one. -/
def beginnings (g : Grammar) (symbols : List String) : Except Undefined (List String × Bool) := do
  let nullable ← g.nullable
  let first ← g.first
  firstOfSequence first nullable symbols

end ArithLang.Grammar
