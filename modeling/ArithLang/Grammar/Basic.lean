/-!
# Context-free grammars

A grammar in plain form: some terminal names, a list of productions, and perhaps a start symbol. The
nonterminals are the names that have a production, so a name becomes a nonterminal by its first
production and is never both. A production may use names that are not defined yet;
`Grammar.checkSymbols` looks for those that never were.

The order of the productions matters where they are shown and where conflicts are reported; two
equal productions at different places count as two.
-/

namespace ArithLang

/-- A production: the nonterminal on its left and the sequence of symbols on its right. -/
structure Production where
  /-- The nonterminal that is defined. -/
  name : String
  /-- The symbols that it may stand for. -/
  symbols : List String
deriving DecidableEq, Repr

namespace Production

/-- Whether the right-hand side is empty. -/
def isEmpty (production : Production) : Bool := production.symbols.isEmpty

/-- A production as text. -/
def display (production : Production) : String :=
  let right := if production.isEmpty then "EPS" else " ".intercalate production.symbols
  production.name ++ " -> " ++ right

end Production

/-- A context-free grammar. -/
structure Grammar where
  /-- The terminals, without repetition. -/
  terminals : List String
  /-- The productions in order. -/
  productions : List Production
  /-- The start symbol, if one has been chosen. -/
  start : Option String
  /-- No terminal has a production. -/
  disjoint : ∀ production ∈ productions, production.name ∉ terminals

namespace Grammar

/-- What is wrong with a grammar. -/
inductive Error where
  /-- A nonterminal was to become a terminal. -/
  | nonterminalAsTerminal (name : String)
  /-- A terminal was given a production. -/
  | terminalWithProduction (name : String)
  /-- The start symbol is not a nonterminal. -/
  | startUndefined (start : Option String)
  /-- A production uses a name that is not defined. -/
  | symbolUndefined (name : String)
  /-- Two productions of a nonterminal are selected by the same terminals. -/
  | conflict (terminals : List String) (first second : Production)
deriving DecidableEq, Repr

/-- The text of an error. -/
def Error.message : Error → String
  | .nonterminalAsTerminal name => "Cannot redefine non-terminal " ++ name ++ " as terminal"
  | .terminalWithProduction name => "Cannot redefine terminal " ++ name
  | .startUndefined start => "Start symbol " ++ start.getD "None" ++ " undefined"
  | .symbolUndefined name => "Symbol " ++ name ++ " undefined"
  | .conflict terminals first second =>
    "LL(1) conflict on " ++ ", ".intercalate terminals ++ " between " ++ first.display ++ " and "
      ++ second.display

/-- The grammar in which nothing is defined. -/
def empty : Grammar := ⟨[], [], none, by simp⟩

/-- The nonterminals, in the order of their first productions. -/
def nonterminals (g : Grammar) : List String := (g.productions.map Production.name).eraseDups

/-- All names that are defined. -/
def symbols (g : Grammar) : List String := g.nonterminals ++ g.terminals

/-- Whether a name is a terminal. -/
def isTerminal (g : Grammar) (name : String) : Bool := g.terminals.contains name

/-- Whether a name is a nonterminal. -/
def isNonterminal (g : Grammar) (name : String) : Bool := g.nonterminals.contains name

@[simp] theorem mem_nonterminals {g : Grammar} {name : String} :
    name ∈ g.nonterminals ↔ ∃ production ∈ g.productions, production.name = name := by
  simp [nonterminals]

/-! ## Building a grammar -/

/-- Adds a terminal, unless it is there already. -/
def addTerminal (g : Grammar) (name : String) : Except Error Grammar :=
  if h : name ∈ g.nonterminals then .error (.nonterminalAsTerminal name)
  else if name ∈ g.terminals then .ok g
  else
    .ok { g with
      terminals := g.terminals ++ [name]
      disjoint := by
        intro production hp hmem
        rcases List.mem_append.mp hmem with hmem | hmem
        · exact g.disjoint production hp hmem
        · exact h (mem_nonterminals.mpr ⟨production, hp, List.mem_singleton.mp hmem⟩) }

/-- Adds some terminals one after the other, up to the first that cannot be added. The result is
the grammar so far and what stopped it. -/
def addTerminals (g : Grammar) : List String → Grammar × Option Error
  | [] => (g, none)
  | name :: rest =>
    match g.addTerminal name with
    | .ok g => addTerminals g rest
    | .error error => (g, some error)

/-- Adds a production at the end. -/
def addProduction (g : Grammar) (production : Production) : Except Error Grammar :=
  if h : production.name ∈ g.terminals then .error (.terminalWithProduction production.name)
  else
    .ok { g with
      productions := g.productions ++ [production]
      disjoint := by
        intro other hp
        rcases List.mem_append.mp hp with hp | hp
        · exact g.disjoint other hp
        · exact List.mem_singleton.mp hp ▸ h }

/-- Chooses the start symbol, which need not be defined yet. -/
def withStart (g : Grammar) (start : Option String) : Grammar := { g with start }

/-! ## Looking at a grammar -/

/-- The productions of a name, in order. -/
def productionsOf (g : Grammar) (name : String) : List Production :=
  g.productions.filter fun production => production.name == name

/-- A grammar in a few words. -/
def describe (g : Grammar) : String :=
  "Grammar with " ++ toString g.productions.length ++ " rules and "
    ++ toString g.terminals.length ++ " terminals"

/-- A grammar in full: its description and its productions, one to a line. -/
def dump (g : Grammar) : String :=
  g.productions.foldl (fun text production => text ++ production.display ++ "\n")
    (g.describe ++ "\n")

/-- The first name in a list that is not defined. -/
def undefined? (g : Grammar) (names : List String) : Option String :=
  names.find? fun name => !g.symbols.contains name

/-- Checks that the start symbol and all names that productions use are defined. -/
def checkSymbols (g : Grammar) : Except Error Unit :=
  if !(g.start.any g.isNonterminal) then .error (.startUndefined g.start)
  else
    match g.undefined? (g.productions.flatMap Production.symbols) with
    | some name => .error (.symbolUndefined name)
    | none => .ok ()

end Grammar

/-- Puts a name in its place among sorted names, in front of its equals. -/
def insertName (name : String) : List String → List String
  | [] => [name]
  | other :: rest => if name ≤ other then name :: other :: rest else other :: insertName name rest

/-- Names in the order of their characters' code points. -/
def sortNames (names : List String) : List String := names.foldr insertName []

@[simp] private theorem mem_insertName {name other : String} {names : List String} :
    other ∈ insertName name names ↔ other = name ∨ other ∈ names := by
  induction names with
  | nil => simp [insertName]
  | cons head rest ih =>
    unfold insertName
    split
    · rw [List.mem_cons]
    · rw [List.mem_cons, ih, List.mem_cons, or_left_comm]

@[simp] theorem mem_sortNames {name : String} {names : List String} :
    name ∈ sortNames names ↔ name ∈ names := by
  induction names with
  | nil => simp [sortNames]
  | cons head rest ih =>
    rw [sortNames, List.foldr_cons, mem_insertName, List.mem_cons]
    exact or_congr_right ih

end ArithLang
