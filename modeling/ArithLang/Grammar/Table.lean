/-!
# Tables of names

What an analysis of a grammar finds out is a table with one entry for each name. Looking up a name
that the table lacks fails with that name.

An analysis goes through the productions again and again, adding to its table, until a pass adds
nothing; `untilStable` makes the passes.
-/

namespace ArithLang

/-- A name that a table lacks. -/
structure Undefined where
  /-- The name. -/
  name : String
deriving DecidableEq, Repr

/-- A table with entries for names. -/
abbrev Table (α : Type) := List (String × α)

namespace Table

variable {α : Type}

/-- The table in which all of some names have one entry. -/
def const (names : List String) (entry : α) : Table α := names.map fun name => (name, entry)

/-- The entry of a name. -/
def find (table : Table α) (name : String) : Except Undefined α :=
  match table.lookup name with
  | some entry => .ok entry
  | none => .error ⟨name⟩

/-- Replaces the entry of a name, if the table has one. -/
def set (table : Table α) (name : String) (entry : α) : Table α :=
  table.map fun row => if row.1 = name then (name, entry) else row

end Table

/-- An analysis in progress: what has been found so far, and whether this pass has added to it. -/
structure Progress (α : Type) where
  /-- What has been found. -/
  found : α
  /-- Whether this pass has added to it. -/
  changed : Bool := false

/-- Makes passes until one changes nothing, but at most `limit` of them. -/
def untilStable {ε α : Type} (pass : α → Except ε (Progress α)) : Nat → α → Except ε α
  | 0, found => .ok found
  | limit + 1, found => do
    let progress ← pass found
    if progress.changed then untilStable pass limit progress.found else .ok progress.found

/-- The members of `new` that `known` lacks. -/
def newMembers (known new : List String) : List String :=
  new.filter fun name => !known.contains name

/-- The members of both lists, those of the first one first. -/
def join (first second : List String) : List String := first ++ newMembers first second

end ArithLang
