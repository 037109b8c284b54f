import ArithLang.Token

/-!
# Outlines

What every tree shows of itself, whatever it means: each node has a kind, perhaps an anchor, which
is the token that gave rise to it, and its children in order. Two trees are equal when their
outlines are, and the written forms of a tree are those of its outline.

The equality of outlines is decided by the two mutual functions `decEq` and `decEqAll`, since the
children form a list.
-/

namespace ArithLang

/-- The kinds of node, as they are shown. -/
inductive Kind where
  /-- A node without a meaning of its own. -/
  | node
  /-- The root of an expression. -/
  | prog
  /-- A sum. -/
  | plus
  /-- A product. -/
  | times
  /-- A power. -/
  | pow
  /-- An integer literal. -/
  | int
deriving DecidableEq, Repr

/-- The word for a kind. -/
def Kind.name : Kind → String
  | .node => "Node"
  | .prog => "Prog"
  | .plus => "Plus"
  | .times => "Times"
  | .pow => "Pow"
  | .int => "Int"

/-- What a tree shows of itself. -/
inductive Outline where
  /-- A node with its kind, its anchor and its children. -/
  | node (kind : Kind) (anchor : Option Token) (children : List Outline)
deriving Repr

namespace Outline

mutual

/-- Decides the equality of two outlines. -/
def decEq : (a b : Outline) → Decidable (a = b)
  | .node kind anchor children, .node kind' anchor' children' =>
    if hk : kind = kind' then
      if ha : anchor = anchor' then
        match decEqAll children children' with
        | isTrue hc => isTrue (by rw [hk, ha, hc])
        | isFalse hc => isFalse fun h => hc (by injection h)
      else isFalse fun h => ha (by injection h)
    else isFalse fun h => hk (by injection h)

/-- Decides the equality of two lists of outlines. -/
def decEqAll : (as bs : List Outline) → Decidable (as = bs)
  | [], [] => isTrue rfl
  | [], _ :: _ => isFalse (by simp)
  | _ :: _, [] => isFalse (by simp)
  | a :: as, b :: bs =>
    match decEq a b with
    | isFalse h => isFalse fun hab => h (List.cons.inj hab).1
    | isTrue h =>
      match decEqAll as bs with
      | isFalse hs => isFalse fun hab => hs (List.cons.inj hab).2
      | isTrue hs => isTrue (by rw [h, hs])

end

instance : DecidableEq Outline := decEq

/-- The kind of the root. -/
def kind : Outline → Kind
  | .node kind _ _ => kind

/-- The anchor of the root. -/
def anchor : Outline → Option Token
  | .node _ anchor _ => anchor

/-- The children of the root. -/
def children : Outline → List Outline
  | .node _ _ children => children

/-- The label of the root, for readers: its kind, followed by the label of its anchor. -/
def label : Outline → String
  | .node kind none _ => kind.name
  | .node kind (some token) _ => kind.name ++ " " ++ token.label

mutual

/-- The unambiguous form of a tree: its kind, and in parentheses its children and its anchor. -/
def inspect : Outline → String
  | .node kind anchor children =>
    let parts := inspectAll children ++ (anchor.map Token.inspect).toList
    kind.name ++ "(" ++ ", ".intercalate parts ++ ")"

/-- The unambiguous forms of some trees. -/
def inspectAll : List Outline → List String
  | [] => []
  | child :: rest => inspect child :: inspectAll rest

end

end Outline

end ArithLang
