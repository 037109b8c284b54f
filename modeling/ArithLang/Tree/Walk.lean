import ArithLang.Tree.Outline

/-!
# Walking a tree

A walk goes through a tree in depth-first order and calls back twice at every node: when it enters
the node, before its children, and when it leaves it, after them. What the callbacks do is a
change of state, so a walk is a function on states.

The dump of a tree is such a walk. It writes one line for each node it enters, indented by a
counter that grows by two on entering a node and shrinks by two on leaving it.

Trees may be nested to any depth; no limit on the depth of calls is described (see
`ArithLang.Parser`).
-/

namespace ArithLang

/-- The two moments at which a walk calls back. -/
inductive Visit where
  /-- Before the children of a node. -/
  | pre
  /-- After the children of a node. -/
  | post
deriving DecidableEq, Repr

namespace Outline

section Walk

variable {σ : Type} (enter leave : Outline → σ → σ)

mutual

/-- Walks through a tree: `enter` is called before the children of a node, `leave` after them. -/
def walk : Outline → σ → σ
  | .node kind anchor children, state =>
    leave (.node kind anchor children)
      (walkAll children (enter (.node kind anchor children) state))

/-- Walks through some trees, one after the other. -/
def walkAll : List Outline → σ → σ
  | [], state => state
  | child :: rest, state => walkAll rest (walk child state)

end

end Walk

/-- The visits of a walk in order, with the labels of the nodes; of each kind of visit only if it
is asked for. -/
def visits (pre post : Bool) (tree : Outline) : List (Visit × String) :=
  let note (wanted : Bool) (visit : Visit) (node : Outline) (notes : List (Visit × String)) :=
    if wanted then (visit, node.label) :: notes else notes
  (walk (note pre .pre) (note post .post) tree []).reverse

/-- A dump in the making. -/
structure Dump where
  /-- The indentation of the next line. -/
  indent : Nat := 0
  /-- The lines so far. -/
  text : String := ""

/-- Writes the line of a node and indents what follows. -/
def Dump.enter (node : Outline) (dump : Dump) : Dump where
  indent := dump.indent + 2
  text := dump.text ++ String.ofList (List.replicate dump.indent ' ') ++ node.label ++ "\n"

/-- Takes the indentation of a node back. -/
def Dump.leave (_ : Outline) (dump : Dump) : Dump := { dump with indent := dump.indent - 2 }

/-- The dump of a tree: one line for each node, indented by its depth. -/
def dump (tree : Outline) : String := (walk Dump.enter Dump.leave tree {}).text

end Outline

end ArithLang
