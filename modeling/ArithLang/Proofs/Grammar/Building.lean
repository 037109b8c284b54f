import ArithLang.Grammar.Basic
import Mathlib.Data.List.Infix

/-!
# Grammars in the making

A grammar is built step by step, and a step may fail, as a name is never both a terminal and a
nonterminal. A step that fails leaves the grammar as it was; only a row of terminals is taken in up
to the one that fails.

Main statement: nothing is ever taken away, so what a name has become it is after any further steps
(`kind_extended`).
-/

namespace ArithLang.Grammar

variable {g later : Grammar}

/-- A step in the building of a grammar. -/
inductive Step where
  /-- To add a terminal. -/
  | terminal (name : String)
  /-- To add some terminals one after the other. -/
  | terminals (names : List String)
  /-- To add a production. -/
  | production (production : Production)
  /-- To choose the start symbol. -/
  | start (start : Option String)
deriving DecidableEq, Repr

/-- The grammar after a step, which may have failed. -/
def build (g : Grammar) : Step → Grammar
  | .terminal name =>
    match g.addTerminal name with
    | .ok later => later
    | .error _ => g
  | .terminals names => (g.addTerminals names).1
  | .production production =>
    match g.addProduction production with
    | .ok later => later
    | .error _ => g
  | .start start => g.withStart start

/-- The grammar after some steps, any of which may have failed. -/
def extended (g : Grammar) (steps : List Step) : Grammar := steps.foldl build g

/-! ## Nothing is taken away -/

/-- The terminals of `g` are terminals of `later`, whose productions begin with those of `g`. -/
structure Keeps (g later : Grammar) : Prop where
  /-- No terminal is lost. -/
  terminals : g.terminals ⊆ later.terminals
  /-- No production is lost or loses its place. -/
  productions : g.productions <+: later.productions

@[simp] theorem Keeps.refl (g : Grammar) : g.Keeps g := ⟨List.Subset.refl _, List.prefix_rfl⟩

theorem Keeps.trans {last : Grammar} (h : g.Keeps later) (h' : later.Keeps last) : g.Keeps last :=
  ⟨List.Subset.trans h.terminals h'.terminals, h.productions.trans h'.productions⟩

theorem Keeps.nonterminals (h : g.Keeps later) : g.nonterminals ⊆ later.nonterminals := by
  intro name hname
  obtain ⟨production, hmem, heq⟩ := mem_nonterminals.mp hname
  exact mem_nonterminals.mpr ⟨production, h.productions.subset hmem, heq⟩

private theorem keeps_of_addTerminal {name : String} (h : g.addTerminal name = .ok later) :
    g.Keeps later := by
  rw [addTerminal] at h
  split at h
  · cases h
  · split at h
    · cases h
      exact .refl g
    · cases h
      exact ⟨List.subset_append_left _ _, List.prefix_rfl⟩

private theorem keeps_addTerminals (g : Grammar) (names : List String) :
    g.Keeps (g.addTerminals names).1 := by
  induction names generalizing g with
  | nil => exact .refl g
  | cons name names ih =>
    rw [addTerminals]
    split
    · rename_i middle hmiddle
      exact (keeps_of_addTerminal hmiddle).trans (ih middle)
    · exact .refl g

private theorem keeps_of_addProduction {production : Production}
    (h : g.addProduction production = .ok later) : g.Keeps later := by
  rw [addProduction] at h
  split at h
  · cases h
  · cases h
    exact ⟨List.Subset.refl _, List.prefix_append _ _⟩

/-- **One step** takes nothing away. -/
theorem keeps_build (g : Grammar) (step : Step) : g.Keeps (g.build step) := by
  cases step with
  | terminal name =>
    rw [build]
    split
    · exact keeps_of_addTerminal ‹_›
    · exact .refl g
  | terminals names => exact keeps_addTerminals g names
  | production production =>
    rw [build]
    split
    · exact keeps_of_addProduction ‹_›
    · exact .refl g
  | start start => exact ⟨List.Subset.refl _, List.prefix_rfl⟩

/-- **Any number of steps** take nothing away. -/
theorem keeps_extended (g : Grammar) (steps : List Step) : g.Keeps (g.extended steps) := by
  induction steps generalizing g with
  | nil => exact .refl g
  | cons step steps ih => exact (keeps_build g step).trans (ih (g.build step))

/-- A terminal stays one and gets no production, and a nonterminal stays one and becomes no
terminal. -/
theorem kind_extended (g : Grammar) (steps : List Step) :
    (∀ a ∈ g.terminals, a ∈ (g.extended steps).terminals ∧ a ∉ (g.extended steps).nonterminals) ∧
      ∀ name ∈ g.nonterminals,
        name ∈ (g.extended steps).nonterminals ∧ name ∉ (g.extended steps).terminals := by
  have hkeeps := keeps_extended g steps
  have hdisjoint : ∀ name ∈ (g.extended steps).nonterminals,
      name ∉ (g.extended steps).terminals := by
    intro name hname
    obtain ⟨production, hmem, rfl⟩ := mem_nonterminals.mp hname
    exact (g.extended steps).disjoint production hmem
  refine ⟨fun a ha ↦ ⟨hkeeps.terminals ha, fun hname ↦ ?_⟩, fun name hname ↦ ?_⟩
  · exact hdisjoint a hname (hkeeps.terminals ha)
  · exact ⟨hkeeps.nonterminals hname, hdisjoint name (hkeeps.nonterminals hname)⟩

end ArithLang.Grammar
