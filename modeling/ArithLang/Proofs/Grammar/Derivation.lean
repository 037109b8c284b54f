import ArithLang.Grammar.Basic
import Mathlib.Data.List.Basic
import Mathlib.Logic.Relation

/-!
# Derivations

A production lets its name, wherever that stands in a row of symbols, be replaced by the symbols on
its right. A derivation makes any number of such replacements, in any order.

## The order of the steps

What can be derived does not depend on the order, but proofs do: a derivation that jumps back and
forth in its row cannot be followed from one end to the other. `Yields` goes through the row once,
from the left, and says of each symbol that it stays for good or that it is replaced. The two agree
(`derives_iff_yields`), so every statement about derivations can be proved by induction on `Yields`.
The first use of that is that a derivation from a row in two parts is two derivations.

## Meanings

If each symbol is given the words that it stands for, in such a way that every production replaces
its name by symbols that stand for no more, then no derivation adds words either. This is how a
grammar is compared with something that is not a grammar.
-/

namespace ArithLang.Grammar

variable {g : Grammar}

/-- A step: one symbol is replaced by the right-hand side of one of its productions. -/
inductive Rewrites (g : Grammar) : List String → List String → Prop where
  /-- The production may be used between any two parts. -/
  | intro {production : Production} (hmem : production ∈ g.productions)
      (front back : List String) :
      Rewrites g (front ++ production.name :: back) (front ++ (production.symbols ++ back))

/-- Any number of steps. -/
def Derives (g : Grammar) : List String → List String → Prop := Relation.ReflTransGen g.Rewrites

/-- The start symbol derives `w`. -/
def Generates (g : Grammar) (w : List String) : Prop :=
  ∃ start, g.start = some start ∧ g.Derives [start] w

theorem Derives.refl (x : List String) : g.Derives x x := Relation.ReflTransGen.refl

theorem Derives.trans {x y z : List String} (h : g.Derives x y) (h' : g.Derives y z) :
    g.Derives x z :=
  Relation.ReflTransGen.trans h h'

theorem Rewrites.derives {x y : List String} (h : g.Rewrites x y) : g.Derives x y :=
  Relation.ReflTransGen.single h

theorem rewrites_cons {production : Production} (hmem : production ∈ g.productions)
    (back : List String) : g.Rewrites (production.name :: back) (production.symbols ++ back) :=
  .intro hmem [] back

theorem derives_of_mem {production : Production} (hmem : production ∈ g.productions) :
    g.Derives [production.name] production.symbols := by
  have hstep := rewrites_cons hmem []
  rw [List.append_nil] at hstep
  exact hstep.derives

theorem Derives.of_production {production : Production} {x : List String}
    (hmem : production ∈ g.productions) (h : g.Derives production.symbols x) :
    g.Derives [production.name] x :=
  (derives_of_mem hmem).trans h

/-! ## Parts of a row -/

theorem cons_mem_append {x y u v : List String} {symbol : String}
    (h : x ++ symbol :: y = u ++ v) :
    (∃ w, u = x ++ symbol :: w ∧ y = w ++ v) ∨ ∃ w, x = u ++ w ∧ v = w ++ symbol :: y := by
  rcases List.append_eq_append_iff.mp h with ⟨w, rfl, hw⟩ | ⟨w, rfl, rfl⟩
  · cases w with
    | nil => exact .inr ⟨[], by simp, hw.symm⟩
    | cons head w =>
      obtain ⟨rfl, rfl⟩ := List.cons.inj hw
      exact .inl ⟨w, rfl, rfl⟩
  · exact .inr ⟨w, rfl, rfl⟩

theorem Rewrites.append_left {x y : List String} (h : g.Rewrites x y) (part : List String) :
    g.Rewrites (part ++ x) (part ++ y) := by
  obtain ⟨hmem, front, back⟩ := h
  rw [← List.append_assoc, ← List.append_assoc]
  exact .intro hmem (part ++ front) back

theorem Rewrites.append_right {x y : List String} (h : g.Rewrites x y) (part : List String) :
    g.Rewrites (x ++ part) (y ++ part) := by
  obtain ⟨hmem, front, back⟩ := h
  rw [List.append_assoc, List.append_assoc, List.append_assoc, List.cons_append]
  exact .intro hmem front (back ++ part)

theorem Derives.append_left {x y : List String} (h : g.Derives x y) (part : List String) :
    g.Derives (part ++ x) (part ++ y) := by
  induction h with
  | refl => exact .refl _
  | tail _ hstep ih => exact ih.trans (hstep.append_left part).derives

theorem Derives.append_right {x y : List String} (h : g.Derives x y) (part : List String) :
    g.Derives (x ++ part) (y ++ part) := by
  induction h with
  | refl => exact .refl _
  | tail _ hstep ih => exact ih.trans (hstep.append_right part).derives

theorem Derives.append {x y x' y' : List String} (h : g.Derives x x') (h' : g.Derives y y') :
    g.Derives (x ++ y) (x' ++ y') :=
  (h.append_right y).trans (h'.append_left x')

theorem name_notMem_terminals {production : Production} (hmem : production ∈ g.productions) :
    production.name ∉ g.terminals :=
  g.disjoint production hmem

/-! ## Derivations from left to right -/

/-- A derivation that goes through its row once, from the left. -/
inductive Yields (g : Grammar) : List String → List String → Prop where
  /-- The row is used up. -/
  | nil : Yields g [] []
  /-- The first symbol stays. -/
  | keep {x y : List String} (symbol : String) (h : Yields g x y) :
      Yields g (symbol :: x) (symbol :: y)
  /-- The first symbol is replaced. -/
  | expand {x y : List String} {production : Production} (hmem : production ∈ g.productions)
      (h : Yields g (production.symbols ++ x) y) : Yields g (production.name :: x) y

theorem Yields.refl (x : List String) : g.Yields x x := by
  induction x with
  | nil => exact .nil
  | cons symbol x ih => exact .keep symbol ih

theorem Yields.append {x y x' y' : List String} (h : g.Yields x x') (h' : g.Yields y y') :
    g.Yields (x ++ y) (x' ++ y') := by
  induction h with
  | nil => exact h'
  | keep symbol _ ih => exact .keep symbol ih
  | expand hmem _ ih =>
    rw [List.append_assoc] at ih
    exact .expand hmem ih

theorem Yields.split {x y z : List String} (h : g.Yields (x ++ y) z) :
    ∃ x' y', z = x' ++ y' ∧ g.Yields x x' ∧ g.Yields y y' := by
  generalize hrow : x ++ y = row at h
  induction h generalizing x with
  | nil =>
    obtain ⟨rfl, rfl⟩ := List.append_eq_nil_iff.mp hrow
    exact ⟨[], [], rfl, .nil, .nil⟩
  | @keep row z symbol h ih =>
    cases x with
    | nil =>
      rw [List.nil_append] at hrow
      subst hrow
      exact ⟨[], symbol :: z, rfl, .nil, .keep symbol h⟩
    | cons head x =>
      obtain ⟨rfl, htail⟩ := List.cons.inj hrow
      obtain ⟨x', y', rfl, hx, hy⟩ := ih htail
      exact ⟨head :: x', y', rfl, .keep head hx, hy⟩
  | @expand row z production hmem h ih =>
    cases x with
    | nil =>
      rw [List.nil_append] at hrow
      subst hrow
      exact ⟨[], z, rfl, .nil, .expand hmem h⟩
    | cons head x =>
      obtain ⟨rfl, rfl⟩ := List.cons.inj hrow
      obtain ⟨x', y', rfl, hx, hy⟩ := ih (List.append_assoc _ x y)
      exact ⟨x', y', rfl, .expand hmem hx, hy⟩

theorem Yields.trans {x y z : List String} (h : g.Yields x y) (h' : g.Yields y z) :
    g.Yields x z := by
  induction h generalizing z with
  | nil => exact h'
  | keep symbol _ ih =>
    obtain ⟨first, rest, rfl, hfirst, hrest⟩ := Yields.split (x := [symbol]) h'
    exact hfirst.append (ih hrest)
  | expand hmem _ ih => exact .expand hmem (ih h')

private theorem Rewrites.yields {x y : List String} (h : g.Rewrites x y) : g.Yields x y := by
  obtain ⟨hmem, front, back⟩ := h
  exact (Yields.refl front).append (.expand hmem (.refl _))

/-- **The order of the steps does not matter.** -/
theorem derives_iff_yields {x y : List String} : g.Derives x y ↔ g.Yields x y := by
  constructor
  · intro h
    induction h with
    | refl => exact .refl x
    | tail _ hstep ih => exact ih.trans hstep.yields
  · intro h
    induction h with
    | nil => exact .refl []
    | keep symbol _ ih => exact ih.append_left [symbol]
    | expand hmem _ ih => exact (rewrites_cons hmem _).derives.trans ih

/-- A derivation from two parts is a derivation from each. -/
theorem Derives.split {x y z : List String} (h : g.Derives (x ++ y) z) :
    ∃ x' y', z = x' ++ y' ∧ g.Derives x x' ∧ g.Derives y y' := by
  obtain ⟨x', y', hz, hx, hy⟩ := (derives_iff_yields.mp h).split
  exact ⟨x', y', hz, derives_iff_yields.mpr hx, derives_iff_yields.mpr hy⟩

theorem Derives.of_terminal {a : String} {x z : List String} (ha : a ∈ g.terminals)
    (h : g.Derives (a :: x) z) : ∃ y, z = a :: y ∧ g.Derives x y := by
  cases derives_iff_yields.mp h with
  | keep _ hkeep => exact ⟨_, rfl, derives_iff_yields.mpr hkeep⟩
  | expand hmem _ => exact absurd ha (name_notMem_terminals hmem)

theorem Derives.of_terminals {u x z : List String} (hu : u ⊆ g.terminals)
    (h : g.Derives (u ++ x) z) : ∃ y, z = u ++ y ∧ g.Derives x y := by
  induction u generalizing z with
  | nil => exact ⟨z, rfl, h⟩
  | cons a u ih =>
    rw [List.cons_subset] at hu
    obtain ⟨rest, rfl, hrest⟩ := h.of_terminal hu.1
    obtain ⟨y, rfl, hy⟩ := ih hu.2 hrest
    exact ⟨y, rfl, hy⟩

theorem eq_nil_of_derives_nil {z : List String} (h : g.Derives [] z) : z = [] := by
  cases derives_iff_yields.mp h
  rfl

/-! ## Meanings -/

section Meanings

variable {α : Type} {meaning : String → List α → Prop}

/-- The words that a row of symbols stands for, if each symbol stands for some. -/
def Row (meaning : String → List α → Prop) : List String → List α → Prop
  | [], w => w = []
  | symbol :: rest, w => ∃ u v, w = u ++ v ∧ meaning symbol u ∧ Row meaning rest v

@[simp] private theorem row_append_iff {x y : List String} {w : List α} :
    Row meaning (x ++ y) w ↔ ∃ u v, w = u ++ v ∧ Row meaning x u ∧ Row meaning y v := by
  induction x generalizing w with
  | nil => simp [Row]
  | cons symbol x ih =>
    constructor
    · rintro ⟨u, v, rfl, hu, hv⟩
      obtain ⟨v, v', rfl, hx, hy⟩ := ih.mp hv
      exact ⟨u ++ v, v', (List.append_assoc u v v').symm, ⟨u, v, rfl, hu, hx⟩, hy⟩
    · rintro ⟨_, v', rfl, ⟨u, v, rfl, hu, hx⟩, hy⟩
      exact ⟨u, v ++ v', List.append_assoc u v v', hu, ih.mpr ⟨v, v', rfl, hx, hy⟩⟩

/-- If no production adds words to its name, no derivation does. -/
theorem Derives.row {x y : List String} {w : List α} (h : g.Derives x y)
    (hclosed : ∀ production ∈ g.productions, ∀ w, Row meaning production.symbols w →
      meaning production.name w)
    (hw : Row meaning y w) : Row meaning x w := by
  have hyields := derives_iff_yields.mp h
  clear h
  induction hyields generalizing w with
  | nil => exact hw
  | keep symbol _ ih =>
    obtain ⟨u, v, rfl, hu, hv⟩ := hw
    exact ⟨u, v, rfl, hu, ih hv⟩
  | expand hmem _ ih =>
    obtain ⟨u, v, rfl, hu, hv⟩ := row_append_iff.mp (ih hw)
    exact ⟨u, v, rfl, hclosed _ hmem u hu, hv⟩

end Meanings

end ArithLang.Grammar
