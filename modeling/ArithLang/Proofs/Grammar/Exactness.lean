import ArithLang.Proofs.Grammar.Building
import ArithLang.Proofs.Grammar.Totality
import Mathlib.Data.List.Basic

/-!
# The tables of a grammar are exact

Of a grammar whose symbols are defined, the analyses end with a table each, and every name has its
entry there. The entries say neither too much nor too little: a symbol is listed as nullable exactly
if it derives the empty row (`find_nullable_iff_derives`), its first terminals are those with which
something that it derives begins (`find_first_iff_derives`), and what follows a nonterminal is what
stands behind it in something that a nonterminal derives (`find_follow_iff_derives`). The last
nonterminal may be any one; the start symbol plays no part in the tables.

That the entries do not say too much is known from how the passes go. That they do not say too
little needs only that the tables are closed under their rules, so the proofs here are about
`Saturated` and derivations.
-/

namespace ArithLang.Grammar

variable {g : Grammar} {nullable : Table Bool} {first follow : Table (List String)}
  {symbol name a : String} {symbols : List String}

/-- The analyses of `g` end with these tables, which have entries for all names they are about. -/
structure Analysed (g : Grammar) (nullable : Table Bool) (first follow : Table (List String)) :
    Prop where
  /-- The nullable symbols are found. -/
  nullable_eq : g.nullable = .ok nullable
  /-- The first terminals are found. -/
  first_eq : g.first = .ok first
  /-- The following terminals are found. -/
  follow_eq : g.follow = .ok follow
  /-- Every symbol is said to be nullable or not. -/
  covers_nullable : nullable.Covers g.symbols
  /-- Every symbol has its first terminals. -/
  covers_first : first.Covers g.symbols
  /-- Every nonterminal has its following terminals. -/
  covers_follow : follow.Covers g.nonterminals

theorem exists_analysed (h : g.checkSymbols = .ok ()) :
    ∃ nullable first follow, g.Analysed nullable first follow := by
  have hdefined := (checkSymbols_eq_ok_iff.mp h).2
  obtain ⟨nullable, hnullable, hcovers⟩ := hdefined.nullable
  obtain ⟨first, hfirst, hcovers'⟩ := hdefined.first
  obtain ⟨follow, hfollow, hcovers''⟩ := hdefined.follow
  exact ⟨nullable, first, follow, hnullable, hfirst, hfollow, hcovers, hcovers', hcovers''⟩

namespace Analysed

theorem saturated (h : g.Analysed nullable first follow) :
    g.Saturated nullable.marked first.members follow.members :=
  Grammar.saturated h.nullable_eq h.first_eq h.follow_eq

/-! ## Rows of symbols -/

theorem forall_mem_marked_iff (h : g.Analysed nullable first follow) :
    (∀ symbol ∈ symbols, symbol ∈ nullable.marked) ↔ g.Derives symbols [] := by
  constructor
  · intro hsymbols
    exact derives_nil_of_vanishes fun symbol hsymbol ↦
      (nullable_spec h.nullable_eq).1 symbol (hsymbols symbol hsymbol)
  · exact h.saturated.forall_mem_nullable

theorem opens_iff (h : g.Analysed nullable first follow) :
    Opens nullable.marked first.members symbols a ↔
      a ∈ g.terminals ∧ ∃ y, g.Derives symbols (a :: y) := by
  constructor
  · exact derives_of_opens (nullable_spec h.nullable_eq).1 (first_spec h.nullable_eq h.first_eq).1
  · rintro ⟨ha, y, hy⟩
    exact h.saturated.opens ha hy

/-! ## Single symbols -/

private theorem mem_marked_iff (h : g.Analysed nullable first follow) :
    symbol ∈ nullable.marked ↔ g.Derives [symbol] [] := by
  rw [← h.forall_mem_marked_iff, List.forall_mem_singleton]

private theorem mem_first_iff (h : g.Analysed nullable first follow) :
    (symbol, a) ∈ first.members ↔ a ∈ g.terminals ∧ ∃ y, g.Derives [symbol] (a :: y) := by
  rw [← h.opens_iff]
  simp [Opens]

private theorem mem_follow_iff (h : g.Analysed nullable first follow)
    (hname : name ∈ g.nonterminals) :
    (name, a) ∈ follow.members ↔ a ∈ g.terminals ∧
      ∃ start ∈ g.nonterminals, ∃ x y, g.Derives [start] (x ++ name :: a :: y) := by
  constructor
  · exact (follow_spec h.nullable_eq h.first_eq h.follow_eq).1 (name, a)
  · rintro ⟨ha, start, -, x, y, hderives⟩
    exact h.saturated.mem_follow hderives hname ha (.refl (a :: y))

end Analysed

/-! ## The entries -/

/-- **Nullability is exact.** Of a grammar whose symbols are defined, a symbol is listed as nullable
exactly if it derives the empty row, and no terminal is. -/
theorem find_nullable_iff_derives (h : g.checkSymbols = .ok ()) :
    ∃ nullable, g.nullable = .ok nullable ∧
      (∀ symbol ∈ g.symbols, ∃ empty, nullable.find symbol = .ok empty ∧
        (empty = true ↔ g.Derives [symbol] [])) ∧
      ∀ a ∈ g.terminals, nullable.find a = .ok false := by
  obtain ⟨nullable, first, follow, hanalysed⟩ := exists_analysed h
  have hentry : ∀ symbol ∈ g.symbols, ∃ empty, nullable.find symbol = .ok empty ∧
      (empty = true ↔ g.Derives [symbol] []) := by
    intro symbol hsymbol
    obtain ⟨empty, hempty, -⟩ := hanalysed.covers_nullable symbol hsymbol
    refine ⟨empty, hempty, ?_⟩
    rw [← hanalysed.mem_marked_iff, Table.mem_marked, hempty, Except.ok.injEq]
  refine ⟨nullable, hanalysed.nullable_eq, hentry, fun a ha ↦ ?_⟩
  obtain ⟨empty, hempty, hiff⟩ := hentry a (List.mem_append_right _ ha)
  have hnot : ¬ g.Derives [a] [] := by
    intro hderives
    obtain ⟨y, hy, -⟩ := hderives.of_terminal ha
    cases hy
  rw [hempty, Bool.eq_false_iff.mpr fun htrue ↦ hnot (hiff.mp htrue)]

/-- Steps that build a grammar with a cycle, a left recursion and a name that derives no terminals
alone. The terminal `x` is refused a production, and the last row of terminals breaks off. -/
def listSteps : List Step :=
  [.terminals ["x", ","], .production ⟨"list", ["list", "opt", "x"]⟩, .production ⟨"list", ["opt"]⟩,
    .production ⟨"opt", []⟩, .production ⟨"opt", ["opt", "opt"]⟩, .production ⟨"x", ["opt"]⟩,
    .terminals [";", "opt", "y"], .production ⟨"lost", ["lost", ";"]⟩, .start (some "list")]

theorem checkSymbols_listSteps : (empty.extended listSteps).checkSymbols = .ok () := by decide

private theorem nullable_listSteps : (empty.extended listSteps).nullable
    = .ok [("list", true), ("opt", true), ("lost", false), ("x", false), (",", false),
      (";", false)] := by decide

theorem derives_nil_listSteps :
    (empty.extended listSteps).checkSymbols = .ok () ∧
      (empty.extended listSteps).Derives ["list"] [] ∧
      ¬ (empty.extended listSteps).Derives ["lost"] [] := by
  obtain ⟨nullable, hnullable, hentries, -⟩ := find_nullable_iff_derives checkSymbols_listSteps
  cases nullable_listSteps.symm.trans hnullable
  obtain ⟨_, ⟨⟩, hlist⟩ := hentries "list" (by decide)
  obtain ⟨_, ⟨⟩, hlost⟩ := hentries "lost" (by decide)
  refine ⟨checkSymbols_listSteps, hlist.mp rfl, fun hderives ↦ ?_⟩
  exact Bool.false_ne_true (hlost.mpr hderives)

/-- **First terminals are exact.** Of a grammar that was built from another one, or from nothing, by
any steps, and whose symbols are defined, the entry of a symbol holds the terminals with which
something that it derives begins. What is computed from the entries for a row of symbols are the
terminals with which something that the row derives begins, and whether it derives the empty row. -/
theorem find_first_iff_derives (g : Grammar) (steps : List Step)
    (h : (g.extended steps).checkSymbols = .ok ()) :
    ∃ nullable first, (g.extended steps).nullable = .ok nullable ∧
      (g.extended steps).first = .ok first ∧
      (∀ symbol ∈ (g.extended steps).symbols, ∃ terminals, first.find symbol = .ok terminals ∧
        ∀ a, a ∈ terminals ↔ a ∈ (g.extended steps).terminals ∧
          ∃ y, (g.extended steps).Derives [symbol] (a :: y)) ∧
      ∀ symbols ⊆ (g.extended steps).symbols, ∃ here empty,
        firstOfSequence first nullable symbols = .ok (here, empty) ∧
        (∀ a, a ∈ here ↔ a ∈ (g.extended steps).terminals ∧
          ∃ y, (g.extended steps).Derives symbols (a :: y)) ∧
        (empty = true ↔ (g.extended steps).Derives symbols []) := by
  obtain ⟨nullable, first, follow, hanalysed⟩ := exists_analysed h
  refine ⟨nullable, first, hanalysed.nullable_eq, hanalysed.first_eq, ?_, ?_⟩
  · intro symbol hsymbol
    obtain ⟨terminals, hterminals, -⟩ := hanalysed.covers_first symbol hsymbol
    refine ⟨terminals, hterminals, fun a ↦ ?_⟩
    rw [← Table.mem_members_iff hterminals, hanalysed.mem_first_iff]
  · intro symbols hsymbols
    obtain ⟨⟨here, empty⟩, hsequence, -⟩ := succeeds_firstOfSequence
      (hanalysed.covers_first.mono hsymbols) (hanalysed.covers_nullable.mono hsymbols)
    obtain ⟨hhere, hempty⟩ := firstOfSequence_eq_ok hsequence
    refine ⟨here, empty, hsequence, fun a ↦ ?_, ?_⟩
    · rw [hhere, hanalysed.opens_iff]
    · rw [hempty, hanalysed.forall_mem_marked_iff]

/-- A row begins with what its nullable symbols begin with, and a name that derives itself in front
of all else with no terminal. -/
theorem begins_listSteps :
    (empty.extended listSteps).checkSymbols = .ok () ∧
      (∃ y, (empty.extended listSteps).Derives ["opt", "list", ";"] ("x" :: y)) ∧
      (¬ ∃ y, (empty.extended listSteps).Derives ["opt", "list", ";"] ("," :: y)) ∧
      ¬ ∃ y, (empty.extended listSteps).Derives ["lost"] (";" :: y) := by
  have htable : (empty.extended listSteps).first
      = .ok [("x", ["x"]), (",", [","]), (";", [";"]), ("list", ["x"]), ("opt", []),
        ("lost", [])] := by decide
  obtain ⟨nullable, first, hnullable, hfirst, hentries, hrows⟩ :=
    find_first_iff_derives empty listSteps checkSymbols_listSteps
  cases nullable_listSteps.symm.trans hnullable
  cases htable.symm.trans hfirst
  obtain ⟨_, _, ⟨⟩, hrow, -⟩ := hrows ["opt", "list", ";"] (by decide)
  obtain ⟨_, ⟨⟩, hlost⟩ := hentries "lost" (by decide)
  refine ⟨checkSymbols_listSteps, ((hrow "x").mp (by decide)).2, ?_, ?_⟩
  · intro hbegins
    exact absurd ((hrow ",").mpr ⟨by decide, hbegins⟩) (by decide)
  · intro hbegins
    exact absurd ((hlost ";").mpr ⟨by decide, hbegins⟩) (by decide)

/-- **Following terminals are exact.** Of a grammar that was built from another one, or from
nothing, by any steps, and whose symbols are defined, the entry of a nonterminal holds the terminals
that stand behind it in something that a nonterminal derives. -/
theorem find_follow_iff_derives (g : Grammar) (steps : List Step)
    (h : (g.extended steps).checkSymbols = .ok ()) :
    ∃ follow, (g.extended steps).follow = .ok follow ∧
      ∀ name ∈ (g.extended steps).nonterminals, ∃ terminals, follow.find name = .ok terminals ∧
        ∀ a, a ∈ terminals ↔ a ∈ (g.extended steps).terminals ∧
          ∃ start ∈ (g.extended steps).nonterminals, ∃ x y,
            (g.extended steps).Derives [start] (x ++ name :: a :: y) := by
  obtain ⟨nullable, first, follow, hanalysed⟩ := exists_analysed h
  refine ⟨follow, hanalysed.follow_eq, fun name hname ↦ ?_⟩
  obtain ⟨terminals, hterminals, -⟩ := hanalysed.covers_follow name hname
  refine ⟨terminals, hterminals, fun a ↦ ?_⟩
  rw [← Table.mem_members_iff hterminals, hanalysed.mem_follow_iff hname]

/-- A list stands in front of an `x` once what is between them has vanished. -/
theorem follows_listSteps :
    (empty.extended listSteps).checkSymbols = .ok () ∧
      (∃ start ∈ (empty.extended listSteps).nonterminals, ∃ x y,
        (empty.extended listSteps).Derives [start] (x ++ "list" :: "x" :: y)) ∧
      ¬ ∃ start ∈ (empty.extended listSteps).nonterminals, ∃ x y,
        (empty.extended listSteps).Derives [start] (x ++ "list" :: ";" :: y) := by
  have htable : (empty.extended listSteps).follow
      = .ok [("list", ["x"]), ("opt", ["x"]), ("lost", [";"])] := by decide
  obtain ⟨follow, hfollow, hentries⟩ :=
    find_follow_iff_derives empty listSteps checkSymbols_listSteps
  cases htable.symm.trans hfollow
  obtain ⟨_, ⟨⟩, hlist⟩ := hentries "list" (by decide)
  refine ⟨checkSymbols_listSteps, ((hlist "x").mp (by decide)).2, fun hfollows ↦ ?_⟩
  exact absurd ((hlist ";").mpr ⟨by decide, hfollows⟩) (by decide)

end ArithLang.Grammar
