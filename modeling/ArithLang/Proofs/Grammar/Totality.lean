import ArithLang.Grammar.Prediction
import ArithLang.Proofs.Grammar.Analysis
import Mathlib.Data.List.Basic

/-!
# No look-up fails in a grammar whose symbols are defined

The analyses look up names in their tables, and a name that a table lacks breaks them off. A table
*covers* some names if it has an entry for each of them. The tables that an analysis starts with
cover the names that are defined, and a pass replaces entries but removes none, so what they cover
stays covered. If all symbols that productions use are defined, then every look-up is of a covered
name, and all analyses come to an end with a table.

Nothing is said here of what the tables hold.
-/

namespace ArithLang

/-! ## Steps that do not fail -/

section Steps

variable {ε α β : Type}

/-- The step does not fail, and its result is good. -/
def Succeeds (step : Except ε α) (good : α → Prop) : Prop := ∃ a, step = .ok a ∧ good a

theorem succeeds_ok {good : α → Prop} {a : α} (h : good a) :
    Succeeds (.ok a : Except ε α) good :=
  ⟨a, rfl, h⟩

theorem Succeeds.bind {step : Except ε α} {continue_ : α → Except ε β} {good : α → Prop}
    {good' : β → Prop} (h : Succeeds step good)
    (h' : ∀ a, good a → Succeeds (continue_ a) good') : Succeeds (step >>= continue_) good' := by
  obtain ⟨a, rfl, ha⟩ := h
  exact h' a ha

private theorem succeeds_foldlM {good : α → Prop} {part : α → β → Except ε α} {bs : List β}
    (hpart : ∀ b ∈ bs, ∀ a, good a → Succeeds (part a b) good) {start : α} (h : good start) :
    Succeeds (bs.foldlM part start) good := by
  induction bs generalizing start with
  | nil => exact succeeds_ok h
  | cons b bs ih =>
    rw [List.foldlM_cons]
    refine (hpart b List.mem_cons_self start h).bind ?_
    intro middle hmiddle
    exact ih (fun b' hb' ↦ hpart b' (List.mem_cons_of_mem b hb')) hmiddle

private theorem succeeds_mapM {step : α → Except ε β} {as : List α}
    (h : ∀ a ∈ as, Succeeds (step a) fun _ ↦ True) : Succeeds (as.mapM step) fun _ ↦ True := by
  induction as with
  | nil => exact succeeds_ok trivial
  | cons a as ih =>
    rw [List.mapM_cons]
    refine (h a List.mem_cons_self).bind fun b _ ↦ ?_
    refine (ih fun a' ha' ↦ h a' (List.mem_cons_of_mem a ha')).bind fun bs _ ↦ ?_
    exact succeeds_ok trivial

private theorem succeeds_untilStable {good : α → Prop} {pass : α → Except ε (Progress α)}
    (hpass : ∀ found, good found → Succeeds (pass found) fun progress ↦ good progress.found)
    (limit : ℕ) {start : α} (h : good start) : Succeeds (untilStable pass limit start) good := by
  induction limit generalizing start with
  | zero => exact succeeds_ok h
  | succ limit ih =>
    rw [untilStable]
    refine (hpass start h).bind ?_
    intro progress hprogress
    split
    · exact ih hprogress
    · exact succeeds_ok hprogress

theorem succeeds_untilStable_foldlM {good : α → Prop}
    {part : Progress α → β → Except ε (Progress α)} {bs : List β}
    (hpart : ∀ b ∈ bs, ∀ progress, good progress.found →
      Succeeds (part progress b) fun next ↦ good next.found)
    (limit : ℕ) {start : α} (h : good start) :
    Succeeds (untilStable (fun found ↦ bs.foldlM part ⟨found, false⟩) limit start) good :=
  succeeds_untilStable (fun _ hfound ↦ succeeds_foldlM hpart hfound) limit h

end Steps

/-! ## What a table covers -/

namespace Table

variable {α : Type} {table : Table α} {names : List String}

/-- The table has an entry for each of the names. -/
def Covers (table : Table α) (names : List String) : Prop :=
  ∀ name ∈ names, Succeeds (table.find name) fun _ ↦ True

@[simp] theorem covers_const (names : List String) (entry : α) : (const names entry).Covers names :=
  fun _ hname ↦ ⟨entry, find_const_iff.mpr ⟨hname, rfl⟩, trivial⟩

theorem Covers.mono {fewer : List String} (h : table.Covers names) (hsub : fewer ⊆ names) :
    table.Covers fewer :=
  fun name hname ↦ h name (hsub hname)

theorem Covers.set (h : table.Covers names) (name : String) (entry : α) :
    (table.set name entry).Covers names := by
  intro other hother
  obtain ⟨old, hold, -⟩ := h other hother
  by_cases hname : other = name
  · subst hname
    exact ⟨entry, find_set_self hold, trivial⟩
  · exact ⟨old, by simp [hname, hold], trivial⟩

theorem Covers.enter {progress : Progress (Table (List String))} {known candidates : List String}
    {name : String} (h : progress.found.Covers names) :
    (Grammar.enter name known candidates progress).found.Covers names := by
  rw [Grammar.enter]
  split
  · exact h
  · exact h.set _ _

theorem Covers.append (h : table.Covers names) (rows : Table α) :
    (rows ++ table).Covers (rows.map Prod.fst ++ names) := by
  induction rows with
  | nil => exact h
  | cons row rows ih =>
    intro name hname
    rw [List.cons_append, find_cons]
    by_cases hrow : name = row.1
    · rw [if_pos hrow]
      exact succeeds_ok trivial
    · rw [if_neg hrow]
      rw [List.map_cons, List.cons_append, List.mem_cons] at hname
      exact ih name (hname.resolve_left hrow)

end Table

namespace Grammar

variable {g : Grammar}

/-! ## One production -/

private theorem succeeds_allNullable {nullable : Table Bool} {symbols : List String}
    (h : nullable.Covers symbols) : Succeeds (allNullable nullable symbols) fun _ ↦ True := by
  induction symbols with
  | nil => exact succeeds_ok trivial
  | cons symbol rest ih =>
    rw [allNullable]
    refine (h symbol List.mem_cons_self).bind ?_
    intro here _
    split
    · exact ih (h.mono (List.subset_cons_self symbol rest))
    · exact succeeds_ok trivial

private theorem succeeds_settleNullable {names : List String} {progress : Progress (Table Bool)}
    {production : Production} (h : progress.found.Covers names) (hname : production.name ∈ names)
    (hsymbols : production.symbols ⊆ names) :
    Succeeds (settleNullable progress production) fun next ↦ next.found.Covers names := by
  rw [settleNullable]
  refine (h _ hname).bind ?_
  intro known _
  split
  · exact succeeds_ok h
  · refine (succeeds_allNullable (h.mono hsymbols)).bind ?_
    intro all _
    split
    · exact succeeds_ok (h.set _ true)
    · exact succeeds_ok h

private theorem succeeds_addFirst {nullable : Table Bool} {names symbols : List String}
    {name : String}
    (hnullable : nullable.Covers names) (hname : name ∈ names) (hsymbols : symbols ⊆ names)
    {progress : Progress (Table (List String))} (h : progress.found.Covers names) :
    Succeeds (addFirst nullable name symbols progress) fun next ↦ next.found.Covers names := by
  induction symbols generalizing progress with
  | nil => exact succeeds_ok h
  | cons symbol rest ih =>
    obtain ⟨hsymbol, hrest⟩ := List.cons_subset.mp hsymbols
    rw [addFirst]
    refine (h symbol hsymbol).bind fun candidates _ ↦ ?_
    refine (h name hname).bind fun known _ ↦ ?_
    refine (hnullable symbol hsymbol).bind fun empty _ ↦ ?_
    have henter : (enter name known candidates progress).found.Covers names := h.enter
    cases empty with
    | true => exact ih hrest henter
    | false => exact succeeds_ok henter

theorem succeeds_firstOfSequence {first : Table (List String)} {nullable : Table Bool}
    {symbols : List String} (hfirst : first.Covers symbols) (hnullable : nullable.Covers symbols) :
    Succeeds (firstOfSequence first nullable symbols) fun _ ↦ True := by
  induction symbols with
  | nil => exact succeeds_ok trivial
  | cons symbol rest ih =>
    have hrest := List.subset_cons_self symbol rest
    rw [firstOfSequence]
    refine (hfirst symbol List.mem_cons_self).bind fun here _ ↦ ?_
    refine (hnullable symbol List.mem_cons_self).bind fun empty _ ↦ ?_
    cases empty with
    | true =>
      refine (ih (hfirst.mono hrest) (hnullable.mono hrest)).bind ?_
      rintro ⟨later, empty⟩ -
      exact succeeds_ok trivial
    | false => exact succeeds_ok trivial

private theorem succeeds_followersAfter {first follow : Table (List String)} {nullable : Table Bool}
    {name : String} {rest : List String} (hfirst : first.Covers rest)
    (hnullable : nullable.Covers rest) (hfollow : Succeeds (follow.find name) fun _ ↦ True) :
    Succeeds (followersAfter first nullable name rest follow) fun _ ↦ True := by
  rw [followersAfter]
  refine (succeeds_firstOfSequence hfirst hnullable).bind ?_
  rintro ⟨here, empty⟩ -
  cases empty with
  | true =>
    refine hfollow.bind fun followers _ ↦ ?_
    exact succeeds_ok trivial
  | false => exact succeeds_ok trivial

private theorem succeeds_addFollow {first : Table (List String)} {nullable : Table Bool}
    {name : String}
    {symbols : List String} (hfirst : first.Covers symbols) (hnullable : nullable.Covers symbols)
    (hname : name ∈ g.nonterminals) {progress : Progress (Table (List String))}
    (h : progress.found.Covers g.nonterminals) :
    Succeeds (addFollow g first nullable name symbols progress)
      fun next ↦ next.found.Covers g.nonterminals := by
  induction symbols generalizing progress with
  | nil => exact succeeds_ok h
  | cons symbol rest ih =>
    have hrest := List.subset_cons_self symbol rest
    have ih := @ih (hfirst.mono hrest) (hnullable.mono hrest)
    rw [addFollow]
    split
    · rename_i hsymbol
      rw [isNonterminal, List.contains_iff_mem] at hsymbol
      have hfollowers := succeeds_followersAfter (hfirst.mono hrest) (hnullable.mono hrest)
        (h name hname)
      refine hfollowers.bind fun candidates _ ↦ ?_
      refine (h symbol hsymbol).bind fun known _ ↦ ?_
      exact ih h.enter
    · exact ih h

/-! ## Whole analyses -/

/-- Every symbol that a production uses is defined. -/
def Defined (g : Grammar) : Prop := ∀ production ∈ g.productions, production.symbols ⊆ g.symbols

theorem checkSymbols_eq_ok_iff :
    g.checkSymbols = .ok () ↔ (∃ start ∈ g.nonterminals, g.start = some start) ∧ g.Defined := by
  have hstart : g.start.any g.isNonterminal = true ↔
      ∃ start ∈ g.nonterminals, g.start = some start := by
    cases g.start with
    | none => simp
    | some start => simp [isNonterminal]
  have hdefined : g.undefined? (g.productions.flatMap Production.symbols) = none ↔ g.Defined := by
    rw [undefined?, List.find?_eq_none]
    simp only [List.mem_flatMap, Bool.not_eq_true', Bool.not_eq_false, List.contains_iff_mem]
    constructor
    · intro h production hmem symbol hsymbol
      exact h symbol ⟨production, hmem, hsymbol⟩
    · rintro h symbol ⟨production, hmem, hsymbol⟩
      exact h production hmem hsymbol
  rw [← hstart, ← hdefined, checkSymbols]
  cases g.start.any g.isNonterminal with
  | false => simp
  | true => cases g.undefined? (g.productions.flatMap Production.symbols) <;> simp

private theorem name_mem_symbols {production : Production} (hmem : production ∈ g.productions) :
    production.name ∈ g.symbols :=
  List.mem_append_left _ (name_mem_nonterminals hmem)

theorem Defined.nullable (h : g.Defined) :
    Succeeds g.nullable fun nullable ↦ nullable.Covers g.symbols := by
  refine succeeds_untilStable_foldlM ?_ _ (Table.covers_const g.symbols false)
  intro production hmem progress hprogress
  exact succeeds_settleNullable hprogress (name_mem_symbols hmem) (h production hmem)

private theorem covers_firstStart (g : Grammar) : (firstStart g).Covers g.symbols := by
  have hcovers := (Table.covers_const g.nonterminals ([] : List String)).append
    (g.terminals.map fun name ↦ (name, [name]))
  have hnames : (g.terminals.map fun name ↦ (name, [name])).map Prod.fst = g.terminals := by
    rw [List.map_map]
    exact List.map_id g.terminals
  rw [hnames] at hcovers
  exact hcovers.mono (List.append_subset.mpr
    ⟨List.subset_append_right _ _, List.subset_append_left _ _⟩)

theorem Defined.first (h : g.Defined) : Succeeds g.first fun first ↦ first.Covers g.symbols := by
  refine h.nullable.bind fun nullable hnullable ↦ ?_
  refine succeeds_untilStable_foldlM ?_ _ (covers_firstStart g)
  intro production hmem progress hprogress
  exact succeeds_addFirst hnullable (name_mem_symbols hmem) (h production hmem) hprogress

theorem Defined.follow (h : g.Defined) :
    Succeeds g.follow fun follow ↦ follow.Covers g.nonterminals := by
  refine h.nullable.bind fun nullable hnullable ↦ ?_
  refine h.first.bind fun first hfirst ↦ ?_
  refine succeeds_untilStable_foldlM ?_ _ (Table.covers_const g.nonterminals [])
  intro production hmem progress hprogress
  exact succeeds_addFollow (hfirst.mono (h production hmem)) (hnullable.mono (h production hmem))
    (name_mem_nonterminals hmem) hprogress

theorem Defined.predictions (h : g.Defined) : Succeeds g.predictions fun _ ↦ True := by
  refine h.nullable.bind fun nullable hnullable ↦ ?_
  refine h.first.bind fun first hfirst ↦ ?_
  refine h.follow.bind fun follow hfollow ↦ ?_
  refine succeeds_mapM fun production hmem ↦ ?_
  have hname := hfollow production.name (name_mem_nonterminals hmem)
  refine (succeeds_followersAfter (hfirst.mono (h production hmem))
    (hnullable.mono (h production hmem)) hname).bind fun terminals _ ↦ ?_
  exact succeeds_ok trivial

end Grammar

end ArithLang
