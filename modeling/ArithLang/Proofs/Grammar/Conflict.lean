import ArithLang.Proofs.Grammar.Prediction
import ArithLang.Proofs.Grammar.Totality
import Mathlib.Data.List.NodupEquivFin

/-!
# What the check for prediction decides

Of a grammar whose symbols are defined, the check reports a conflict exactly if a terminal calls for
two productions of a nonterminal that stand at different places. One direction is that whatever is
called for is selected. The other one needs the tables to be exact: a production is selected by a
terminal only if some derivation leads to a place where the terminal calls for it.

The two productions may be called for in two different derivations, so this is the strong form of
prediction, in which the production depends on the nonterminal and the terminal alone and not on
what has been read before.
-/

namespace ArithLang.Grammar

variable {g : Grammar}

/-! ## The selecting terminals are those that call for the production -/

/-- What calls for a production does so in a derivation from a nonterminal. -/
theorem predicted_iff {production : Production} (hmem : production ∈ g.productions) {a : String} :
    g.Predicted production a ↔ a ∈ g.terminals ∧ ∃ name ∈ g.nonterminals, ∃ x y z,
      g.Derives [name] (x ++ production.name :: y) ∧
        g.Derives (production.symbols ++ y) (a :: z) := by
  constructor
  · rintro ⟨ha, start, x, y, z, hstart, hrest⟩
    refine ⟨ha, start, ?_, x, y, z, hstart, hrest⟩
    generalize hrow : x ++ production.name :: y = row at hstart
    cases derives_iff_yields.mp hstart with
    | keep symbol hkeep =>
      cases hkeep
      obtain ⟨-, hname⟩ | ⟨-, hname⟩ := List.append_eq_singleton_iff.mp hrow
      · cases hname
        exact name_mem_nonterminals hmem
      · cases hname
    | expand hmem' _ => exact name_mem_nonterminals hmem'
  · rintro ⟨ha, name, -, x, y, z, hname, hrest⟩
    exact ⟨ha, name, x, y, z, hname, hrest⟩

private theorem predicted_of_mem_selectors {nullable : Table Bool}
    {first follow : Table (List String)}
    (hnullable : g.nullable = .ok nullable) (hfirst : g.first = .ok first)
    (hfollow : g.follow = .ok follow) {production : Production} {terminals : List String}
    (h : selectors first follow nullable production = .ok terminals) {a : String}
    (ha : a ∈ terminals) : g.Predicted production a := by
  have hvanishes := (nullable_spec hnullable).1
  rcases (selectors_eq_ok h a).mp ha with hopens | ⟨hsymbols, hfollows⟩
  · -- the right-hand side begins with the terminal, whatever stands behind it
    obtain ⟨hterminal, z, hz⟩ := derives_of_opens hvanishes (first_spec hnullable hfirst).1 hopens
    refine ⟨hterminal, production.name, [], [], z, .refl _, ?_⟩
    rwa [List.append_nil]
  · -- the right-hand side vanishes in front of the terminal
    obtain ⟨hterminal, name, -, x, y, hname⟩ :=
      (follow_spec hnullable hfirst hfollow).1 _ hfollows
    refine ⟨hterminal, name, x, a :: y, y, hname, ?_⟩
    have hempty :=
      derives_nil_of_vanishes fun symbol hsymbol ↦ hvanishes symbol (hsymbols _ hsymbol)
    exact hempty.append_right (a :: y)

private theorem mem_selectors_iff {nullable : Table Bool} {first follow : Table (List String)}
    (hnullable : g.nullable = .ok nullable) (hfirst : g.first = .ok first)
    (hfollow : g.follow = .ok follow) {production : Production}
    (hmem : production ∈ g.productions) {terminals : List String}
    (h : selectors first follow nullable production = .ok terminals) (a : String) :
    a ∈ terminals ↔ g.Predicted production a :=
  ⟨predicted_of_mem_selectors hnullable hfirst hfollow h,
    mem_selectors_of_predicted (saturated hnullable hfirst hfollow) hmem h⟩

/-! ## The reported conflict -/

private theorem sublist_of_mem_pairs {α : Type} {as : List α} {a b : α} (h : (a, b) ∈ pairs as) :
    [a, b].Sublist as := by
  induction as with
  | nil => cases h
  | cons head as ih =>
    rw [pairs, List.mem_append, List.mem_map] at h
    rcases h with ⟨b', hb', hpair⟩ | h
    · cases hpair
      exact (List.singleton_sublist.mpr hb').cons_cons _
    · exact (ih h).cons _

private theorem exists_lt_of_pair_sublist {α : Type} {as : List α} {a b : α}
    (h : [a, b].Sublist as) :
    ∃ i j : ℕ, i < j ∧ as[i]? = some a ∧ as[j]? = some b := by
  obtain ⟨place, hplace⟩ := List.sublist_iff_exists_orderEmbedding_getElem?_eq.mp h
  exact ⟨place 0, place 1, place.lt_iff_lt.mpr Nat.zero_lt_one, (hplace 0).symm, (hplace 1).symm⟩

private theorem clash?_eq_some {p q : Prediction} {error : Error} (h : clash? p q = some error) :
    ∃ terminals, error = .conflict terminals p.1 q.1 ∧ terminals ≠ [] ∧
      ∀ a, a ∈ terminals ↔ a ∈ p.2 ∧ a ∈ q.2 := by
  have hcommon : ∀ a, a ∈ p.2.filter q.2.contains ↔ a ∈ p.2 ∧ a ∈ q.2 := by
    intro a
    rw [List.mem_filter, List.contains_iff_mem]
  rw [clash?] at h
  split at h
  · cases h
  · rename_i hsome
    cases h
    refine ⟨_, rfl, ?_, fun a ↦ mem_sortNames.trans (hcommon a)⟩
    intro hnil
    apply hsome
    rw [List.isEmpty_iff, List.eq_nil_iff_forall_not_mem]
    intro a ha
    have hsorted := mem_sortNames.mpr ha
    rw [hnil] at hsorted
    cases hsorted

private theorem conflictOf?_eq_some {predictions : List Prediction} {name : String} {error : Error}
    (h : conflictOf? predictions name = some error) :
    ∃ (i j : ℕ) (p q : Prediction) (terminals : List String), i < j ∧
      predictions[i]? = some p ∧ predictions[j]? = some q ∧ p.1.name = q.1.name ∧
      error = .conflict terminals p.1 q.1 ∧ terminals ≠ [] ∧
      ∀ a, a ∈ terminals ↔ a ∈ p.2 ∧ a ∈ q.2 := by
  obtain ⟨⟨p, q⟩, hpair, hclash⟩ := List.exists_of_findSome?_eq_some h
  have hsublist := sublist_of_mem_pairs hpair
  have hp := (List.mem_filter.mp (hsublist.subset List.mem_cons_self)).2
  have hq := (List.mem_filter.mp (hsublist.subset (List.mem_cons_of_mem p List.mem_cons_self))).2
  obtain ⟨i, j, hlt, hi, hj⟩ := exists_lt_of_pair_sublist (hsublist.trans List.filter_sublist)
  obtain ⟨terminals, herror, hterminals⟩ := clash?_eq_some hclash
  exact ⟨i, j, p, q, terminals, hlt, hi, hj, (beq_iff_eq.mp hp).trans (beq_iff_eq.mp hq).symm,
    herror, hterminals⟩

/-! ## The check -/

/-- The check of a grammar whose symbols are defined has two outcomes. -/
theorem checkLL1_cases (h : g.checkSymbols = .ok ()) :
    g.checkLL1 = .ok () ∨ ∃ terminals p q, g.checkLL1 = .error (.faulty (.conflict terminals p q)) ∧
      ∃ i j : ℕ, i < j ∧ g.productions[i]? = some p ∧ g.productions[j]? = some q ∧
        p.name = q.name ∧ terminals ≠ [] ∧
        ∀ a, a ∈ terminals ↔ g.Predicted p a ∧ g.Predicted q a := by
  obtain ⟨predictions, hpredictions, -⟩ := (checkSymbols_eq_ok_iff.mp h).2.predictions
  rw [checkLL1, h, hpredictions]
  dsimp only
  split
  · rename_i error herror
    obtain ⟨name, -, hname⟩ := List.exists_of_findSome?_eq_some herror
    obtain ⟨i, j, p, q, terminals, hlt, hi, hj, heq, rfl, hne, hterminals⟩ :=
      conflictOf?_eq_some hname
    obtain ⟨nullable, first, follow, hnullable, hfirst, hfollow, -, hplaces⟩ :=
      predictions_eq_ok hpredictions
    obtain ⟨hp, hselected⟩ := hplaces i p hi
    obtain ⟨hq, hselected'⟩ := hplaces j q hj
    refine .inr ⟨terminals, p.1, q.1, rfl, i, j, hlt, hp, hq, heq, hne, fun a ↦ ?_⟩
    rw [hterminals,
      mem_selectors_iff hnullable hfirst hfollow (List.mem_of_getElem? hp) hselected,
      mem_selectors_iff hnullable hfirst hfollow (List.mem_of_getElem? hq) hselected']
  · exact .inl rfl

/-- **The check decides prediction by one terminal.** Of a grammar whose symbols are defined, it
reports a conflict exactly if there are two productions of one nonterminal, at different places, and
a terminal that calls for the one after some derivation and for the other after some derivation. It
then reports two such productions and all such terminals, and in the other case it is passed. -/
theorem checkLL1_eq_conflict_iff (h : g.checkSymbols = .ok ()) :
    ((∃ terminals p q, g.checkLL1 = .error (.faulty (.conflict terminals p q))) ↔
      ∃ (i j : ℕ) (p q : Production) (a : String), i ≠ j ∧ g.productions[i]? = some p ∧
        g.productions[j]? = some q ∧ p.name = q.name ∧ a ∈ g.terminals ∧
        (∃ name ∈ g.nonterminals, ∃ x y z, g.Derives [name] (x ++ p.name :: y) ∧
          g.Derives (p.symbols ++ y) (a :: z)) ∧
        ∃ name ∈ g.nonterminals, ∃ x y z, g.Derives [name] (x ++ q.name :: y) ∧
          g.Derives (q.symbols ++ y) (a :: z)) ∧
    (∀ terminals p q, g.checkLL1 = .error (.faulty (.conflict terminals p q)) →
      terminals ≠ [] ∧ ∃ i j : ℕ, i < j ∧ g.productions[i]? = some p ∧
        g.productions[j]? = some q ∧ p.name = q.name ∧
        ∀ a, a ∈ terminals ↔ g.Predicted p a ∧ g.Predicted q a) ∧
    ((¬ ∃ terminals p q, g.checkLL1 = .error (.faulty (.conflict terminals p q))) →
      g.checkLL1 = .ok ()) := by
  have hcases := checkLL1_cases h
  refine ⟨⟨?_, ?_⟩, ?_, ?_⟩
  · rintro ⟨terminals, p, q, herror⟩
    obtain hok | ⟨terminals', p', q', -, i, j, hlt, hi, hj, hname, hne, hterminals⟩ := hcases
    · cases herror.symm.trans hok
    · obtain ⟨a, ha⟩ := List.exists_mem_of_ne_nil _ hne
      obtain ⟨hp, hq⟩ := (hterminals a).mp ha
      rw [predicted_iff (List.mem_of_getElem? hi)] at hp
      rw [predicted_iff (List.mem_of_getElem? hj)] at hq
      exact ⟨i, j, p', q', a, hlt.ne, hi, hj, hname, hp.1, hp.2, hq.2⟩
  · rintro ⟨i, j, p, q, a, hij, hi, hj, hname, ha, hp, hq⟩
    obtain hok | ⟨terminals, p', q', herror, -⟩ := hcases
    · have hp' := (predicted_iff (List.mem_of_getElem? hi)).mpr ⟨ha, hp⟩
      have hq' := (predicted_iff (List.mem_of_getElem? hj)).mpr ⟨ha, hq⟩
      exact absurd (eq_of_predicted hok hi hj hname hp' hq') hij
    · exact ⟨terminals, p', q', herror⟩
  · intro terminals p q herror
    obtain hok | ⟨terminals', p', q', herror', i, j, hlt, hi, hj, hname, hne, hterminals⟩ := hcases
    · cases herror.symm.trans hok
    · cases herror.symm.trans herror'
      exact ⟨hne, i, j, hlt, hi, hj, hname, hterminals⟩
  · intro hnone
    obtain hok | ⟨terminals, p, q, herror, -⟩ := hcases
    · exact hok
    · exact absurd ⟨terminals, p, q, herror⟩ hnone

/-- A goal of an `x` behind another one, which may be left out. -/
def doubled : Grammar where
  terminals := ["x"]
  productions := [⟨"goal", ["opt", "x"]⟩, ⟨"opt", ["x"]⟩, ⟨"opt", []⟩]
  start := some "goal"
  disjoint := by decide

/-- An `x` calls for both productions of `opt`: it is the first one, or that one is left out. -/
theorem checkLL1_doubled : doubled.checkSymbols = .ok () ∧
    ∃ terminals p q, doubled.checkLL1 = .error (.faulty (.conflict terminals p q)) := by
  have hsymbols : doubled.checkSymbols = .ok () := by decide
  have hmem : (⟨"goal", ["opt", "x"]⟩ : Production) ∈ doubled.productions := by decide
  have hgoal : doubled.Derives ["goal"] ([] ++ "opt" :: ["x"]) := derives_of_mem hmem
  have hname : "goal" ∈ doubled.nonterminals := name_mem_nonterminals hmem
  refine ⟨hsymbols, (checkLL1_eq_conflict_iff hsymbols).1.mpr ?_⟩
  refine ⟨1, 2, ⟨"opt", ["x"]⟩, ⟨"opt", []⟩, "x", by decide, rfl, rfl, rfl, by decide, ?_, ?_⟩
  · exact ⟨"goal", hname, [], ["x"], ["x"], hgoal, .refl _⟩
  · exact ⟨"goal", hname, [], ["x"], [], hgoal, .refl _⟩

end ArithLang.Grammar
