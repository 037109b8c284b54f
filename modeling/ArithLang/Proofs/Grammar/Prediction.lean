import ArithLang.Grammar.Prediction
import ArithLang.Proofs.Grammar.Analysis
import Mathlib.Data.List.Basic

/-!
# What the check for prediction guarantees

A grammar passes the check if no terminal selects two productions of a nonterminal that stand at
different places. What a terminal selects is computed from the tables; `Predicted` says in terms of
derivations when a production is called for. Whatever is called for is selected, so in a grammar
that passes the check a terminal never calls for two productions of one nonterminal
(`eq_of_predicted`).
-/

namespace ArithLang.Grammar

variable {g : Grammar}

/-- Somewhere in a derivation the production may be used where what remains begins with `a`. -/
def Predicted (g : Grammar) (production : Production) (a : String) : Prop :=
  a ∈ g.terminals ∧ ∃ start x y z, g.Derives [start] (x ++ production.name :: y) ∧
    g.Derives (production.symbols ++ y) (a :: z)

/-! ## The selecting terminals -/

theorem selectors_eq_ok {first follow : Table (List String)} {nullable : Table Bool}
    {production : Production} {terminals : List String}
    (h : selectors first follow nullable production = .ok terminals) (a : String) :
    a ∈ terminals ↔ Opens nullable.marked first.members production.symbols a ∨
      (∀ symbol ∈ production.symbols, symbol ∈ nullable.marked) ∧
        (production.name, a) ∈ follow.members :=
  followersAfter_eq_ok h a

/-- A production is selected by every terminal that calls for it. -/
theorem mem_selectors_of_predicted {first follow : Table (List String)} {nullable : Table Bool}
    (hsaturated : g.Saturated nullable.marked first.members follow.members)
    {production : Production} (hmem : production ∈ g.productions) {terminals : List String}
    (h : selectors first follow nullable production = .ok terminals) {a : String}
    (hpredicted : g.Predicted production a) : a ∈ terminals := by
  obtain ⟨ha, start, x, y, z, hstart, hrest⟩ := hpredicted
  obtain ⟨here, later, heq, hhere, hlater⟩ := hrest.split
  rw [selectors_eq_ok h]
  cases here with
  | nil =>
    -- the production vanishes, and the terminal comes from behind it
    rw [List.nil_append] at heq
    subst heq
    exact .inr ⟨hsaturated.forall_mem_nullable hhere,
      hsaturated.mem_follow hstart (name_mem_nonterminals hmem) ha hlater⟩
  | cons head here =>
    obtain ⟨rfl, -⟩ := List.cons.inj heq
    exact .inl (hsaturated.opens ha hhere)

/-! ## Pairs of productions -/

private theorem pairwise_of_pairs {α : Type} {r : α → α → Prop} {as : List α}
    (h : ∀ pair ∈ pairs as, r pair.1 pair.2) : as.Pairwise r := by
  induction as with
  | nil => exact .nil
  | cons a as ih =>
    rw [pairs, List.forall_mem_append, List.forall_mem_map] at h
    exact .cons h.1 (ih h.2)

private theorem clash?_eq_none {p q : Prediction} (h : clash? p q = none) : ∀ a ∈ p.2, a ∉ q.2 := by
  intro a hp hq
  have hcommon : a ∈ p.2.filter q.2.contains :=
    List.mem_filter.mpr ⟨hp, List.contains_iff_mem.mpr hq⟩
  rw [clash?] at h
  split at h
  · rename_i hempty
    rw [List.isEmpty_iff] at hempty
    rw [hempty] at hcommon
    cases hcommon
  · cases h

private theorem pairwise_of_conflictOf?_eq_none {predictions : List Prediction} {name : String}
    (h : conflictOf? predictions name = none) :
    predictions.Pairwise fun p q ↦ p.1.name = name → q.1.name = name → ∀ a ∈ p.2, a ∉ q.2 := by
  rw [conflictOf?, List.findSome?_eq_none_iff] at h
  have hpairs := pairwise_of_pairs (r := fun p q ↦ ∀ a ∈ p.2, a ∉ q.2)
    fun pair hpair ↦ clash?_eq_none (h pair hpair)
  rw [List.pairwise_filter] at hpairs
  exact hpairs.imp fun h hp hq ↦ h (beq_iff_eq.mpr hp) (beq_iff_eq.mpr hq)

/-! ## The check -/

/-- A list is gone through by steps that may fail: if all succeed, the results are in the places of
the members that they come from. -/
private theorem map_eq_of_mapM_eq_ok {ε α β : Type} {step : α → Except ε β} {as : List α}
    {bs : List β}
    (h : as.mapM step = .ok bs) : as.map step = bs.map .ok := by
  induction as generalizing bs with
  | nil =>
    cases h
    rfl
  | cons head as ih =>
    rw [List.mapM_cons, bind_eq_ok_iff] at h
    obtain ⟨b, hb, h⟩ := h
    rw [bind_eq_ok_iff] at h
    obtain ⟨rest, hrest, h⟩ := h
    cases h
    rw [List.map_cons, List.map_cons, hb, ih hrest]

theorem predictions_eq_ok {predictions : List Prediction} (h : g.predictions = .ok predictions) :
    ∃ (nullable : Table Bool) (first follow : Table (List String)),
      g.nullable = .ok nullable ∧ g.first = .ok first ∧ g.follow = .ok follow ∧
      (∀ (i : ℕ) production, g.productions[i]? = some production → ∃ terminals,
        predictions[i]? = some (production, terminals) ∧
          selectors first follow nullable production = .ok terminals) ∧
      ∀ (i : ℕ) prediction, predictions[i]? = some prediction →
        g.productions[i]? = some prediction.1 ∧
          selectors first follow nullable prediction.1 = .ok prediction.2 := by
  rw [Grammar.predictions, bind_eq_ok_iff] at h
  obtain ⟨nullable, hnullable, h⟩ := h
  rw [bind_eq_ok_iff] at h
  obtain ⟨first, hfirst, h⟩ := h
  rw [bind_eq_ok_iff] at h
  obtain ⟨follow, hfollow, h⟩ := h
  have hplaces := map_eq_of_mapM_eq_ok h
  refine ⟨nullable, first, follow, hnullable, hfirst, hfollow, ?_, ?_⟩
  · intro i production hi
    have hplace := congrArg (·[i]?) hplaces
    simp only [List.getElem?_map, hi, Option.map_some] at hplace
    obtain ⟨prediction, hprediction, hstep⟩ := Option.map_eq_some_iff.mp hplace.symm
    obtain ⟨terminals, hterminals, hpair⟩ := bind_eq_ok_iff.mp hstep.symm
    cases hpair
    exact ⟨terminals, hprediction, hterminals⟩
  · intro i prediction hi
    have hplace := congrArg (·[i]?) hplaces
    simp only [List.getElem?_map, hi, Option.map_some] at hplace
    obtain ⟨production, hproduction, hstep⟩ := Option.map_eq_some_iff.mp hplace
    obtain ⟨terminals, hterminals, hpair⟩ := bind_eq_ok_iff.mp hstep
    cases hpair
    exact ⟨hproduction, hterminals⟩

/-- A grammar passes the check: the tables are made, each production has its selecting terminals,
and no name has a conflict. -/
private theorem checkLL1_eq_ok (h : g.checkLL1 = .ok ()) :
    ∃ (nullable : Table Bool) (first follow : Table (List String)) (predictions : List Prediction),
      g.nullable = .ok nullable ∧ g.first = .ok first ∧ g.follow = .ok follow ∧
      (∀ (i : ℕ) production, g.productions[i]? = some production → ∃ terminals,
        predictions[i]? = some (production, terminals) ∧
          selectors first follow nullable production = .ok terminals) ∧
      ∀ name ∈ g.nonterminals, conflictOf? predictions name = none := by
  rw [checkLL1] at h
  split at h
  · cases h
  · split at h
    · cases h
    · rename_i predictions hpredictions
      split at h
      · cases h
      · rename_i hnone
        obtain ⟨nullable, first, follow, hnullable, hfirst, hfollow, hselectors, -⟩ :=
          predictions_eq_ok hpredictions
        rw [List.findSome?_eq_none_iff] at hnone
        exact ⟨nullable, first, follow, predictions, hnullable, hfirst, hfollow, hselectors,
          fun name hname ↦ hnone name (mem_sortNames.mpr hname)⟩

/-- **One terminal calls for one production.** In a grammar that passes the check, two productions
of one nonterminal that the same terminal calls for stand at the same place. -/
theorem eq_of_predicted (h : g.checkLL1 = .ok ()) {i j : ℕ} {p q : Production}
    (hi : g.productions[i]? = some p) (hj : g.productions[j]? = some q) (hname : p.name = q.name)
    {a : String} (hp : g.Predicted p a) (hq : g.Predicted q a) : i = j := by
  obtain ⟨nullable, first, follow, predictions, hnullable, hfirst, hfollow, hselectors, hnone⟩ :=
    checkLL1_eq_ok h
  have hsaturated := saturated hnullable hfirst hfollow
  obtain ⟨here, hhere, hselected⟩ := hselectors i p hi
  obtain ⟨there, hthere, hselected'⟩ := hselectors j q hj
  have ha := mem_selectors_of_predicted hsaturated (List.mem_of_getElem? hi) hselected hp
  have ha' := mem_selectors_of_predicted hsaturated (List.mem_of_getElem? hj) hselected' hq
  have hpairwise := pairwise_of_conflictOf?_eq_none
    (hnone p.name (name_mem_nonterminals (List.mem_of_getElem? hi)))
  rw [List.pairwise_iff_getElem] at hpairwise
  obtain ⟨hilt, hi'⟩ := List.getElem?_eq_some_iff.mp hhere
  obtain ⟨hjlt, hj'⟩ := List.getElem?_eq_some_iff.mp hthere
  rcases lt_trichotomy i j with hlt | heq | hlt
  · have hdisjoint := hpairwise i j hilt hjlt hlt
    rw [hi', hj'] at hdisjoint
    exact absurd ha' (hdisjoint rfl hname.symm a ha)
  · exact heq
  · have hdisjoint := hpairwise j i hjlt hilt hlt
    rw [hi', hj'] at hdisjoint
    exact absurd ha (hdisjoint hname.symm rfl a ha')

end ArithLang.Grammar
