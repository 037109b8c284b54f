import ArithLang.Proofs.Grammar.Conflict
import ArithLang.Proofs.Grammar.Exactness
import Mathlib.Data.List.Basic

/-!
# The check of a grammar comes to an end

The three analyses make passes until one changes nothing. Their number is limited, but the limit is
there for the definition only: `Ends` describes passes that are made without one, and the analyses
answer what these end with. So an analysis never stops because it has reached its limit.

An analysis can fail only on a name that is looked up and has no entry. In a grammar whose symbols
are defined no look-up fails, and the check looks at the symbols first. What is left of the ways in
which it may fail are the faults that it is there to report (`safe_extended`).
-/

namespace ArithLang

/-! ## Passes without a limit -/

section Passes

variable {ε α β : Type} {pass : α → Except ε (Progress α)} {found start result : α} {failure : ε}

/-- Passes that are made from a table on, without a limit, end with an outcome. -/
inductive Ends (pass : α → Except ε (Progress α)) : α → Except ε α → Prop where
  /-- A pass fails. -/
  | fails {found : α} {failure : ε} (h : pass found = .error failure) :
      Ends pass found (.error failure)
  /-- A pass changes nothing. -/
  | rests {found : α} {progress : Progress α} (h : pass found = .ok progress)
      (hchanged : progress.changed = false) : Ends pass found (.ok progress.found)
  /-- A pass changes something, and further ones end with the outcome. -/
  | continues {found : α} {progress : Progress α} {outcome : Except ε α}
      (h : pass found = .ok progress) (hchanged : progress.changed = true)
      (hends : Ends pass progress.found outcome) : Ends pass found outcome

theorem ends_of_eq_error {limit : ℕ} (h : untilStable pass limit start = .error failure) :
    Ends pass start (.error failure) := by
  induction limit generalizing start with
  | zero => cases h
  | succ limit ih =>
    rw [untilStable] at h
    cases hpass : pass start with
    | error other =>
      rw [hpass] at h
      cases h
      exact .fails hpass
    | ok progress =>
      rw [hpass] at h
      change (if progress.changed = true then _ else _) = _ at h
      by_cases hchanged : progress.changed = true
      · rw [if_pos hchanged] at h
        exact .continues hpass hchanged (ih h)
      · rw [if_neg hchanged] at h
        cases h

/-- A table that is reached within the limit, and that a further pass leaves alone, is what the
passes end with. -/
theorem ends_of_eq_ok {limit : ℕ} (h : untilStable pass limit start = .ok result)
    (hrests : pass result = .ok ⟨result, false⟩) : Ends pass start (.ok result) := by
  induction limit generalizing start with
  | zero =>
    cases h
    exact .rests hrests rfl
  | succ limit ih =>
    rw [untilStable, bind_eq_ok_iff] at h
    obtain ⟨progress, hpass, h⟩ := h
    by_cases hchanged : progress.changed = true
    · rw [if_pos hchanged] at h
      exact .continues hpass hchanged (ih h)
    · rw [if_neg hchanged] at h
      cases h
      exact .rests hpass (Bool.eq_false_iff.mpr hchanged)

theorem foldlM_eq_ok_of_forall {part : α → β → Except ε α} {bs : List β} {a : α}
    (h : ∀ b ∈ bs, part a b = .ok a) : bs.foldlM part a = .ok a := by
  induction bs with
  | nil => rfl
  | cons b bs ih =>
    rw [List.forall_mem_cons] at h
    rw [List.foldlM_cons, h.1]
    exact ih h.2

end Passes

namespace Grammar

variable {g : Grammar}

/-! ## The three analyses -/

private theorem ends_nullable (g : Grammar) :
    Ends g.nullablePass (.const g.symbols false) g.nullable := by
  cases h : g.nullable with
  | error name => exact ends_of_eq_error h
  | ok nullable => exact ends_of_eq_ok h (foldlM_eq_ok_of_forall (nullable_rests h).2)

private theorem ends_first {nullable : Table Bool} (hnullable : g.nullable = .ok nullable) :
    Ends (g.firstPass nullable) (firstStart g) g.first := by
  cases h : g.first with
  | error name => exact ends_of_eq_error (first_eq hnullable ▸ h)
  | ok first =>
    exact ends_of_eq_ok (first_eq hnullable ▸ h)
      (foldlM_eq_ok_of_forall (first_rests hnullable h).2.2)

private theorem ends_follow {nullable : Table Bool} {first : Table (List String)}
    (hnullable : g.nullable = .ok nullable) (hfirst : g.first = .ok first) :
    Ends (g.followPass first nullable) (.const g.nonterminals []) g.follow := by
  cases h : g.follow with
  | error name => exact ends_of_eq_error (follow_eq hnullable hfirst ▸ h)
  | ok follow =>
    exact ends_of_eq_ok (follow_eq hnullable hfirst ▸ h)
      (foldlM_eq_ok_of_forall (follow_rests hnullable hfirst h).2)

/-! ## The check -/

private theorem map_fst_predictions {predictions : List Prediction}
    (h : g.predictions = .ok predictions) : predictions.map Prod.fst = g.productions := by
  obtain ⟨_, _, _, -, -, -, hplaces, hplaces'⟩ := predictions_eq_ok h
  apply List.ext_getElem?
  intro i
  rw [List.getElem?_map]
  cases hproduction : g.productions[i]? with
  | some production =>
    obtain ⟨terminals, hi, -⟩ := hplaces i production hproduction
    rw [hi, Option.map_some]
  | none =>
    rw [Option.map_eq_none_iff, Option.eq_none_iff_forall_ne_some]
    intro prediction hi
    cases (hplaces' i prediction hi).1.symm.trans hproduction

/-- The check is passed, or it reports a fault of the grammar. -/
theorem checkLL1_eq_ok_or_faulty (g : Grammar) :
    g.checkLL1 = .ok () ∨ ∃ error, g.checkLL1 = .error (.faulty error) := by
  cases hsymbols : g.checkSymbols with
  | error error =>
    refine .inr ⟨error, ?_⟩
    rw [checkLL1, hsymbols]
    rfl
  | ok =>
    rcases checkLL1_cases hsymbols with hok | ⟨terminals, p, q, herror, -⟩
    · exact .inl hok
    · exact .inr ⟨_, herror⟩

/-- The check of a grammar ends with an answer, and no look-up on the way to it fails. -/
structure Safe (g : Grammar) : Prop where
  /-- The answer is yes or no, and it is yes if the check is passed. -/
  answers : ∃ answer, g.isLL1 = .ok answer ∧ (answer = true ↔ g.checkLL1 = .ok ())
  /-- The check fails on faults of the grammar only. -/
  faulty : ∀ failure, g.checkLL1 = .error failure → ∃ error, failure = .faulty error
  /-- The passes in search of nullable symbols end. -/
  nullable_ends : Ends g.nullablePass (.const g.symbols false) g.nullable
  /-- So do those in search of first terminals. -/
  first_ends : ∀ nullable, g.nullable = .ok nullable →
    Ends (g.firstPass nullable) (firstStart g) g.first
  /-- So do those in search of following terminals. -/
  follow_ends : ∀ nullable first, g.nullable = .ok nullable → g.first = .ok first →
    Ends (g.followPass first nullable) (.const g.nonterminals []) g.follow
  /-- If the symbols are defined, then the tables are found and have entries for all that is looked
  up in them: every symbol in the first two, every nonterminal in the third. Every production has
  its selecting terminals. -/
  looked_up : g.checkSymbols = .ok () → ∃ nullable first follow predictions,
    g.Analysed nullable first follow ∧
      (∀ symbols ⊆ g.symbols, ∃ here empty,
        firstOfSequence first nullable symbols = .ok (here, empty)) ∧
      g.predictions = .ok predictions ∧ predictions.map Prod.fst = g.productions

/-- **The check is safe on every grammar** that is built from another one, or from nothing, by any
steps, of which any may have failed. -/
theorem safe_extended (g : Grammar) (steps : List Step) : (g.extended steps).Safe := by
  generalize g.extended steps = g
  refine ⟨?_, fun failure hfailure ↦ ?_, ends_nullable g, fun _ ↦ ends_first, fun _ _ ↦ ends_follow,
    fun hsymbols ↦ ?_⟩
  · rcases checkLL1_eq_ok_or_faulty g with hok | ⟨error, herror⟩
    · exact ⟨true, by rw [isLL1, hok], by simp [hok]⟩
    · exact ⟨false, by rw [isLL1, herror], by simp [herror]⟩
  · rcases checkLL1_eq_ok_or_faulty g with hok | ⟨error, herror⟩
    · cases hok.symm.trans hfailure
    · exact ⟨error, Except.error.inj (hfailure.symm.trans herror)⟩
  · obtain ⟨nullable, first, follow, hanalysed⟩ := exists_analysed hsymbols
    obtain ⟨predictions, hpredictions, -⟩ := (checkSymbols_eq_ok_iff.mp hsymbols).2.predictions
    refine ⟨nullable, first, follow, predictions, hanalysed, fun symbols hsub ↦ ?_, hpredictions,
      map_fst_predictions hpredictions⟩
    obtain ⟨⟨here, empty⟩, hsequence, -⟩ := succeeds_firstOfSequence
      (hanalysed.covers_first.mono hsub) (hanalysed.covers_nullable.mono hsub)
    exact ⟨here, empty, hsequence⟩

end Grammar

end ArithLang
