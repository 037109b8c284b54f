import ArithLang.Proofs.Parser

/-!
# Accepted tokens are a sentence

What the parser accepts is a sentence, whatever the tokens are. For tokens with decimal integers
this is part of how the rules end (`Parser.settles`); but the parser never looks behind the marker
of the end, so tokens are accepted as well if an integer token there carries no literal. Here a rule
is therefore followed only as far as it succeeds: a token that is taken is one of those that a
phrase needs at that place, and an integer token that has become a node carries a literal.
-/

namespace ArithLang

theorem exists_of_bind_eq_ok {ε σ α β : Type} {step : EStateM ε σ α} {continue_ : α → EStateM ε σ β}
    {state after : σ} {b : β} (h : (step >>= continue_) state = .ok b after) :
    ∃ a middle, step state = .ok a middle ∧ continue_ a middle = .ok b after := by
  cases hstep : step state with
  | ok a middle =>
    rw [bind_eq_of_ok hstep] at h
    exact ⟨a, middle, rfl, h⟩
  | error failure middle =>
    rw [bind_eq_of_error hstep] at h
    cases h

namespace Parser

open Lookahead

variable {φ : Type} {state after : Lookahead φ} {tokens : List Token} {token : Token} {tree : Node}
  {steps : ℕ}

/-! ## Single tokens -/

private theorem eq_cons_of_take {category : Category} (hahead : state.Ahead tokens)
    (h : take category state = .ok token after) :
    ∃ rest, tokens = token :: rest ∧ token.type = .category category ∧ after.Ahead rest := by
  rcases head_cases tokens category with hother | ⟨first, rest, rfl, htype⟩
  · obtain ⟨_, herror, -⟩ := take_eq_error hahead hother
    rw [herror] at h
    cases h
  · obtain ⟨_, hok, hafter⟩ := take_eq_ok hahead htype
    rw [hok] at h
    cases h
    exact ⟨rest, rfl, htype, hafter⟩

private theorem decimal_of_factFrom (hahead : state.Ahead (token :: tokens))
    (htype : token.type = .category .int) (h : factFrom (steps + 1) state = .ok tree after) :
    token.Decimal := by
  have hmem : token.type ∈ [ofCategory .int, ofCategory .openPar] := by simp [htype]
  obtain ⟨middle, hconsume, -⟩ := hahead.consumeOneOf_mem hmem
  rw [factFrom, consume, bind_eq_of_ok hconsume, if_pos htype, literalNode] at h
  intro _
  rw [← Literal.isOk_ofPayload_iff]
  cases hpayload : Literal.ofPayload token.payload with
  | ok literal => rfl
  | error error =>
    rw [hpayload] at h
    cases h

/-! ## The rules -/

/-- With `steps` steps, the rule of a level answers a tree only if it takes a phrase of the level
with this tree. -/
def Takes (φ : Type) (level : Level) (steps : ℕ) : Prop :=
  ∀ (tokens : List Token) (state after : Lookahead φ) (tree : Node), state.Ahead tokens →
    rule level steps state = .ok tree after →
      ∃ w rest, tokens = w ++ rest ∧ Phrase level w tree ∧ after.Ahead rest

/-- The loop of a repetition takes operands as long as it goes on. `u` is what it has in hand. -/
private theorem chain_takes {level lower : Level} {operator : Operator}
    (hrepeats : Repeats φ level lower operator) (htakes : ∀ fewer < steps, Takes φ lower fewer)
    {u : List Token} {left : Node} (hleft : Phrase level u left) (hahead : state.Ahead tokens)
    (h : chain operator (rule lower) steps left state = .ok tree after) :
    ∃ w rest, tokens = w ++ rest ∧ Phrase level (u ++ w) tree ∧ after.Ahead rest := by
  induction steps generalizing u tokens left state with
  | zero => cases h
  | succ steps ih =>
    rcases head_cases tokens operator.category with hoperator | ⟨token, rest, rfl, htype⟩
    · rw [chain_eq_of_no_operator hahead hoperator] at h
      cases h
      exact ⟨[], tokens, rfl, by rwa [List.append_nil], hahead⟩
    · obtain ⟨middle, hmiddle, hchain⟩ := chain_eq_of_operator hahead htype (rule lower) steps left
      rw [hchain] at h
      obtain ⟨right, next, hright, hrest⟩ := exists_of_bind_eq_ok h
      obtain ⟨v, behind, rfl, hphrase, hnext⟩ :=
        htakes steps (Nat.lt_succ_self steps) rest middle next right hmiddle hright
      obtain ⟨w, rest, rfl, hwhole, hafter⟩ :=
        ih (fun fewer hlt ↦ htakes fewer (Nat.lt_succ_of_lt hlt))
          (hrepeats.extended hleft htype hphrase) hnext hrest
      refine ⟨token :: (v ++ w), rest, by simp, ?_, hafter⟩
      rwa [List.append_assoc, List.cons_append] at hwhole

private theorem takes_repetition {level lower : Level} {operator : Operator}
    (hrepeats : Repeats φ level lower operator) (htakes : ∀ fewer ≤ steps, Takes φ lower fewer) :
    Takes φ level (steps + 1) := by
  intro tokens state after tree hahead h
  rw [hrepeats.rule_eq] at h
  obtain ⟨first, middle, hfirst, hrest⟩ := exists_of_bind_eq_ok h
  obtain ⟨u, behind, rfl, hphrase, hmiddle⟩ :=
    htakes steps (Nat.le_refl steps) tokens state middle first hahead hfirst
  obtain ⟨w, rest, rfl, hwhole, hafter⟩ :=
    chain_takes hrepeats (fun fewer hlt ↦ htakes fewer (Nat.le_of_lt hlt))
      (hrepeats.single hphrase) hmiddle hrest
  exact ⟨u ++ w, rest, (List.append_assoc u w rest).symm, hwhole, hafter⟩

private theorem takes_pow (hfact : Takes φ .fact steps) (hpow : Takes φ .pow steps) :
    Takes φ .pow (steps + 1) := by
  intro tokens state after tree hahead h
  change powFrom (steps + 1) state = _ at h
  obtain ⟨base, middle, hbase, -⟩ := exists_of_bind_eq_ok (by rwa [powFrom] at h)
  obtain ⟨w, behind, rfl, hphrase, hmiddle⟩ := hfact tokens state middle base hahead hbase
  rcases head_cases behind .pow with hoperator | ⟨token, rest, rfl, htype⟩
  · rw [powFrom_eq_of_no_operator hbase hmiddle hoperator] at h
    cases h
    exact ⟨w, behind, rfl, .factor hphrase, hmiddle⟩
  · obtain ⟨next, hnext, heq⟩ := powFrom_eq_of_operator hbase hmiddle htype
    rw [heq] at h
    obtain ⟨exponent, final, hexponent, hpure⟩ := exists_of_bind_eq_ok h
    obtain ⟨v, rest, rfl, hphrase', hfinal⟩ := hpow rest next final exponent hnext hexponent
    cases hpure
    exact ⟨w ++ token :: v, rest, by simp, .power hphrase htype hphrase', hfinal⟩

private theorem takes_fact (hexp : Takes φ .exp steps) : Takes φ .fact (steps + 1) := by
  intro tokens state after tree hahead h
  change factFrom (steps + 1) state = _ at h
  rcases head_cases tokens .int with hint | ⟨token, rest, rfl, htype⟩
  · rcases head_cases tokens .openPar with hother | ⟨opening, rest, rfl, hopening⟩
    · obtain ⟨_, herror, -⟩ := factFrom_eq_error hahead hint hother steps
      rw [herror] at h
      cases h
    · obtain ⟨middle, hmiddle, heq⟩ := factFrom_eq_of_opening hahead hopening steps
      rw [heq] at h
      obtain ⟨inner, next, hinner, hrest⟩ := exists_of_bind_eq_ok h
      obtain ⟨closing, final, htake, hpure⟩ := exists_of_bind_eq_ok hrest
      obtain ⟨w, behind, rfl, hphrase, hnext⟩ := hexp rest middle next inner hmiddle hinner
      obtain ⟨rest, rfl, hclosing, hfinal⟩ := eq_cons_of_take hnext htake
      cases hpure
      exact ⟨opening :: (w ++ [closing]), rest, by simp, .parenthesised hopening hclosing hphrase,
        hfinal⟩
  · obtain ⟨literal, rfl⟩ := (decimal_of_factFrom hahead htype h).eq_token htype
    obtain ⟨final, hfact, hfinal⟩ := factFrom_eq_of_literal hahead steps
    rw [hfact] at h
    cases h
    exact ⟨[literal.token], rest, rfl, .literal literal, hfinal⟩

/-- **Every rule takes phrases only.** -/
theorem takes (steps : ℕ) (level : Level) : Takes φ level steps := by
  induction steps, level using rule_induction (φ := φ) with
  | zero level =>
    intro tokens state after tree _ h
    cases level <;> cases h
  | repetition steps hrepeats ih => exact takes_repetition hrepeats ih
  | pow steps ihfact ihpow => exact takes_pow ihfact ihpow
  | fact steps ih => exact takes_fact ih

/-! ## Whole sentences -/

/-- **What the parser accepts is a sentence**, and its answer is the root over the tree of that. -/
theorem sentence_of_parseFrom {source : Source φ} {before : Lookahead φ} {answer : Node}
    (hsource : source.Supplies tokens) (h : parseFrom source before = .ok answer after) :
    ∃ tree, answer = .prog none tree ∧ Sentence tokens tree := by
  obtain ⟨state, hstate, heq⟩ := parseFrom_eq hsource before
  rw [heq] at h
  obtain ⟨body, middle, hbody, hrest⟩ := exists_of_bind_eq_ok h
  obtain ⟨marker, final, htake, hpure⟩ := exists_of_bind_eq_ok hrest
  obtain ⟨w, behind, rfl, hphrase, hmiddle⟩ := takes _ .exp tokens state middle body hstate hbody
  obtain ⟨rest, rfl, hmarker, -⟩ := eq_cons_of_take hmiddle htake
  cases hpure
  exact ⟨body, rfl, w, marker, rest, rfl, hmarker, hphrase⟩

end Parser

end ArithLang
