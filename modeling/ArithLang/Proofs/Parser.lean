import ArithLang.Parser
import ArithLang.Proofs.Lookahead
import ArithLang.Proofs.Phrase
import Mathlib.Data.List.Basic

/-!
# The parser reads exactly the phrases

Every rule of the parser takes the longest phrase of its level off the tokens ahead, or rejects them
at a token that it names. `Outcome` says so of one run of a rule, and is proved for all rules at
once by induction on the number of steps they are given (`rule_induction`); that the steps suffice
is part of the same induction, since `Outcome` has no place for a rule that runs out of them.

Conversely, a rule takes every phrase that stands in front of a token which does not extend it. This
is an induction on the phrase. A sum is read from its right end but parsed from its left one, so for
the two levels with a repetition the induction speaks of the loop: reading the phrase brings the
parser to the loop of the level, with the tree of the phrase in hand.

Together with the determinism of the parser the two directions give that a row of tokens has at most
one tree.
-/

namespace ArithLang.Parser

open Lookahead

variable {φ : Type}

/-! ## The loop of a repetition -/

/-- Combines `left` with the operands that follow after an operator: what sums and products have in
common. -/
def chain (operator : Operator) (operand : ℕ → Reading φ Node) : ℕ → Node → Reading φ Node
  | 0, _ => throw .endless
  | steps + 1, left => do
    if ← sees operator.category then
      let token ← take operator.category
      let right ← operand steps
      chain operator operand steps (.binary (some operator) (some token) left right)
    else return left

private theorem sumFrom_eq_chain (steps : ℕ) (left : Node) :
    (sumFrom steps left : Reading φ Node) = chain .plus termFrom steps left := by
  induction steps generalizing left with
  | zero => rfl
  | succ steps ih =>
    simp only [sumFrom, chain, ih]
    rfl

private theorem productFrom_eq_chain (steps : ℕ) (left : Node) :
    (productFrom steps left : Reading φ Node) = chain .times powFrom steps left := by
  induction steps generalizing left with
  | zero => rfl
  | succ steps ih =>
    simp only [productFrom, chain, ih]
    rfl

/-! ## One step of each rule -/

section Steps

variable {state : Lookahead φ} {token : Token} {tokens : List Token} {category : Category}

theorem head_cases (tokens : List Token) (category : Category) :
    (∀ token ∈ tokens.head?, token.type ≠ .category category) ∨
      ∃ token rest, tokens = token :: rest ∧ token.type = .category category := by
  cases tokens with
  | nil => exact .inl fun token htoken ↦ absurd htoken (Option.not_mem_none token)
  | cons token rest =>
    by_cases htype : token.type = .category category
    · exact .inr ⟨token, rest, rfl, htype⟩
    · exact .inl fun other hother ↦ Option.mem_some.mp hother ▸ htype

theorem take_eq_ok (h : state.Ahead (token :: tokens)) (htype : token.type = .category category) :
    ∃ after, take category state = .ok token after ∧ after.Ahead tokens :=
  h.consumeOneOf_mem (List.mem_singleton.mpr htype)

theorem take_eq_error (h : state.Ahead tokens)
    (htype : ∀ token ∈ tokens.head?, token.type ≠ .category category) :
    ∃ after, take category state = .error
        (.rejected (.unexpected ([category].map .category) (tokens.head?.map Token.type))) after ∧
      after.Ahead tokens :=
  h.consumeOneOf_notMem fun token hmem hin ↦ htype token hmem (List.mem_singleton.mp hin)

private theorem sees_eq (h : state.Ahead tokens) (category : Category) :
    sees category state
      = .ok (decide (tokens.head?.map Token.type = some (.category category))) state := by
  rw [← h.peek_eq]
  rfl

private theorem sees_eq_true (h : state.Ahead (token :: tokens))
    (htype : token.type = .category category) :
    sees category state = .ok true state := by
  rw [sees_eq h]
  simp [htype]

private theorem sees_eq_false (h : state.Ahead tokens)
    (htype : ∀ token ∈ tokens.head?, token.type ≠ .category category) :
    sees category state = .ok false state := by
  rw [sees_eq h]
  cases tokens with
  | nil => simp
  | cons token tokens => simpa using htype token rfl

theorem chain_eq_of_operator {operator : Operator} (h : state.Ahead (token :: tokens))
    (htype : token.type = .category operator.category) (operand : ℕ → Reading φ Node) (steps : ℕ)
    (left : Node) :
    ∃ middle : Lookahead φ, middle.Ahead tokens ∧
      chain operator operand (steps + 1) left state
        = (operand steps >>= fun right ↦
            chain operator operand steps (.binary (some operator) (some token) left right))
          middle := by
  obtain ⟨middle, htake, hmiddle⟩ := take_eq_ok h htype
  refine ⟨middle, hmiddle, ?_⟩
  rw [chain, bind_eq_of_ok (sees_eq_true h htype), if_pos rfl, bind_eq_of_ok htake]

theorem chain_eq_of_no_operator {operator : Operator} (h : state.Ahead tokens)
    (htype : ∀ token ∈ tokens.head?, token.type ≠ .category operator.category)
    (operand : ℕ → Reading φ Node) (steps : ℕ) (left : Node) :
    chain operator operand (steps + 1) left state = .ok left state := by
  rw [chain, bind_eq_of_ok (sees_eq_false h htype), if_neg Bool.false_ne_true]
  rfl

theorem powFrom_eq_of_operator {before : Lookahead φ} {base : Node} {steps : ℕ}
    (hbase : factFrom steps before = .ok base state) (h : state.Ahead (token :: tokens))
    (htype : token.type = .category .pow) :
    ∃ middle : Lookahead φ, middle.Ahead tokens ∧
      powFrom (steps + 1) before
        = (powFrom steps >>= fun exponent ↦
            pure (.binary (some .pow) (some token) base exponent)) middle := by
  obtain ⟨middle, htake, hmiddle⟩ := take_eq_ok h htype
  refine ⟨middle, hmiddle, ?_⟩
  rw [powFrom, bind_eq_of_ok hbase, bind_eq_of_ok (sees_eq_true h htype), if_pos rfl,
    bind_eq_of_ok htake]

theorem powFrom_eq_of_no_operator {before : Lookahead φ} {base : Node} {steps : ℕ}
    (hbase : factFrom steps before = .ok base state) (h : state.Ahead tokens)
    (htype : ∀ token ∈ tokens.head?, token.type ≠ .category .pow) :
    powFrom (steps + 1) before = .ok base state := by
  rw [powFrom, bind_eq_of_ok hbase, bind_eq_of_ok (sees_eq_false h htype),
    if_neg Bool.false_ne_true]
  rfl

theorem factFrom_eq_of_literal {literal : Literal} (h : state.Ahead (literal.token :: tokens))
    (steps : ℕ) :
    ∃ after : Lookahead φ, factFrom (steps + 1) state = .ok (.int literal) after ∧
      after.Ahead tokens := by
  have htype : literal.token.type = ofCategory .int := rfl
  have hmem : literal.token.type ∈ [ofCategory .int, ofCategory .openPar] := List.mem_cons_self
  obtain ⟨after, hconsume, hafter⟩ := h.consumeOneOf_mem hmem
  refine ⟨after, ?_, hafter⟩
  rw [factFrom, consume, bind_eq_of_ok hconsume, if_pos htype]
  simp only [literalNode, Literal.token, Token.ofCategory, literal.ofPayload_lexeme]
  rfl

theorem factFrom_eq_of_opening (h : state.Ahead (token :: tokens))
    (htype : token.type = .category .openPar) (steps : ℕ) :
    ∃ middle : Lookahead φ, middle.Ahead tokens ∧
      factFrom (steps + 1) state
        = (expFrom steps >>= fun inner ↦ take .closePar >>= fun _ ↦ pure inner) middle := by
  have hmem : token.type ∈ [ofCategory .int, ofCategory .openPar] := by simp [htype]
  obtain ⟨middle, hconsume, hmiddle⟩ := h.consumeOneOf_mem hmem
  refine ⟨middle, hmiddle, ?_⟩
  rw [factFrom, consume, bind_eq_of_ok hconsume, if_neg (by simp [htype])]

theorem factFrom_eq_error (h : state.Ahead tokens)
    (hint : ∀ token ∈ tokens.head?, token.type ≠ .category .int)
    (hopening : ∀ token ∈ tokens.head?, token.type ≠ .category .openPar) (steps : ℕ) :
    ∃ after : Lookahead φ, factFrom (steps + 1) state = .error
        (.rejected (.unexpected ([Category.int, .openPar].map .category)
          (tokens.head?.map Token.type))) after ∧
      after.Ahead tokens := by
  have hmem : ∀ token ∈ tokens.head?, token.type ∉ [ofCategory .int, ofCategory .openPar] := by
    intro token hmem hin
    rcases List.mem_cons.mp hin with hin | hin
    · exact hint token hmem hin
    · exact hopening token hmem (List.mem_singleton.mp hin)
  obtain ⟨after, hconsume, hafter⟩ := h.consumeOneOf_notMem hmem
  refine ⟨after, ?_, hafter⟩
  rw [factFrom, consume, bind_eq_of_error hconsume]
  rfl

end Steps

/-! ## Every rule reads a phrase or rejects -/

/-- The rule that reads the phrases of a level. -/
def rule : Level → ℕ → Reading φ Node
  | .exp => expFrom
  | .term => termFrom
  | .pow => powFrom
  | .fact => factFrom

/-- The steps that a rule needs before it has taken a token. -/
def margin : Level → ℕ
  | .exp => 4
  | .term => 3
  | .pow => 2
  | .fact => 1

private theorem margin_pos (level : Level) : 0 < margin level := by cases level <;> decide

/-- How a rule that reads phrases of a level may end when `tokens` are ahead. -/
inductive Outcome (level : Level) (tokens : List Token) :
    EStateM.Result (Failure φ) (Lookahead φ) Node → Prop where
  /-- It has taken a phrase, and what stands behind does not extend that. -/
  | read {w rest : List Token} {tree : Node} {after : Lookahead φ} (hsplit : tokens = w ++ rest)
      (hphrase : Phrase level w tree) (hstops : level.Stops rest) (hahead : after.Ahead rest) :
      Outcome level tokens (.ok tree after)
  /-- It has taken tokens up to one that breaks the phrase, which it names and leaves. -/
  | rejected {taken rest : List Token} {expected : List Category} {after : Lookahead φ}
      (hsplit : tokens = taken ++ rest) (hbreaks : Breaks rest.head? level taken expected)
      (hahead : after.Ahead rest) :
      Outcome level tokens (.error
        (.rejected (.unexpected (expected.map .category) (rest.head?.map Token.type))) after)

/-- With `steps` steps, which are enough for the tokens ahead, a rule has an outcome. -/
def Settles (level : Level) (steps : ℕ) : Prop :=
  ∀ (tokens : List Token) (state : Lookahead φ), state.Ahead tokens →
    (∀ token ∈ tokens, token.Decimal) → 4 * tokens.length + margin level ≤ steps →
      Outcome level tokens (rule level steps state)

/-- The phrases of `level` are repetitions: those of `lower`, one after the other, with an operator
between them. -/
structure Repeats (φ : Type) (level lower : Level) (operator : Operator) : Prop where
  /-- The rule reads an operand and goes on with the loop. -/
  rule_eq : ∀ steps, (rule level (steps + 1) : Reading φ Node)
    = rule lower steps >>= chain operator (rule lower) steps
  /-- The rule spends one step on that. -/
  margin_eq : margin level = margin lower + 1
  /-- The token of an operator pays for the operand behind it. -/
  margin_le : margin lower ≤ 3
  /-- One operand is a phrase. -/
  single : ∀ {w : List Token} {tree : Node}, Phrase lower w tree → Phrase level w tree
  /-- A phrase is extended by an operator and an operand. -/
  extended : ∀ {w v : List Token} {left right : Node} {token : Token}, Phrase level w left →
    token.type = .category operator.category → Phrase lower v right →
    Phrase level (w ++ token :: v) (.binary (some operator) (some token) left right)
  /-- A phrase breaks off in its first operand. -/
  breaks : ∀ {found : Option Token} {taken : List Token} {expected : List Category},
    Breaks found lower taken expected → Breaks found level taken expected
  /-- A phrase breaks off in a further operand. -/
  breaks_extended : ∀ {found : Option Token} {w taken : List Token} {left : Node} {token : Token}
    {expected : List Category}, Phrase level w left → token.type = .category operator.category →
    Breaks found lower taken expected → Breaks found level (w ++ token :: taken) expected
  /-- The operator ends an operand. -/
  notMem : operator.category ∉ lower.extending
  /-- Only what extends an operand, or the operator, extends a phrase. -/
  stops_iff : ∀ {rest : List Token}, level.Stops rest ↔
    lower.Stops rest ∧ ∀ token ∈ rest.head?, token.type ≠ .category operator.category

theorem repeats_term : Repeats φ .term .pow .times where
  rule_eq steps := by
    simp only [rule, termFrom, productFrom_eq_chain]
  margin_eq := rfl
  margin_le := by decide
  single := .single
  extended := .product
  breaks := .single
  breaks_extended := .product
  notMem := by decide
  stops_iff {rest} := by
    cases rest with
    | nil => simp
    | cons token rest => simp [Level.extending, Operator.category, and_comm]

theorem repeats_exp : Repeats φ .exp .term .plus where
  rule_eq steps := by
    simp only [rule, expFrom, sumFrom_eq_chain]
  margin_eq := rfl
  margin_le := by decide
  single := .summand
  extended := .sum
  breaks := .summand
  breaks_extended := .sum
  notMem := by decide
  stops_iff {rest} := by
    cases rest with
    | nil => simp
    | cons token rest => simp [Level.extending, Operator.category, and_comm]

/-- **The induction on the steps of the rules**, for all of them at once: what a rule calls is the
rule of the next level, itself or the rule of a whole expression, and that with fewer steps. -/
@[elab_as_elim]
theorem rule_induction {motive : ℕ → Level → Prop} (zero : ∀ level, motive 0 level)
    (repetition : ∀ {level lower : Level} {operator : Operator} (steps : ℕ),
      Repeats φ level lower operator → (∀ fewer ≤ steps, motive fewer lower) →
        motive (steps + 1) level)
    (pow : ∀ steps, motive steps .fact → motive steps .pow → motive (steps + 1) .pow)
    (fact : ∀ steps, motive steps .exp → motive (steps + 1) .fact) (steps : ℕ) (level : Level) :
    motive steps level := by
  induction steps using Nat.strongRecOn generalizing level with
  | ind steps ih =>
    cases steps with
    | zero => exact zero level
    | succ steps =>
      have hfewer : ∀ fewer ≤ steps, ∀ level, motive fewer level :=
        fun fewer hle level ↦ ih fewer (Nat.lt_succ_of_le hle) level
      cases level with
      | exp => exact repetition steps repeats_exp fun fewer hle ↦ hfewer fewer hle .term
      | term => exact repetition steps repeats_term fun fewer hle ↦ hfewer fewer hle .pow
      | pow =>
        exact pow steps (hfewer steps (Nat.le_refl steps) .fact)
          (hfewer steps (Nat.le_refl steps) .pow)
      | fact => exact fact steps (hfewer steps (Nat.le_refl steps) .exp)

/-- The loop of a repetition settles if its operands do. `u` is what the loop has in hand. -/
private theorem chain_outcome {level lower : Level} {operator : Operator}
    (hrepeats : Repeats φ level lower operator)
    {steps : ℕ} (hsettles : ∀ fewer < steps, Settles (φ := φ) lower fewer)
    {u tokens : List Token} {left : Node} {state : Lookahead φ} (hleft : Phrase level u left)
    (hahead : state.Ahead tokens) (hdecimal : ∀ token ∈ tokens, token.Decimal)
    (hlower : lower.Stops tokens) (hsteps : 4 * tokens.length + 1 ≤ steps) :
    Outcome level (u ++ tokens) (chain operator (rule lower) steps left state) := by
  induction steps generalizing u tokens left state with
  | zero => omega
  | succ steps ih =>
    rcases head_cases tokens operator.category with hoperator | ⟨token, rest, rfl, htype⟩
    · rw [chain_eq_of_no_operator hahead hoperator]
      exact .read rfl hleft (hrepeats.stops_iff.mpr ⟨hlower, hoperator⟩) hahead
    · obtain ⟨middle, hmiddle, hchain⟩ :=
        chain_eq_of_operator hahead htype (rule lower) steps left
      rw [hchain]
      rw [List.length_cons] at hsteps
      have hrest : ∀ token ∈ rest, token.Decimal :=
        fun other hother ↦ hdecimal other (List.mem_cons_of_mem token hother)
      -- the operator has been taken, which pays for the margin of the operand
      have hmargin := hrepeats.margin_le
      have houtcome := hsettles steps (Nat.lt_succ_self steps) rest middle hmiddle hrest (by omega)
      generalize hresult : rule lower steps middle = result at houtcome
      cases houtcome with
      | rejected hsplit hbreaks hafter =>
        rw [bind_eq_of_error hresult]
        exact .rejected (by rw [hsplit, ← List.cons_append, List.append_assoc])
          (hrepeats.breaks_extended hleft htype hbreaks) hafter
      | @read v behind right after hsplit hright hbehind hafter =>
        rw [bind_eq_of_ok hresult]
        subst hsplit
        have hdone := ih (fun fewer hlt ↦ hsettles fewer (Nat.lt_succ_of_lt hlt))
          (hrepeats.extended hleft htype hright) hafter
          (fun other hother ↦ hrest other (List.mem_append_right v hother)) hbehind
          (by rw [List.length_append] at hsteps; omega)
        rwa [List.append_assoc, List.cons_append] at hdone

private theorem settles_fact {steps : ℕ} (hexp : Settles (φ := φ) .exp steps) :
    Settles (φ := φ) .fact (steps + 1) := by
  intro tokens state hahead hdecimal hsteps
  simp only [margin] at hsteps
  rcases head_cases tokens .int with hint | ⟨token, rest, rfl, htype⟩
  · rcases head_cases tokens .openPar with hopening | ⟨opening, rest, rfl, htype⟩
    · obtain ⟨after, hfact, hafter⟩ := factFrom_eq_error hahead hint hopening steps
      rw [rule, hfact]
      exact .rejected (List.nil_append tokens).symm (.factor hint hopening) hafter
    · obtain ⟨middle, hmiddle, hfact⟩ := factFrom_eq_of_opening hahead htype steps
      rw [List.length_cons] at hsteps
      have houtcome : Outcome .exp rest (expFrom steps middle) :=
        hexp rest middle hmiddle
          (fun other hother ↦ hdecimal other (List.mem_cons_of_mem opening hother))
          (by simp only [margin]; omega)
      rw [rule, hfact]
      generalize hresult : expFrom steps middle = result at houtcome
      cases houtcome with
      | rejected hsplit hbreaks hafter =>
        rw [bind_eq_of_error hresult]
        exact .rejected (by rw [hsplit, List.cons_append]) (.inside htype hbreaks) hafter
      | @read w behind inner after hsplit hinner hbehind hafter =>
        rw [bind_eq_of_ok hresult]
        subst hsplit
        rcases head_cases behind .closePar with hclosing | ⟨closing, rest, rfl, hclosing⟩
        · obtain ⟨final, htake, hfinal⟩ := take_eq_error hafter hclosing
          rw [bind_eq_of_error htake]
          exact .rejected (List.cons_append).symm (.unclosed htype hinner hbehind hclosing) hfinal
        · obtain ⟨final, htake, hfinal⟩ := take_eq_ok hafter hclosing
          rw [bind_eq_of_ok htake]
          exact .read (by simp) (.parenthesised htype hclosing hinner) (by simp [Level.Stops,
            Level.extending]) hfinal
  · obtain ⟨literal, rfl⟩ := (hdecimal token List.mem_cons_self).eq_token htype
    obtain ⟨after, hfact, hafter⟩ := factFrom_eq_of_literal hahead steps
    rw [rule, hfact]
    exact .read (List.singleton_append).symm (.literal literal)
      (by simp [Level.Stops, Level.extending]) hafter

private theorem settles_pow {steps : ℕ} (hfact : Settles (φ := φ) .fact steps)
    (hpow : Settles (φ := φ) .pow steps) : Settles (φ := φ) .pow (steps + 1) := by
  intro tokens state hahead hdecimal hsteps
  simp only [margin] at hsteps
  have houtcome : Outcome .fact tokens (factFrom steps state) :=
    hfact tokens state hahead hdecimal (by simp only [margin]; omega)
  generalize hresult : factFrom steps state = result at houtcome
  change Outcome .pow tokens (powFrom (steps + 1) state)
  cases houtcome with
  | rejected hsplit hbreaks hafter =>
    rw [powFrom, bind_eq_of_error hresult]
    exact .rejected hsplit (.base hbreaks) hafter
  | @read w behind base after hsplit hbase _ hafter =>
    rcases head_cases behind .pow with hoperator | ⟨token, rest, rfl, htype⟩
    · rw [powFrom_eq_of_no_operator hresult hafter hoperator]
      refine .read hsplit (.factor hbase) ?_ hafter
      simpa [Level.Stops, Level.extending] using hoperator
    · obtain ⟨middle, hmiddle, heq⟩ := powFrom_eq_of_operator hresult hafter htype
      rw [heq]
      subst hsplit
      rw [List.length_append, List.length_cons] at hsteps
      have hexponent : Outcome .pow rest (powFrom steps middle) :=
        hpow rest middle hmiddle
          (fun other hother ↦ hdecimal other
            (List.mem_append_right w (List.mem_cons_of_mem token hother)))
          (by simp only [margin]; omega)
      generalize hresult' : powFrom steps middle = result' at hexponent
      cases hexponent with
      | rejected hsplit hbreaks hfinal =>
        rw [bind_eq_of_error hresult']
        exact .rejected (by rw [hsplit, ← List.cons_append, List.append_assoc])
          (.exponent hbase htype hbreaks) hfinal
      | @read v behind exponent final hsplit hexponent hstops hfinal =>
        rw [bind_eq_of_ok hresult']
        exact .read (by rw [hsplit]; simp) (.power hbase htype hexponent) hstops hfinal

private theorem settles_repetition {level lower : Level} {operator : Operator}
    (hrepeats : Repeats φ level lower operator) {steps : ℕ}
    (hsettles : ∀ fewer ≤ steps, Settles (φ := φ) lower fewer) :
    Settles (φ := φ) level (steps + 1) := by
  intro tokens state hahead hdecimal hsteps
  rw [hrepeats.margin_eq] at hsteps
  have houtcome := hsettles steps (Nat.le_refl steps) tokens state hahead hdecimal (by omega)
  rw [hrepeats.rule_eq]
  generalize hresult : rule lower steps state = result at houtcome
  cases houtcome with
  | rejected hsplit hbreaks hafter =>
    rw [bind_eq_of_error hresult]
    exact .rejected hsplit (hrepeats.breaks hbreaks) hafter
  | @read w behind tree after hsplit hphrase hstops hafter =>
    rw [bind_eq_of_ok hresult]
    subst hsplit
    refine chain_outcome hrepeats (fun fewer hlt ↦ hsettles fewer (Nat.le_of_lt hlt))
      (hrepeats.single hphrase) hafter
      (fun other hother ↦ hdecimal other (List.mem_append_right w hother)) hstops ?_
    have hmargin := margin_pos lower
    rw [List.length_append] at hsteps
    omega

/-- **Every rule reads a phrase or rejects.** -/
theorem settles (steps : ℕ) (level : Level) : Settles (φ := φ) level steps := by
  induction steps, level using rule_induction (φ := φ) with
  | zero level =>
    intro tokens state _ _ hsteps
    cases level <;> simp [margin] at hsteps
  | repetition steps hrepeats ih => exact settles_repetition hrepeats ih
  | pow steps ihfact ihpow => exact settles_pow ihfact ihpow
  | fact steps ih => exact settles_fact ih

/-! ## Every phrase is read -/

/-- With steps enough, the rule of a level reads `w` in front of tokens that do not extend it. -/
def Reads (φ : Type) (level : Level) (w : List Token) (tree : Node) : Prop :=
  ∀ (steps : ℕ) (rest : List Token) (state : Lookahead φ), state.Ahead (w ++ rest) →
    level.Stops rest → 4 * (w ++ rest).length + margin level ≤ steps →
      ∃ after, rule level steps state = .ok tree after ∧ after.Ahead rest

/-- With steps enough, reading `w` brings the rule of a repetition to its loop, with the tree of `w`
in hand. Here what follows may well be the operator of the repetition. -/
def Reaches (φ : Type) (level lower : Level) (operator : Operator) (w : List Token)
    (tree : Node) : Prop :=
  ∀ (steps : ℕ) (rest : List Token) (state : Lookahead φ), state.Ahead (w ++ rest) →
    lower.Stops rest → 4 * (w ++ rest).length + margin level ≤ steps →
      ∃ (fewer : ℕ) (middle : Lookahead φ), 4 * rest.length + 1 ≤ fewer ∧ middle.Ahead rest ∧
        rule level steps state = chain operator (rule lower) fewer tree middle

theorem Reaches.reads {level lower : Level} {operator : Operator} {w : List Token} {tree : Node}
    (h : Reaches φ level lower operator w tree) (hrepeats : Repeats φ level lower operator) :
    Reads φ level w tree := by
  intro steps rest state hahead hstops hsteps
  obtain ⟨hlower, hoperator⟩ := hrepeats.stops_iff.mp hstops
  obtain ⟨fewer, middle, hfewer, hmiddle, heq⟩ := h steps rest state hahead hlower hsteps
  obtain ⟨fewer, rfl⟩ : ∃ n, fewer = n + 1 := ⟨fewer - 1, by omega⟩
  exact ⟨middle, by rw [heq, chain_eq_of_no_operator hmiddle hoperator], hmiddle⟩

private theorem reaches_single {level lower : Level} {operator : Operator} {w : List Token}
    {tree : Node}
    (hrepeats : Repeats φ level lower operator) (h : Reads φ lower w tree) :
    Reaches φ level lower operator w tree := by
  intro steps rest state hahead hstops hsteps
  have hmargin := margin_pos lower
  rw [hrepeats.margin_eq] at hsteps
  obtain ⟨steps, rfl⟩ : ∃ n, steps = n + 1 := ⟨steps - 1, by omega⟩
  obtain ⟨after, hlower, hafter⟩ := h steps rest state hahead hstops (by omega)
  refine ⟨steps, after, ?_, hafter, ?_⟩
  · rw [List.length_append] at hsteps
    omega
  · rw [hrepeats.rule_eq, bind_eq_of_ok hlower]

/-- Behind a repetition and its operator, the rule is about to read one more operand. -/
theorem rule_eq_of_operator {level lower : Level} {operator : Operator} {w rest : List Token}
    {token : Token} {left : Node} {steps : ℕ} {state : Lookahead φ}
    (hrepeats : Repeats φ level lower operator) (hleft : Reaches φ level lower operator w left)
    (htype : token.type = .category operator.category) (hahead : state.Ahead (w ++ token :: rest))
    (hsteps : 4 * (w ++ token :: rest).length + margin level ≤ steps) :
    ∃ (fewer : ℕ) (next : Lookahead φ), 4 * rest.length + 4 ≤ fewer ∧ next.Ahead rest ∧
      rule level steps state = (rule lower fewer >>= fun right ↦ chain operator (rule lower) fewer
        (.binary (some operator) (some token) left right)) next := by
  -- the operator ends the repetition in front of it, so that is read as it would be alone
  have htoken : lower.Stops (token :: rest) := Level.stops_cons htype hrepeats.notMem
  obtain ⟨fewer, middle, hfewer, hmiddle, heq⟩ := hleft steps _ state hahead htoken hsteps
  rw [List.length_cons] at hfewer
  obtain ⟨fewer, rfl⟩ : ∃ n, fewer = n + 1 := ⟨fewer - 1, by omega⟩
  obtain ⟨next, hnext, hchain⟩ := chain_eq_of_operator hmiddle htype (rule lower) fewer left
  exact ⟨fewer, next, by omega, hnext, heq.trans hchain⟩

private theorem reaches_extended {level lower : Level} {operator : Operator} {w v : List Token}
    {token : Token} {left right : Node} (hrepeats : Repeats φ level lower operator)
    (hleft : Reaches φ level lower operator w left)
    (htype : token.type = .category operator.category) (hright : Reads φ lower v right) :
    Reaches φ level lower operator (w ++ token :: v)
      (.binary (some operator) (some token) left right) := by
  intro steps rest state hahead hstops hsteps
  rw [List.append_assoc, List.cons_append] at hahead hsteps
  obtain ⟨fewer, next, hfewer, hnext, heq⟩ :=
    rule_eq_of_operator hrepeats hleft htype hahead hsteps
  have hmargin := hrepeats.margin_le
  obtain ⟨after, hread, hafter⟩ := hright fewer rest next hnext hstops (by omega)
  refine ⟨fewer, after, ?_, hafter, ?_⟩
  · rw [List.length_append] at hfewer
    omega
  · rw [heq, bind_eq_of_ok hread]

theorem fact_eq_of_opening {opening : Token} {rest : List Token} {steps : ℕ} {state : Lookahead φ}
    (hopening : opening.type = .category .openPar) (hahead : state.Ahead (opening :: rest))
    (hsteps : 4 * (opening :: rest).length + margin .fact ≤ steps) :
    ∃ (fewer : ℕ) (next : Lookahead φ), 4 * rest.length + margin .exp ≤ fewer ∧ next.Ahead rest ∧
      rule .fact steps state
        = (rule .exp fewer >>= fun inner ↦ take .closePar >>= fun _ ↦ pure inner) next := by
  rw [List.length_cons] at hsteps
  simp only [margin] at hsteps
  obtain ⟨fewer, rfl⟩ : ∃ n, steps = n + 1 := ⟨steps - 1, by omega⟩
  obtain ⟨next, hnext, heq⟩ := factFrom_eq_of_opening hahead hopening fewer
  exact ⟨fewer, next, by simp only [margin]; omega, hnext, heq⟩

private theorem reads_parenthesised {opening closing : Token} {w : List Token} {tree : Node}
    (hopening : opening.type = .category .openPar) (hclosing : closing.type = .category .closePar)
    (h : Reads φ .exp w tree) : Reads φ .fact (opening :: (w ++ [closing])) tree := by
  intro steps rest state hahead _ hsteps
  rw [List.cons_append, List.append_assoc, List.singleton_append] at hahead hsteps
  obtain ⟨fewer, next, hfewer, hnext, heq⟩ := fact_eq_of_opening hopening hahead hsteps
  have hstops : Level.exp.Stops (closing :: rest) := Level.stops_cons hclosing (by decide)
  obtain ⟨after, hexp, hafter⟩ := h fewer (closing :: rest) next hnext hstops hfewer
  obtain ⟨final, htake, hfinal⟩ := take_eq_ok hafter hclosing
  refine ⟨final, ?_, hfinal⟩
  rw [heq, bind_eq_of_ok hexp, bind_eq_of_ok htake]
  rfl

private theorem reads_literal (literal : Literal) :
    Reads φ .fact [literal.token] (.int literal) := by
  intro steps rest state hahead _ hsteps
  simp only [margin] at hsteps
  obtain ⟨steps, rfl⟩ : ∃ n, steps = n + 1 := ⟨steps - 1, by omega⟩
  exact factFrom_eq_of_literal hahead steps

private theorem reads_factor {w : List Token} {tree : Node} (h : Reads φ .fact w tree) :
    Reads φ .pow w tree := by
  intro steps rest state hahead hstops hsteps
  simp only [margin] at hsteps
  obtain ⟨steps, rfl⟩ : ∃ n, steps = n + 1 := ⟨steps - 1, by omega⟩
  obtain ⟨after, hfact, hafter⟩ := h steps rest state hahead
    (hstops.mono (by simp [Level.extending])) (by simp only [margin]; omega)
  have hoperator : ∀ token ∈ rest.head?, token.type ≠ .category .pow :=
    fun token htoken ↦ hstops token htoken .pow (by simp [Level.extending])
  exact ⟨after, powFrom_eq_of_no_operator hfact hafter hoperator, hafter⟩

theorem pow_eq_of_operator {w rest : List Token} {token : Token} {base : Node} {steps : ℕ}
    {state : Lookahead φ} (hbase : Reads φ .fact w base) (htype : token.type = .category .pow)
    (hahead : state.Ahead (w ++ token :: rest))
    (hsteps : 4 * (w ++ token :: rest).length + margin .pow ≤ steps) :
    ∃ (fewer : ℕ) (next : Lookahead φ), 4 * rest.length + margin .pow ≤ fewer ∧ next.Ahead rest ∧
      rule .pow steps state = (rule .pow fewer >>= fun exponent ↦
        pure (.binary (some .pow) (some token) base exponent)) next := by
  simp only [margin] at hsteps
  obtain ⟨fewer, rfl⟩ : ∃ n, steps = n + 1 := ⟨steps - 1, by omega⟩
  obtain ⟨middle, hfact, hmiddle⟩ := hbase fewer _ state hahead
    (Level.stops_cons htype (by decide)) (by simp only [margin]; omega)
  obtain ⟨next, hnext, heq⟩ := powFrom_eq_of_operator hfact hmiddle htype
  rw [List.length_append, List.length_cons] at hsteps
  exact ⟨fewer, next, by simp only [margin]; omega, hnext, heq⟩

private theorem reads_power {w v : List Token} {token : Token} {base exponent : Node}
    (hbase : Reads φ .fact w base) (htype : token.type = .category .pow)
    (hexponent : Reads φ .pow v exponent) :
    Reads φ .pow (w ++ token :: v) (.binary (some .pow) (some token) base exponent) := by
  intro steps rest state hahead hstops hsteps
  rw [List.append_assoc, List.cons_append] at hahead hsteps
  obtain ⟨fewer, next, hfewer, hnext, heq⟩ := pow_eq_of_operator hbase htype hahead hsteps
  obtain ⟨after, hpow, hafter⟩ := hexponent fewer rest next hnext hstops hfewer
  refine ⟨after, ?_, hafter⟩
  rw [heq, bind_eq_of_ok hpow]
  rfl

/-- The induction hypothesis on phrases: a repetition reaches its loop, and so reads more than its
phrase says. -/
def Parses (φ : Type) : Level → List Token → Node → Prop
  | .exp => Reaches φ .exp .term .plus
  | .term => Reaches φ .term .pow .times
  | .pow => Reads φ .pow
  | .fact => Reads φ .fact

theorem Parses.reads {level : Level} {w : List Token} {tree : Node} (h : Parses φ level w tree) :
    Reads φ level w tree := by
  cases level with
  | exp => exact Reaches.reads h repeats_exp
  | term => exact Reaches.reads h repeats_term
  | pow => exact h
  | fact => exact h

theorem parses_of_phrase {level : Level} {w : List Token} {tree : Node}
    (h : Phrase level w tree) : Parses φ level w tree := by
  induction h with
  | literal literal => exact reads_literal literal
  | parenthesised hopening hclosing _ ih => exact reads_parenthesised hopening hclosing ih.reads
  | factor _ ih => exact reads_factor ih
  | power _ htype _ ihbase ihexponent => exact reads_power ihbase htype ihexponent
  | single _ ih => exact reaches_single repeats_term ih
  | product _ htype _ ihleft ihright => exact reaches_extended repeats_term ihleft htype ihright
  | summand _ ih => exact reaches_single repeats_exp ih.reads
  | sum _ htype _ ihleft ihright =>
    exact reaches_extended repeats_exp ihleft htype ihright.reads

/-- **Every phrase is read**, whatever stands behind it that does not extend it. -/
theorem reads_of_phrase {level : Level} {w : List Token} {tree : Node} (h : Phrase level w tree) :
    Reads φ level w tree :=
  (parses_of_phrase h).reads

/-! ## The rules as they are called -/

/-- The rule of a level, as it is called from outside. -/
def entry : Level → Reading φ Node
  | .exp => exp
  | .term => term
  | .pow => pow
  | .fact => fact

theorem entry_eq (level : Level) : (entry level : Reading φ Node) = withSteps (rule level) := by
  cases level <;> rfl

private theorem length_le_reach {state : Lookahead φ} {tokens : List Token}
    (h : state.Ahead tokens) :
    tokens.length ≤ reach state := by
  obtain ⟨source, rest, empty, hsource, ⟨marker, -, rfl⟩, hrow⟩ := h
  -- the row of places is as long as the tokens ahead, or longer by the empty ones
  have hlength := congrArg List.length hrow
  have hmarker : marker.toList.length ≤ 1 := by cases marker <;> simp
  simp only [List.length_cons, List.length_append, List.length_map, List.length_replicate]
    at hlength
  rw [reach, hsource, Option.map_some, Option.getD_some]
  omega

theorem steps_le_reach {state : Lookahead φ} {tokens : List Token} (level : Level)
    (h : state.Ahead tokens) : 4 * tokens.length + margin level ≤ 4 * (reach state + 1) := by
  have hreach := length_le_reach h
  have hmargin : margin level ≤ 4 := by cases level <;> decide
  omega

theorem entry_outcome {state : Lookahead φ} {tokens : List Token} (level : Level)
    (h : state.Ahead tokens) (hdecimal : ∀ token ∈ tokens, token.Decimal) :
    Outcome level tokens (entry level state) := by
  rw [entry_eq]
  exact settles _ level tokens state h hdecimal (steps_le_reach level h)

theorem entry_reads {level : Level} {w rest : List Token} {tree : Node} {state : Lookahead φ}
    (hphrase : Phrase level w tree) (h : state.Ahead (w ++ rest)) (hstops : level.Stops rest) :
    ∃ after, entry level state = .ok tree after ∧ after.Ahead rest := by
  rw [entry_eq]
  exact reads_of_phrase hphrase _ rest state h hstops (steps_le_reach level h)

/-! ## Whole sentences -/

/-- The parser at work on a source, from its first token on. -/
def parseFrom (source : Source φ) : Reading φ Node := do
  Lookahead.init source
  parse

theorem parseFrom_eq {source : Source φ} {tokens : List Token} (hsource : source.Supplies tokens)
    (before : Lookahead φ) :
    ∃ state : Lookahead φ, state.Ahead tokens ∧
      parseFrom source before
        = (entry .exp >>= fun body ↦ take .eof >>= fun _ ↦ pure (.prog none body)) state := by
  obtain ⟨start, hinit, hstart⟩ := init_ahead before hsource
  exact ⟨start.note .parsing, hstart.note .parsing, by rw [parseFrom, bind_eq_of_ok hinit]; rfl⟩

/-- The parser reads a sentence up to the marker of its end. -/
theorem parseFrom_eq_ok {source : Source φ} {w rest : List Token} {marker : Token} {tree : Node}
    (hsource : source.Supplies (w ++ marker :: rest)) (hmarker : marker.type = .category .eof)
    (hphrase : Phrase .exp w tree) (before : Lookahead φ) :
    ∃ after, parseFrom source before = .ok (.prog none tree) after ∧ after.Ahead rest := by
  obtain ⟨state, hstate, heq⟩ := parseFrom_eq hsource before
  have hstops : Level.exp.Stops (marker :: rest) := Level.stops_cons hmarker (by decide)
  obtain ⟨middle, hexp, hmiddle⟩ := entry_reads hphrase hstate hstops
  obtain ⟨after, htake, hafter⟩ := take_eq_ok hmiddle hmarker
  refine ⟨after, ?_, hafter⟩
  rw [heq, bind_eq_of_ok hexp, bind_eq_of_ok htake]
  rfl

/-- The parser answers the tree of a sentence, or rejects the tokens where they break off. -/
theorem parseFrom_outcome {source : Source φ} {tokens : List Token}
    (hsource : source.Supplies tokens) (hdecimal : ∀ token ∈ tokens, token.Decimal)
    (before : Lookahead φ) :
    (∃ w marker rest tree after, tokens = w ++ marker :: rest ∧ marker.type = .category .eof ∧
      Phrase .exp w tree ∧ parseFrom source before = .ok (.prog none tree) after ∧
      after.Ahead rest) ∨
    ∃ taken rest expected after, tokens = taken ++ rest ∧
      Sentence.Breaks rest.head? taken expected ∧
      parseFrom source before = .error
        (.rejected (.unexpected (expected.map .category) (rest.head?.map Token.type))) after ∧
      after.Ahead rest := by
  obtain ⟨state, hstate, heq⟩ := parseFrom_eq hsource before
  have houtcome := entry_outcome .exp hstate hdecimal
  rw [heq]
  generalize hresult : entry .exp state = result at houtcome
  cases houtcome with
  | @rejected taken rest expected after hsplit hbreaks hafter =>
    exact .inr ⟨taken, rest, expected, after, hsplit, .body hbreaks, bind_eq_of_error hresult,
      hafter⟩
  | @read w behind tree after hsplit hphrase hstops hafter =>
    rw [bind_eq_of_ok hresult]
    rcases head_cases behind .eof with hmarker | ⟨marker, rest, rfl, hmarker⟩
    · obtain ⟨final, htake, hfinal⟩ := take_eq_error hafter hmarker
      exact .inr ⟨w, behind, _, final, hsplit, .unmarked hphrase hstops hmarker,
        bind_eq_of_error htake, hfinal⟩
    · obtain ⟨final, htake, hfinal⟩ := take_eq_ok hafter hmarker
      refine .inl ⟨w, marker, rest, tree, final, hsplit, hmarker, hphrase, ?_, hfinal⟩
      rw [bind_eq_of_ok htake]
      rfl

theorem parseFrom_cases {source : Source φ} {tokens : List Token} (hsource : source.Supplies tokens)
    (hdecimal : ∀ token ∈ tokens, token.Decimal) (before : Lookahead φ) :
    (∃ w marker rest tree after, tokens = w ++ marker :: rest ∧ marker.type = .category .eof ∧
      Phrase .exp w tree ∧ parseFrom source before = .ok (.prog none tree) after ∧
      after.Ahead rest) ∨
    ∃ taken rest expected after, tokens = taken ++ rest ∧
      parseFrom source before
        = .error (.rejected (.unexpected expected (rest.head?.map Token.type))) after ∧
      after.Ahead rest := by
  obtain hread | ⟨taken, rest, expected, after, hsplit, -, herror, hafter⟩ :=
    parseFrom_outcome hsource hdecimal before
  · exact .inl hread
  · exact .inr ⟨taken, rest, _, after, hsplit, herror, hafter⟩

/-- The tokens have at most one tree. -/
theorem tree_eq_of_sentence {tokens : List Token} {tree other : Node} (h : Sentence tokens tree)
    (h' : Sentence tokens other) : tree = other := by
  obtain ⟨w, marker, rest, rfl, hmarker, hphrase⟩ := h
  obtain ⟨w', marker', rest', hsplit, hmarker', hphrase'⟩ := h'
  -- both trees are what the parser answers, from any state at all
  have hsource : (Source.ofTokens (w ++ marker :: rest) : Source Empty).Supplies _ :=
    Source.supplies_ofTokens _
  obtain ⟨after, heq, -⟩ := parseFrom_eq_ok hsource hmarker hphrase {}
  rw [hsplit] at hsource heq
  obtain ⟨after', heq', -⟩ := parseFrom_eq_ok hsource hmarker' hphrase' {}
  rw [heq] at heq'
  cases heq'
  rfl

theorem tree_eq_of_phrase {level : Level} {w : List Token} {tree other : Node}
    (h : Phrase level w tree) (h' : Phrase level w other) : tree = other :=
  tree_eq_of_sentence ⟨w, .marker (.category .eof), [], rfl, rfl, h.toExp⟩
    ⟨w, .marker (.category .eof), [], rfl, rfl, h'.toExp⟩

/-- **The parser decides the sentences.** Of tokens whose integer tokens are decimal, it answers a
root over a tree exactly if they start with an expression that has this tree and the marker of its
end; it rejects all others; and no tokens have two trees. -/
theorem parseFrom_eq_ok_iff_sentence {tokens : List Token}
    (hdecimal : ∀ token ∈ tokens, token.Decimal) (before : Lookahead φ) :
    (∀ answer, (∃ after, parseFrom (.ofTokens tokens) before = .ok answer after) ↔
      ∃ tree, answer = .prog none tree ∧ Sentence tokens tree) ∧
    ((¬ ∃ tree, Sentence tokens tree) →
      ∃ error after, parseFrom (.ofTokens tokens) before = .error (.rejected error) after) ∧
    ∀ tree other, Sentence tokens tree → Sentence tokens other → tree = other := by
  have hsource : (Source.ofTokens tokens : Source φ).Supplies tokens :=
    Source.supplies_ofTokens tokens
  refine ⟨fun answer ↦ ⟨?_, ?_⟩, fun hnone ↦ ?_, fun _ _ ↦ tree_eq_of_sentence⟩
  · rintro ⟨after, heq⟩
    rcases parseFrom_cases hsource hdecimal before with
      ⟨w, marker, rest, tree, _, hsplit, hmarker, hphrase, hok, -⟩ | ⟨_, _, _, _, -, herror, -⟩
    · rw [heq] at hok
      cases hok
      exact ⟨tree, rfl, w, marker, rest, hsplit, hmarker, hphrase⟩
    · rw [heq] at herror
      cases herror
  · rintro ⟨tree, rfl, w, marker, rest, rfl, hmarker, hphrase⟩
    obtain ⟨after, heq, -⟩ := parseFrom_eq_ok hsource hmarker hphrase before
    exact ⟨after, heq⟩
  · rcases parseFrom_cases hsource hdecimal before with
      ⟨w, marker, rest, tree, _, hsplit, hmarker, hphrase, -, -⟩ | ⟨_, _, _, after, -, herror, -⟩
    · exact absurd ⟨tree, w, marker, rest, hsplit, hmarker, hphrase⟩ hnone
    · exact ⟨_, after, herror⟩

/-- The literal `2`. -/
def two : Literal := ⟨"2", by decide, by decide⟩

/-- The literal `03`. -/
def three : Literal := ⟨"03", by decide, by decide⟩

/-- The tokens of `2*(03+2)**2`, the marker of the end, and one more that is never looked at. -/
def productTokens : List Token :=
  [two.token, .ofCategory .times "*", .ofCategory .openPar "(", three.token,
    .ofCategory .plus "+", two.token, .ofCategory .closePar ")", .ofCategory .pow "**", two.token,
    .marker (.category .eof), ⟨.named "INT", .absent⟩]

/-- The tree of `2*(03+2)**2`. -/
def productTree : Node :=
  .binary (some .times) (some (.ofCategory .times "*")) (.int two)
    (.binary (some .pow) (some (.ofCategory .pow "**"))
      (.binary (some .plus) (some (.ofCategory .plus "+")) (.int three) (.int two)) (.int two))

theorem phrase_productTree : Phrase .exp (productTokens.take 9) productTree := by
  have hsum : Phrase .exp [three.token, .ofCategory .plus "+", two.token]
      (.binary (some .plus) (some (.ofCategory .plus "+")) (.int three) (.int two)) :=
    .sum (.summand (.single (.factor (.literal three)))) rfl (.single (.factor (.literal two)))
  have hgroup : Phrase .fact ((productTokens.take 7).drop 2) _ :=
    @Phrase.parenthesised (.ofCategory .openPar "(") (.ofCategory .closePar ")") _ _ rfl rfl hsum
  have hpower : Phrase .pow ((productTokens.take 9).drop 2) _ :=
    .power hgroup rfl (.factor (.literal two))
  exact .summand (.product (.single (.factor (.literal two))) rfl hpower)

theorem parseFrom_productTokens :
    (∀ token ∈ productTokens, token.Decimal) ∧
      ∃ after, parseFrom (.ofTokens productTokens) ({} : Lookahead Empty)
        = .ok (.prog none productTree) after := by
  have hdecimal : ∀ token ∈ productTokens, token.Decimal := by decide
  refine ⟨hdecimal, ((parseFrom_eq_ok_iff_sentence hdecimal {}).1 _).mpr ⟨productTree, rfl, ?_⟩⟩
  exact ⟨_, .marker (.category .eof), [⟨.named "INT", .absent⟩], rfl, rfl, phrase_productTree⟩

end ArithLang.Parser
