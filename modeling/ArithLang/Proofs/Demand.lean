import ArithLang.Proofs.Pieces
import ArithLang.Proofs.Queue
import ArithLang.Proofs.Rejection
import Mathlib.Data.List.ReduceOption

/-!
# What a parser draws from its source

A parser asks its source for a token at the moment it takes the one in front of it. So the source
is always one token ahead of what has been taken, and the count is lost only where tokens are pushed
back. The rules push a token back in one place, where it is not one of those that they expect, and
that is the end of the run.

Hence the invariant: with nothing pushed back before a rule, nothing is pushed back after it, and
if a wrong token stops it, then one place is (`Frugal`). It says nothing about the tokens, so it
passes from the steps of a rule to the rule without a look at what is read. What is left in the
source then follows from the tokens ahead, which are known where a parser stops.
-/

namespace ArithLang

variable {φ : Type}

theorem Source.Supplies.unique {source : Source φ} {tokens others : List Token}
    (h : source.Supplies tokens) (hother : source.Supplies others) : tokens = others := by
  obtain ⟨marker, hending, rfl⟩ := h
  obtain ⟨other, hother, rfl⟩ := hother
  obtain rfl : marker = other := Ending.finished.inj (hending.symm.trans hother)
  rfl

namespace Lookahead

/-- The first `count` of some tokens have been drawn, and the source holds the others. -/
def HasDrawn (state : Lookahead φ) (tokens : List Token) (count : ℕ) : Prop :=
  ∃ source, state.source = some source ∧ source.Supplies (tokens.drop count) ∧
    count ≤ tokens.length

theorem HasDrawn.unique {state : Lookahead φ} {tokens : List Token} {m n : ℕ}
    (hm : state.HasDrawn tokens m) (hn : state.HasDrawn tokens n) : m = n := by
  obtain ⟨source, hsource, hm, hle⟩ := hm
  obtain ⟨other, hother, hn, hle'⟩ := hn
  obtain rfl : source = other := Option.some.inj (hsource.symm.trans hother)
  have hlength := congrArg List.length (hm.unique hn)
  rw [List.length_drop, List.length_drop] at hlength
  omega

/-- The source holds the tokens ahead but for the current one and one for each place that was pushed
back. -/
private theorem Ahead.exists_supplies {state : Lookahead φ} {tokens : List Token}
    (h : state.Ahead tokens) :
    ∃ source, state.source = some source ∧
      source.Supplies (tokens.drop (state.pushed.length + 1)) := by
  obtain ⟨source, rest, empty, hsource, hsupplies, hrow⟩ := h
  -- the empty places are behind all tokens, so they are not in the source
  have hplaces : ∀ tokens : List Token, (tokens.map some).reduceOption = tokens :=
    fun tokens ↦ (List.filterMap_map).trans List.filterMap_some
  have hdrop := congrArg (fun row ↦ (row.drop (state.pushed.length + 1)).reduceOption) hrow
  simp only [List.drop_succ_cons, List.drop_left] at hdrop
  rw [List.drop_append, List.reduceOption_append, List.drop_replicate,
    List.reduceOption_replicate_none, List.append_nil, ← List.map_drop, hplaces, hplaces] at hdrop
  exact ⟨source, hsource, hdrop ▸ hsupplies⟩

/-- What has been drawn is what was taken, the current token, and what was pushed back, as far as
there are so many tokens. -/
theorem Ahead.hasDrawn {state : Lookahead φ} {rest : List Token} (h : state.Ahead rest)
    (taken : List Token) :
    state.HasDrawn (taken ++ rest)
      (min (taken.length + (state.pushed.length + 1)) (taken ++ rest).length) := by
  obtain ⟨source, hsource, hsupplies⟩ := h.exists_supplies
  have hmin : (taken ++ rest).drop
      (min (taken.length + (state.pushed.length + 1)) (taken ++ rest).length)
        = (taken ++ rest).drop (taken.length + (state.pushed.length + 1)) := by
    rw [List.drop_eq_drop_iff, Nat.min_assoc, Nat.min_self]
  refine ⟨source, hsource, ?_, Nat.min_le_right _ _⟩
  rwa [hmin, List.drop_length_add_append]

/-! ## Steps that push nothing back -/

/-- A step that finds nothing pushed back leaves nothing pushed back, but for one place if a wrong
token stops it. -/
structure Frugal {α : Type} (step : Reading φ α) : Prop where
  /-- Nothing is pushed back by a step that succeeds. -/
  of_ok : ∀ {state after : Lookahead φ} {a : α}, state.pushed = [] → step state = .ok a after →
    after.pushed = []
  /-- One place is pushed back by a step that a wrong token stops. -/
  of_unexpected : ∀ {state after : Lookahead φ} {expected : List TokenType} {found : TokenType},
    state.pushed = [] → step state = .error (.rejected (.unexpected expected (some found))) after →
    after.pushed.length = 1

namespace Frugal

variable {α β : Type} {step : Reading φ α}

theorem pure (a : α) : Frugal (pure a : Reading φ α) where
  of_ok hpushed h := by
    cases h
    exact hpushed
  of_unexpected _ h := by cases h

theorem throw {failure : Failure φ}
    (h : ∀ expected found, failure ≠ .rejected (.unexpected expected (some found))) :
    Frugal (throw failure : Reading φ α) where
  of_ok _ h := by cases h
  of_unexpected _ herror := by
    cases herror
    exact absurd rfl (h _ _)

theorem bind {continue_ : α → Reading φ β} (hstep : Frugal step)
    (hcontinue : ∀ a, Frugal (continue_ a)) : Frugal (step >>= continue_) where
  of_ok {state after b} hpushed h := by
    cases hfirst : step state with
    | ok a middle =>
      rw [bind_eq_of_ok hfirst] at h
      exact (hcontinue a).of_ok (hstep.of_ok hpushed hfirst) h
    | error failure middle =>
      rw [bind_eq_of_error hfirst] at h
      cases h
  of_unexpected {state after expected found} hpushed h := by
    cases hfirst : step state with
    | ok a middle =>
      rw [bind_eq_of_ok hfirst] at h
      exact (hcontinue a).of_unexpected (hstep.of_ok hpushed hfirst) h
    | error failure middle =>
      rw [bind_eq_of_error hfirst] at h
      cases h
      exact hstep.of_unexpected hpushed hfirst

end Frugal

theorem frugal_draw : Frugal (draw : Reading φ (Option Token)) where
  of_ok {state after token} hpushed h := by
    have hdrawn : ∀ (token : Token) (rest : Source φ),
        (state.drawn token rest).pushed = state.pushed := by
      intro token rest
      rw [drawn]
      split <;> rfl
    rw [draw] at h
    split at h
    · cases h
    · split at h <;> cases h
      · exact (hdrawn _ _).trans hpushed
      · exact hpushed
      · exact (hdrawn _ _).trans hpushed
  of_unexpected _ h := by
    rw [draw] at h
    split at h
    · cases h
    · split at h <;> cases h

private theorem pushed_of_init {source : Source φ} {before state : Lookahead φ}
    (h : init source before = .ok () state) : state.pushed = [] := by
  rw [init] at h
  split at h <;> cases h
  rfl

theorem frugal_next : Frugal (next : Reading φ (Option Token)) where
  of_ok {state after token} hpushed h := by
    simp only [next, hpushed] at h
    cases hdraw : draw state with
    | ok following middle =>
      simp only [hdraw] at h
      cases h
      have hmiddle : middle.pushed = [] := frugal_draw.of_ok hpushed hdraw
      exact hmiddle
    | error failure middle =>
      simp only [hdraw] at h
      cases h
  of_unexpected {state after expected found} hpushed h := by
    simp only [next, hpushed] at h
    cases hdraw : draw state with
    | ok following middle =>
      simp only [hdraw] at h
      cases h
    | error failure middle =>
      simp only [hdraw] at h
      cases h
      exact frugal_draw.of_unexpected hpushed hdraw

/-- A token that is refused is pushed back, and nothing else is. -/
theorem frugal_consumeOneOf (types : List TokenType) :
    Frugal (consumeOneOf types : Reading φ Token) where
  of_ok {state after token} hpushed h := by
    rw [consumeOneOf] at h
    cases hnext : next state with
    | error failure middle =>
      rw [bind_eq_of_error hnext] at h
      cases h
    | ok taken middle =>
      rw [bind_eq_of_ok hnext] at h
      split at h
      · cases h
      · split at h <;> cases h
        exact frugal_next.of_ok hpushed hnext
  of_unexpected {state after expected found} hpushed h := by
    rw [consumeOneOf] at h
    cases hnext : next state with
    | error failure middle =>
      rw [bind_eq_of_error hnext] at h
      cases h
      exact frugal_next.of_unexpected hpushed hnext
    | ok taken middle =>
      rw [bind_eq_of_ok hnext] at h
      split at h
      · cases h
      · split at h <;> cases h
        have hmiddle : middle.pushed = [] := frugal_next.of_ok hpushed hnext
        exact congrArg (List.length ∘ List.cons _) hmiddle

end Lookahead

namespace Parser

open Lookahead

/-! ## The rules -/

private theorem frugal_sees (category : Category) : Frugal (sees category : Reading φ Bool) where
  of_ok hpushed h := by
    cases h
    exact hpushed
  of_unexpected _ h := by cases h

private theorem frugal_literalNode (token : Token) :
    Frugal (literalNode token : Reading φ Node) := by
  rw [literalNode]
  split
  · exact .pure _
  · exact .throw (by simp)

private theorem frugal_chain {operator : Operator} {operand : ℕ → Reading φ Node} {steps : ℕ}
    (hoperand : ∀ fewer < steps, Frugal (operand fewer)) (left : Node) :
    Frugal (chain operator operand steps left) := by
  induction steps generalizing left with
  | zero => exact .throw (by simp)
  | succ steps ih =>
    rw [chain]
    refine (frugal_sees _).bind fun found ↦ ?_
    split
    · refine (frugal_consumeOneOf _).bind fun token ↦ ?_
      refine (hoperand steps (Nat.lt_succ_self steps)).bind fun right ↦ ?_
      exact ih (fun fewer hlt ↦ hoperand fewer (Nat.lt_succ_of_lt hlt)) _
    · exact .pure _

private theorem frugal_repetition {level lower : Level} {operator : Operator}
    (hrepeats : Repeats φ level lower operator) {steps : ℕ}
    (hlower : ∀ fewer ≤ steps, Frugal (rule lower fewer : Reading φ Node)) :
    Frugal (rule level (steps + 1) : Reading φ Node) := by
  rw [hrepeats.rule_eq]
  exact (hlower steps (Nat.le_refl steps)).bind
    (frugal_chain fun fewer hlt ↦ hlower fewer (Nat.le_of_lt hlt))

private theorem frugal_pow {steps : ℕ} (hfact : Frugal (factFrom steps : Reading φ Node))
    (hpow : Frugal (powFrom steps : Reading φ Node)) :
    Frugal (powFrom (steps + 1) : Reading φ Node) := by
  rw [powFrom]
  refine hfact.bind fun base ↦ (frugal_sees _).bind fun found ↦ ?_
  split
  · exact (frugal_consumeOneOf _).bind fun token ↦ hpow.bind fun exponent ↦ .pure _
  · exact .pure _

private theorem frugal_fact {steps : ℕ} (hexp : Frugal (expFrom steps : Reading φ Node)) :
    Frugal (factFrom (steps + 1) : Reading φ Node) := by
  rw [factFrom]
  refine (frugal_consumeOneOf _).bind fun token ↦ ?_
  split
  · exact frugal_literalNode token
  · exact hexp.bind fun inner ↦ (frugal_consumeOneOf _).bind fun closing ↦ .pure _

/-- **Every rule is frugal**, with any number of steps. -/
theorem frugal_rule (steps : ℕ) (level : Level) : Frugal (rule level steps : Reading φ Node) := by
  induction steps, level using rule_induction (φ := φ) with
  | zero level => cases level <;> exact .throw (by simp)
  | repetition steps hrepeats ih => exact frugal_repetition hrepeats ih
  | pow steps ihfact ihpow => exact frugal_pow ihfact ihpow
  | fact steps ih => exact frugal_fact ih

private theorem frugal_prog : Frugal (prog : Reading φ Node) := by
  have hexp : Frugal (exp : Reading φ Node) := by
    constructor
    · exact fun {state} ↦ (frugal_rule _ .exp).of_ok
    · exact fun {state} ↦ (frugal_rule _ .exp).of_unexpected
  exact hexp.bind fun body ↦ (frugal_consumeOneOf _).bind fun marker ↦ .pure _

private theorem frugal_parse : Frugal (parse : Reading φ Node) := by
  have hnote : Frugal (modify (Lookahead.note .parsing) : Reading φ Unit) := by
    constructor
    · intro state after a hpushed h
      cases h
      exact hpushed
    · intro state after expected found hpushed h
      cases h
  exact hnote.bind fun _ ↦ frugal_prog

/-- A wrong token that stops a parser is all that it pushes back, whatever it was used for
before. -/
private theorem pushed_of_parseFrom {source : Source φ} {tokens : List Token}
    (hsource : source.Supplies tokens) {before after : Lookahead φ} {expected : List TokenType}
    {found : TokenType}
    (h : parseFrom source before = .error (.rejected (.unexpected expected (some found))) after) :
    after.pushed.length = 1 := by
  obtain ⟨state, hinit, -⟩ := init_ahead before hsource
  rw [parseFrom, bind_eq_of_ok hinit] at h
  exact frugal_parse.of_unexpected (pushed_of_init hinit) h

/-! ## Whole texts -/

private theorem exists_token_of_breaks {text : String} {taken rest : List Token}
    {expected : List Category} (hsplit : Scanner.tokens text = taken ++ rest)
    (h : Sentence.Breaks rest.head? taken expected) : ∃ token behind, rest = token :: behind := by
  refine List.exists_cons_of_ne_nil ?_
  rintro rfl
  have hmarker : Token.marker Scanner.marker ∈ taken := by
    rw [← List.append_nil taken, ← hsplit, Scanner.tokens_eq]
    exact List.mem_append_right _ List.mem_cons_self
  exact absurd rfl (h.not_eof _ hmarker)

/-- **A parser draws no more than it needs.** It draws all tokens of a text that is an expression,
the marker of the end included, and then the source has nothing left. If it gives up at one token,
then that token is its current one, the one behind it has been drawn too if there is one, and the
parser still hands out all tokens from that one on. -/
theorem parseFrom_draws (text : String) (before : Lookahead (Lexer.Error Empty)) :
    (∃ body after, parseFrom (source text) before = .ok (.prog none body) after ∧
      after.HasDrawn (Scanner.tokens text) (Scanner.tokens text).length ∧
      ∀ calls, replies serve after calls = replies Queue.serve [] calls) ∨
    ∃ k token expected after, (Scanner.tokens text)[k]? = some token ∧
      parseFrom (source text) before
        = .error (.rejected (.unexpected expected (some token.type))) after ∧
      after.current = some token ∧
      after.HasDrawn (Scanner.tokens text) (min (k + 2) (Scanner.tokens text).length) ∧
      ∀ calls, replies serve after calls
        = replies Queue.serve ((Scanner.tokens text).drop k) calls := by
  have hsource := Scanner.supplies_source text
  by_cases hsentence : ∃ tree, Sentence (Scanner.tokens text) tree
  · obtain ⟨tree, hsentence⟩ := hsentence
    obtain ⟨after, hok, hahead⟩ := parseFrom_eq_ok (Scanner.tokens_eq_pieces text ▸ hsource) rfl
      (Scanner.sentence_tokens_iff.mp hsentence) before
    have hdrawn := hahead.hasDrawn (Scanner.tokens text)
    rw [List.append_nil, Nat.min_eq_right (Nat.le_add_right _ _)] at hdrawn
    exact .inl ⟨tree, after, hok, hdrawn, fun calls ↦ (hahead.replies calls).1⟩
  · have hdecimal : ∀ token ∈ Scanner.tokens text, token.Decimal :=
      fun token htoken ↦ Scanner.decimal_of_mem_tokens htoken
    obtain ⟨w, marker, rest, tree, -, hsplit, hmarker, hphrase, -⟩ |
        ⟨taken, rest, expected, after, hsplit, hbreaks, herror, hahead⟩ :=
      parseFrom_outcome hsource hdecimal before
    · exact absurd ⟨tree, w, marker, rest, hsplit, hmarker, hphrase⟩ hsentence
    obtain ⟨token, rest, rfl⟩ := exists_token_of_breaks hsplit hbreaks
    have hdrawn := hahead.hasDrawn taken
    rw [pushed_of_parseFrom hsource herror, ← hsplit] at hdrawn
    have hdrop : (Scanner.tokens text).drop taken.length = token :: rest := by
      rw [hsplit, List.drop_left]
    refine .inr ⟨taken.length, token, _, after, ?_, herror, hahead.current_eq, hdrawn, ?_⟩
    · rw [← List.head?_drop, hdrop, List.head?_cons]
    · rw [hdrop]
      exact fun calls ↦ (hahead.replies calls).1

end Parser

end ArithLang
