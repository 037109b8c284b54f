import ArithLang.Lookahead
import Mathlib.Data.List.Basic

/-!
# The tokens ahead of a parser

A look-ahead keeps its tokens in three places: the current one, those that were pushed back, and
those that the source still holds. Laid end to end they are one row of places, and the tokens ahead
are what stands in that row. Every operation is then an operation on the list of the tokens ahead:
`next` removes its head, `backup` puts a token in front, and `consumeOneOf` either removes a head of
one of the types it is given or leaves the list as it was.

## Empty places

At the end of the input the current place is empty, and pushing a token back there keeps the empty
place behind the token. So a row may end with any number of empty places, but none ever stands in
front of a token. `Ahead` says exactly that, which is why the number of empty places is existential:
no operation can tell two such rows apart.
-/

namespace ArithLang

variable {φ : Type}

theorem bind_eq_of_ok {ε σ α β : Type} {step : EStateM ε σ α} {continue_ : α → EStateM ε σ β}
    {state after : σ} {a : α} (h : step state = .ok a after) :
    (step >>= continue_) state = continue_ a after := by
  simp only [bind, EStateM.bind, h]

theorem bind_eq_of_error {ε σ α β : Type} {step : EStateM ε σ α} {continue_ : α → EStateM ε σ β}
    {state after : σ} {failure : ε} (h : step state = .error failure after) :
    (step >>= continue_) state = .error failure after := by
  simp only [bind, EStateM.bind, h]

namespace Source

/-- The source hands out `tokens`, and then is at its end. -/
def Supplies (source : Source φ) (tokens : List Token) : Prop :=
  ∃ marker, source.ending = .finished marker ∧ tokens = source.upcoming ++ marker.toList

theorem supplies_ofTokens (tokens : List Token) : (ofTokens tokens : Source φ).Supplies tokens :=
  ⟨none, rfl, by simp [ofTokens]⟩

end Source

namespace Lookahead

/-- The tokens ahead are `tokens`: they fill the row of places up to some empty ones. -/
def Ahead (state : Lookahead φ) (tokens : List Token) : Prop :=
  ∃ (source : Source φ) (rest : List Token) (empty : ℕ),
    state.source = some source ∧ source.Supplies rest ∧
      state.current :: (state.pushed ++ rest.map some)
        = tokens.map some ++ List.replicate empty none

/-! ## Drawing from the source -/

theorem draw_eq {state : Lookahead φ} {source : Source φ} {tokens : List Token}
    (hsource : state.source = some source) (h : source.Supplies tokens) :
    ∃ (after : Lookahead φ) (left : Source φ), draw state = .ok tokens.head? after ∧
      after.current = state.current ∧ after.pushed = state.pushed ∧
      after.source = some left ∧ left.Supplies tokens.tail := by
  obtain ⟨marker, hending, rfl⟩ := h
  cases hup : source.upcoming with
  | nil =>
    refine ⟨{ state with source := some { source with upcoming := [], ending := .finished none } },
      _, ?_, rfl, rfl, rfl, ⟨none, rfl, ?_⟩⟩
    · simp only [draw, hsource, hup, hending]
      cases marker <;> rfl
    · cases marker <;> rfl
  | cons token rest =>
    refine ⟨state.drawn token { source with upcoming := rest }, { source with upcoming := rest },
      ?_, ?_, ?_, ?_, ⟨marker, hending, rfl⟩⟩
    · simp only [draw, hsource, hup]
      rfl
    all_goals
      rw [drawn]
      split <;> rfl

theorem init_ahead (before : Lookahead φ) {source : Source φ} {tokens : List Token}
    (h : source.Supplies tokens) :
    ∃ after, init source before = .ok () after ∧ after.Ahead tokens := by
  have hsource : ({ before with source := some source } : Lookahead φ).source = some source := rfl
  obtain ⟨after, left, hdraw, -, -, hleft, hsupplies⟩ := draw_eq hsource h
  refine ⟨{ after with current := tokens.head?, pushed := [] }, ?_,
    left, tokens.tail, if tokens = [] then 1 else 0, hleft, hsupplies, ?_⟩
  · simp only [init, hdraw]
  · cases tokens <;> simp

/-! ## One lemma for each operation -/

theorem Ahead.current_eq {state : Lookahead φ} {tokens : List Token} (h : state.Ahead tokens) :
    state.current = tokens.head? := by
  obtain ⟨source, rest, empty, -, -, hrow⟩ := h
  cases tokens with
  | nil =>
    cases empty with
    | zero => simp at hrow
    | succ empty => exact (List.cons.inj hrow).1
  | cons token tokens => exact (List.cons.inj hrow).1

theorem Ahead.peek_eq {state : Lookahead φ} {tokens : List Token} (h : state.Ahead tokens) :
    state.peek = tokens.head?.map Token.type := by
  rw [peek, h.current_eq]

theorem Ahead.atEnd_eq {state : Lookahead φ} {tokens : List Token} (h : state.Ahead tokens) :
    state.atEnd = tokens.isEmpty := by
  rw [atEnd, h.peek_eq]
  cases tokens <;> rfl

theorem Ahead.note {state : Lookahead φ} {tokens : List Token} (h : state.Ahead tokens)
    (entry : Log.Entry) : (state.note entry).Ahead tokens :=
  h

/-- Taking a token removes the first of the tokens ahead. -/
theorem Ahead.next {state : Lookahead φ} {tokens : List Token} (h : state.Ahead tokens) :
    ∃ after, Lookahead.next state = .ok tokens.head? after ∧ after.Ahead tokens.tail := by
  have hcurrent := h.current_eq
  obtain ⟨source, rest, empty, hsource, hsupplies, hrow⟩ := h
  have hbehind : ∃ empty', state.pushed ++ rest.map some
      = tokens.tail.map some ++ List.replicate empty' none := by
    cases tokens with
    | nil =>
      cases empty with
      | zero => simp at hrow
      | succ empty => exact ⟨empty, (List.cons.inj hrow).2⟩
    | cons token tokens => exact ⟨empty, (List.cons.inj hrow).2⟩
  obtain ⟨empty', hbehind⟩ := hbehind
  cases hpushed : state.pushed with
  | cons place pushed =>
    refine ⟨{ state with current := place, pushed }, ?_, source, rest, empty', hsource, hsupplies,
      ?_⟩
    · simp only [Lookahead.next, hpushed, hcurrent]
    · rw [hpushed] at hbehind
      exact hbehind
  | nil =>
    obtain ⟨after, left, hdraw, -, hafter, hleft, hsupplies'⟩ := draw_eq hsource hsupplies
    rw [hpushed, List.nil_append] at hbehind
    refine ⟨{ after with current := rest.head? }, ?_, left, rest.tail,
      if rest = [] then 1 else empty', hleft, hsupplies', ?_⟩
    · simp only [Lookahead.next, hpushed, hdraw, hcurrent]
    · cases rest with
      | nil =>
        -- the source is exhausted, so nothing but empty places is left
        obtain ⟨htail, -⟩ := List.append_eq_nil_iff.mp hbehind.symm
        rw [List.map_eq_nil_iff.mp htail, hafter, hpushed]
        rfl
      | cons token rest => simpa [hafter, hpushed] using hbehind

/-- Pushing a token back puts it in front of the tokens ahead. -/
theorem Ahead.backup {state : Lookahead φ} {tokens : List Token} (h : state.Ahead tokens)
    (token : Token) :
    ∃ after, Lookahead.backup (some token) state = .ok () after ∧
      after.Ahead (token :: tokens) := by
  obtain ⟨source, rest, empty, hsource, hsupplies, hrow⟩ := h
  exact ⟨_, rfl, source, rest, empty, hsource, hsupplies, congrArg (some token :: ·) hrow⟩

/-! ## Consuming a token -/

theorem Ahead.consumeOneOf_mem {state : Lookahead φ} {token : Token} {tokens : List Token}
    {types : List TokenType} (h : state.Ahead (token :: tokens)) (hmem : token.type ∈ types) :
    ∃ after, consumeOneOf types state = .ok token after ∧ after.Ahead tokens := by
  obtain ⟨after, hnext, hafter⟩ := h.next
  refine ⟨after, ?_, hafter⟩
  rw [consumeOneOf, bind_eq_of_ok hnext]
  simp only [List.head?_cons, hmem, if_true]
  rfl

/-- A first token of no such type stays, and so does the end of the input; the error names the
types that were expected and the one that was found. -/
theorem Ahead.consumeOneOf_notMem {state : Lookahead φ} {tokens : List Token}
    {types : List TokenType} (h : state.Ahead tokens)
    (hmem : ∀ token ∈ tokens.head?, token.type ∉ types) :
    ∃ after, consumeOneOf types state
        = .error (.rejected (.unexpected types (tokens.head?.map Token.type))) after ∧
      after.Ahead tokens := by
  obtain ⟨after, hnext, hafter⟩ := h.next
  cases tokens with
  | nil =>
    refine ⟨after, ?_, hafter⟩
    rw [consumeOneOf, bind_eq_of_ok hnext]
    rfl
  | cons token tokens =>
    obtain ⟨final, hbackup, hfinal⟩ := Ahead.backup hafter token
    refine ⟨final, ?_, hfinal⟩
    rw [consumeOneOf, bind_eq_of_ok hnext]
    simp only [List.head?_cons, hmem token rfl, if_false]
    rw [bind_eq_of_ok hbackup]
    rfl

end Lookahead

end ArithLang
