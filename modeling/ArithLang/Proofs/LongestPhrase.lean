import ArithLang.Proofs.Rejection
import Mathlib.Data.List.ReduceOption

/-!
# A rule takes the longest phrase and leaves the rest

Each of the four rules may be called by itself, on any tokens ahead. It then takes a phrase of its
level, the longest one in front, and leaves what stands behind; or it fails, and leaves the tokens
from the offending one on, however deep in the rules the error came up.

The rules are greedy: which phrase they take is decided by the token behind it (`Level.Stops`), not
by a comparison of phrases. That the phrase is the longest one follows from the determinism of the
rules. If a longer one stood in front as well, a rule that had its tokens ahead, and no others,
would have to leave nothing and to leave what the longer phrase has more. For this the tokens ahead
must be a function of the state (`Lookahead.Ahead.eq`), although the row of places they fill is not.
-/

namespace ArithLang

variable {φ : Type}

namespace Lookahead

variable {state : Lookahead φ} {tokens others : List Token}

/-- A state has one row of tokens ahead: the places that hold a token. -/
theorem Ahead.eq (h : state.Ahead tokens) (h' : state.Ahead others) : tokens = others := by
  obtain ⟨source, rest, empty, hsource, ⟨marker, hending, rfl⟩, hrow⟩ := h
  obtain ⟨source', rest', empty', hsource', ⟨marker', hending', rfl⟩, hrow'⟩ := h'
  cases hsource.symm.trans hsource'
  cases hending.symm.trans hending'
  have hplaces := congrArg List.reduceOption (hrow.symm.trans hrow')
  simpa [List.reduceOption_append, List.reduceOption_replicate_none, List.reduceOption]
    using hplaces

theorem Ahead.iff_eq (h : state.Ahead tokens) (others : List Token) :
    state.Ahead others ↔ others = tokens :=
  ⟨fun h' ↦ h'.eq h, fun heq ↦ heq ▸ h⟩

end Lookahead

/-! ## The longest phrase -/

section Longest

variable {level : Level} {w v rest : List Token} {tree other : Node}

theorem Lookahead.exists_ahead (φ : Type) (tokens : List Token) :
    ∃ state : Lookahead φ, state.Ahead tokens := by
  obtain ⟨state, -, hstate⟩ := Lookahead.init_ahead ({} : Lookahead φ)
    (Source.supplies_ofTokens tokens)
  exact ⟨state, hstate⟩

/-- A phrase with a token behind it that does not extend it cannot be gone on with to another phrase
of the level. -/
private theorem Phrase.eq_nil_of_append (h : Phrase level w tree) (hstops : level.Stops v)
    (h' : Phrase level (w ++ v) other) : v = [] := by
  obtain ⟨state, hstate⟩ := Lookahead.exists_ahead Empty (w ++ v)
  obtain ⟨after, heq, hafter⟩ := Parser.entry_reads h hstate hstops
  rw [← List.append_nil (w ++ v)] at hstate
  obtain ⟨after', heq', hafter'⟩ := Parser.entry_reads h' hstate level.stops_nil
  cases heq.symm.trans heq'
  exact hafter.eq hafter'

/-- A phrase with a token behind it that does not extend it is the longest one in front. -/
private theorem Phrase.longest (h : Phrase level w tree) (hstops : level.Stops rest)
    (h' : Phrase level v other) (hfront : v <+: w ++ rest) : v <+: w := by
  rcases List.prefix_or_prefix_of_prefix hfront (List.prefix_append w rest) with hv | ⟨u, rfl⟩
  · exact hv
  · obtain ⟨behind, hbehind⟩ := (List.prefix_append_right_inj w).mp hfront
    have hu : level.Stops u := by
      cases u with
      | nil => exact level.stops_nil
      | cons token u =>
        subst hbehind
        exact hstops
    simp [h.eq_nil_of_append hu h']

end Longest

/-! ## The offending token -/

section Offending

variable {found : Option Token} {level : Level} {taken rest : List Token}
  {expected : List Category}

theorem Breaks.at_end (h : Breaks found level taken expected) :
    Breaks none level taken expected := by
  induction h with
  | factor => exact .factor (by simp) (by simp)
  | inside hopening _ ih => exact .inside hopening ih
  | unclosed hopening h => exact .unclosed hopening h (by simp) (by simp)
  | base _ ih => exact .base ih
  | exponent hbase hoperator _ ih => exact .exponent hbase hoperator ih
  | single _ ih => exact .single ih
  | product hleft hoperator _ ih => exact .product hleft hoperator ih
  | summand _ ih => exact .summand ih
  | sum hleft hoperator _ ih => exact .sum hleft hoperator ih

theorem Breaks.not_phrase (h : Breaks rest.head? level taken expected) (tree : Node) :
    ¬ Phrase level (taken ++ rest) tree := by
  intro hphrase
  obtain ⟨state, hstate⟩ := Lookahead.exists_ahead Empty (taken ++ rest)
  obtain ⟨_, herror, -⟩ := Parser.entry_rejects h hstate
  rw [← List.append_nil (taken ++ rest)] at hstate
  obtain ⟨_, hok, -⟩ := Parser.entry_reads hphrase hstate level.stops_nil
  cases hok.symm.trans herror

/-- The tokens `taken` go on to phrases of a level with each of the categories `expected`, and are
none yet; the first of the tokens `rest` is the one with which they do not go on any more. -/
structure Offends (level : Level) (taken rest : List Token) (expected : List Category) :
    Prop where
  /-- Something is expected. -/
  expected_ne_nil : expected ≠ []
  /-- With a token that is expected, and others behind that, they are a phrase. -/
  completes : ∀ category ∈ expected, Completes level taken category
  /-- They are not one by themselves. -/
  unfinished : ∀ tree, ¬ Phrase level taken tree
  /-- With the offending token they begin no phrase. -/
  offending : ∀ token ∈ rest.head?, ∀ v tree, ¬ Phrase level (taken ++ token :: v) tree

private theorem Breaks.offends (h : Breaks rest.head? level taken expected) :
    Offends level taken rest expected where
  expected_ne_nil := h.expected_ne_nil
  completes _ := h.completes
  unfinished tree hphrase := by
    have hnone : Breaks ([] : List Token).head? level taken expected := h.at_end
    rw [← List.append_nil taken] at hphrase
    exact hnone.not_phrase tree hphrase
  offending token htoken v tree hphrase := by
    have hsome : Breaks (token :: v).head? level taken expected := by
      rwa [List.head?_cons, ← Option.mem_def.mp htoken]
    exact hsome.not_phrase tree hphrase

end Offending

/-! ## What a rule takes and what it leaves -/

namespace Parser

/-- **A rule takes the longest phrase of its level and leaves the rest.** With decimal tokens ahead,
it answers the tree of a phrase in front if no operator behind that extends it; it answers only such
trees, and has then taken the longest phrase in front; and if it fails, that is because of a token
that it names, and the tokens from that one on are the ones that it leaves. -/
theorem entry_longest {state : Lookahead φ} {tokens : List Token} (hahead : state.Ahead tokens)
    (hdecimal : ∀ token ∈ tokens, token.Decimal) (level : Level) :
    (∀ w rest tree, tokens = w ++ rest → Phrase level w tree → level.Stops rest →
      ∃ after, entry level state = .ok tree after ∧
        ∀ others, after.Ahead others ↔ others = rest) ∧
    (∀ tree after, entry level state = .ok tree after →
      ∃ w rest, tokens = w ++ rest ∧ Phrase level w tree ∧ level.Stops rest ∧
        (∀ v other, v <+: tokens → Phrase level v other → v <+: w) ∧
        ∀ others, after.Ahead others ↔ others = rest) ∧
    ∀ failure after, entry level state = .error failure after →
      ∃ taken rest expected, tokens = taken ++ rest ∧ Offends level taken rest expected ∧
        failure = .rejected
          (.unexpected (expected.map .category) (rest.head?.map Token.type)) ∧
        ∀ others, after.Ahead others ↔ others = rest := by
  have houtcome := entry_outcome level hahead hdecimal
  refine ⟨fun w rest tree hsplit hphrase hstops ↦ ?_, fun tree after hok ↦ ?_,
    fun failure after herror ↦ ?_⟩
  · subst hsplit
    obtain ⟨after, heq, hafter⟩ := entry_reads hphrase hahead hstops
    exact ⟨after, heq, hafter.iff_eq⟩
  · rw [hok] at houtcome
    obtain @⟨w, rest, _, _, rfl, hphrase, hstops, hafter⟩ := houtcome
    exact ⟨w, rest, rfl, hphrase, hstops,
      fun v other hfront h ↦ hphrase.longest hstops h hfront, hafter.iff_eq⟩
  · rw [herror] at houtcome
    obtain _ | @⟨taken, rest, expected, _, hsplit, hbreaks, hafter⟩ := houtcome
    exact ⟨taken, rest, expected, hsplit, hbreaks.offends, rfl, hafter.iff_eq⟩

/-- A parser in front of the tokens of `2*(03+2)**2`. -/
def productState : Lookahead Empty where
  current := productTokens.head?
  source := some (.ofTokens productTokens.tail)

/-- Of `2*(03+2)**2` the rule for powers takes the factor in front of the `*`. -/
theorem entry_productState :
    productState.Ahead productTokens ∧ (∀ token ∈ productTokens, token.Decimal) ∧
      ∃ after, entry .pow productState = .ok (.int two) after ∧
        ∀ others, after.Ahead others ↔ others = productTokens.tail := by
  have hahead : productState.Ahead productTokens :=
    ⟨_, productTokens.tail, 0, rfl, Source.supplies_ofTokens _, rfl⟩
  have hdecimal : ∀ token ∈ productTokens, token.Decimal := by decide
  have hstops : Level.pow.Stops productTokens.tail :=
    Level.stops_cons (rfl : _ = TokenType.category .times) (by decide)
  exact ⟨hahead, hdecimal, (entry_longest hahead hdecimal .pow).1 [two.token] productTokens.tail
    (.int two) rfl (.factor (.literal two)) hstops⟩

end Parser

end ArithLang
