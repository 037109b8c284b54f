import ArithLang.Proofs.Expression
import ArithLang.Proofs.Grammar.Expression
import Mathlib.Data.List.Basic

/-!
# The first wrong token

A text that is not an expression is rejected at its first wrong token: what stands in front of that
token can be completed to a sentence, and with the token it cannot. The categories that are named as
expected are right ones, though not always all of them: behind a literal an operator would do as
well, but only what the innermost rule needs next is named.

## Why the rejection is not late

`Breaks` relates a row to the place where it breaks off, by the rules of the grammar. A row that
breaks off is rejected by the parser whatever stands behind the token that breaks it
(`rejects_of_breaks`), and a sentence is not rejected, so no sentence starts with that token at that
place. This is the only use of the parser; it spares us an analysis of how one row could be divided
into phrases in two ways.

## Why the rejection is not early

Each constructor of `Breaks` leaves a phrase that is begun, and that can be brought to its end from
every category that is expected (`Breaks.completes`).
-/

namespace ArithLang

/-! ## A row that breaks off is rejected -/

namespace Parser

variable {φ : Type} {found : Option Token} {level lower : Level} {operator : Operator}
  {w taken : List Token} {token opening : Token} {tree : Node} {expected : List Category}

/-- With steps enough, the rule of a level rejects `taken` in front of `found`. -/
def Rejects (φ : Type) (found : Option Token) (level : Level) (taken : List Token)
    (expected : List Category) : Prop :=
  ∀ (steps : ℕ) (rest : List Token) (state : Lookahead φ), rest.head? = found →
    state.Ahead (taken ++ rest) → 4 * (taken ++ rest).length + margin level ≤ steps →
      ∃ after, rule level steps state = .error
          (.rejected (.unexpected (expected.map .category) (found.map Token.type))) after ∧
        after.Ahead rest

private theorem rejects_factor (hint : ∀ token ∈ found, token.type ≠ .category .int)
    (hopening : ∀ token ∈ found, token.type ≠ .category .openPar) :
    Rejects φ found .fact [] [.int, .openPar] := by
  intro steps rest state hfound hahead hsteps
  subst hfound
  simp only [margin] at hsteps
  obtain ⟨steps, rfl⟩ : ∃ n, steps = n + 1 := ⟨steps - 1, by omega⟩
  exact factFrom_eq_error hahead hint hopening steps

private theorem rejects_inside (hopening : opening.type = .category .openPar)
    (h : Rejects φ found .exp taken expected) :
    Rejects φ found .fact (opening :: taken) expected := by
  intro steps rest state hfound hahead hsteps
  rw [List.cons_append] at hahead hsteps
  obtain ⟨fewer, next, hfewer, hnext, heq⟩ := fact_eq_of_opening hopening hahead hsteps
  obtain ⟨after, hexp, hafter⟩ := h fewer rest next hfound hnext hfewer
  exact ⟨after, heq.trans (bind_eq_of_error hexp), hafter⟩

private theorem rejects_unclosed (hopening : opening.type = .category .openPar)
    (h : Phrase .exp w tree)
    (hstops : ∀ token ∈ found, ∀ category ∈ Level.exp.extending, token.type ≠ .category category)
    (hclosing : ∀ token ∈ found, token.type ≠ .category .closePar) :
    Rejects φ found .fact (opening :: w) [.closePar] := by
  intro steps rest state hfound hahead hsteps
  subst hfound
  rw [List.cons_append] at hahead hsteps
  obtain ⟨fewer, next, hfewer, hnext, heq⟩ := fact_eq_of_opening hopening hahead hsteps
  obtain ⟨after, hexp, hafter⟩ := reads_of_phrase h fewer rest next hnext hstops hfewer
  obtain ⟨final, htake, hfinal⟩ := take_eq_error hafter hclosing
  refine ⟨final, ?_, hfinal⟩
  rw [heq, bind_eq_of_ok hexp, bind_eq_of_error htake]

private theorem rejects_base (h : Rejects φ found .fact taken expected) :
    Rejects φ found .pow taken expected := by
  intro steps rest state hfound hahead hsteps
  simp only [margin] at hsteps
  obtain ⟨steps, rfl⟩ : ∃ n, steps = n + 1 := ⟨steps - 1, by omega⟩
  obtain ⟨after, hfact, hafter⟩ := h steps rest state hfound hahead (by simp only [margin]; omega)
  refine ⟨after, ?_, hafter⟩
  change powFrom (steps + 1) state = _
  rw [powFrom]
  exact bind_eq_of_error hfact

private theorem rejects_exponent (hbase : Phrase .fact w tree) (htype : token.type = .category .pow)
    (h : Rejects φ found .pow taken expected) :
    Rejects φ found .pow (w ++ token :: taken) expected := by
  intro steps rest state hfound hahead hsteps
  rw [List.append_assoc, List.cons_append] at hahead hsteps
  obtain ⟨fewer, next, hfewer, hnext, heq⟩ :=
    pow_eq_of_operator (reads_of_phrase hbase) htype hahead hsteps
  obtain ⟨after, hpow, hafter⟩ := h fewer rest next hfound hnext hfewer
  exact ⟨after, heq.trans (bind_eq_of_error hpow), hafter⟩

private theorem rejects_first (hrepeats : Repeats φ level lower operator)
    (h : Rejects φ found lower taken expected) : Rejects φ found level taken expected := by
  intro steps rest state hfound hahead hsteps
  rw [hrepeats.margin_eq] at hsteps
  obtain ⟨steps, rfl⟩ : ∃ n, steps = n + 1 := ⟨steps - 1, by omega⟩
  obtain ⟨after, hlower, hafter⟩ := h steps rest state hfound hahead (by omega)
  exact ⟨after, by rw [hrepeats.rule_eq, bind_eq_of_error hlower], hafter⟩

private theorem rejects_further (hrepeats : Repeats φ level lower operator)
    (hleft : Reaches φ level lower operator w tree)
    (htype : token.type = .category operator.category) (h : Rejects φ found lower taken expected) :
    Rejects φ found level (w ++ token :: taken) expected := by
  intro steps rest state hfound hahead hsteps
  rw [List.append_assoc, List.cons_append] at hahead hsteps
  obtain ⟨fewer, next, hfewer, hnext, heq⟩ :=
    rule_eq_of_operator hrepeats hleft htype hahead hsteps
  have hmargin := hrepeats.margin_le
  obtain ⟨after, hlower, hafter⟩ := h fewer rest next hfound hnext (by omega)
  exact ⟨after, heq.trans (bind_eq_of_error hlower), hafter⟩

/-- **A row that breaks off is rejected**, whatever stands behind the token that breaks it. -/
theorem rejects_of_breaks (h : Breaks found level taken expected) :
    Rejects φ found level taken expected := by
  induction h with
  | factor hint hopening => exact rejects_factor hint hopening
  | inside hopening _ ih => exact rejects_inside hopening ih
  | unclosed hopening hphrase hstops hclosing =>
    exact rejects_unclosed hopening hphrase hstops hclosing
  | base _ ih => exact rejects_base ih
  | exponent hbase htype _ ih => exact rejects_exponent hbase htype ih
  | single _ ih => exact rejects_first repeats_term ih
  | product hleft htype _ ih => exact rejects_further repeats_term (parses_of_phrase hleft) htype ih
  | summand _ ih => exact rejects_first repeats_exp ih
  | sum hleft htype _ ih => exact rejects_further repeats_exp (parses_of_phrase hleft) htype ih

theorem entry_rejects {state : Lookahead φ} {rest : List Token}
    (hbreaks : Breaks rest.head? level taken expected) (h : state.Ahead (taken ++ rest)) :
    ∃ after, entry level state = .error
        (.rejected (.unexpected (expected.map .category) (rest.head?.map Token.type))) after ∧
      after.Ahead rest := by
  rw [entry_eq]
  exact rejects_of_breaks hbreaks _ rest state rfl h (steps_le_reach level h)

theorem parseFrom_eq_error {source : Source φ} {rest : List Token}
    (hsource : source.Supplies (taken ++ rest)) (h : Sentence.Breaks rest.head? taken expected)
    (before : Lookahead φ) :
    ∃ after, parseFrom source before = .error
        (.rejected (.unexpected (expected.map .category) (rest.head?.map Token.type))) after ∧
      after.Ahead rest := by
  obtain ⟨state, hstate, heq⟩ := parseFrom_eq hsource before
  rw [heq]
  cases h with
  | body h =>
    obtain ⟨after, hexp, hafter⟩ := entry_rejects h hstate
    exact ⟨after, bind_eq_of_error hexp, hafter⟩
  | unmarked hphrase hstops hmarker =>
    obtain ⟨middle, hexp, hmiddle⟩ := entry_reads hphrase hstate hstops
    obtain ⟨after, htake, hafter⟩ := take_eq_error hmiddle hmarker
    exact ⟨after, by rw [bind_eq_of_ok hexp, bind_eq_of_error htake], hafter⟩

private theorem not_sentence_of_breaks {rest : List Token}
    (h : Sentence.Breaks rest.head? taken expected) :
    ¬ ∃ tree, Sentence (taken ++ rest) tree := by
  rintro ⟨tree, w, marker, behind, hsplit, hmarker, hphrase⟩
  have hsource : (Source.ofTokens (taken ++ rest) : Source Empty).Supplies (taken ++ rest) :=
    Source.supplies_ofTokens _
  obtain ⟨_, herror, -⟩ := parseFrom_eq_error hsource h {}
  rw [hsplit] at hsource herror
  obtain ⟨_, hok, -⟩ := parseFrom_eq_ok hsource hmarker hphrase {}
  cases herror.symm.trans hok

end Parser

/-! ## A row that is begun can be completed -/

namespace Category

/-- A token of a category, with a text that does for all of them. -/
def sample (category : Category) : Token := .ofCategory category "0"

private theorem decimal_sample (category : Category) : category.sample.Decimal :=
  fun _ ↦ ⟨⟨"0", by decide, by decide⟩, rfl⟩

private theorem phrase_sample : ∃ tree, Phrase .fact [int.sample] tree :=
  ⟨_, .literal ⟨"0", by decide, by decide⟩⟩

private theorem types_sample (categories : List Category) :
    (categories.map sample).map Token.type = categories.map .category := by
  rw [List.map_map]
  rfl

end Category

theorem Phrase.not_eof {level : Level} {w : List Token} {tree : Node} (h : Phrase level w tree) :
    ∀ token ∈ w, token.type ≠ .category .eof := by
  have hother : ∀ {token : Token} {category : Category}, token.type = .category category →
      category ≠ .eof → token.type ≠ .category .eof := by
    intro token category htype hne heof
    exact hne (TokenType.category.inj (htype.symm.trans heof))
  induction h with
  | literal literal => exact List.forall_mem_singleton.mpr (hother rfl (by decide))
  | parenthesised hopening hclosing _ ih =>
    rw [List.forall_mem_cons, List.forall_mem_append, List.forall_mem_singleton]
    exact ⟨hother hopening (by decide), ih, hother hclosing (by decide)⟩
  | factor _ ih => exact ih
  | power _ htype _ ihbase ihexponent =>
    rw [List.forall_mem_append, List.forall_mem_cons]
    exact ⟨ihbase, hother htype (by decide), ihexponent⟩
  | single _ ih => exact ih
  | product _ htype _ ihleft ihright =>
    rw [List.forall_mem_append, List.forall_mem_cons]
    exact ⟨ihleft, hother htype (by decide), ihright⟩
  | summand _ ih => exact ih
  | sum _ htype _ ihleft ihright =>
    rw [List.forall_mem_append, List.forall_mem_cons]
    exact ⟨ihleft, hother htype (by decide), ihright⟩

/-- Behind `taken`, a token of the category can be followed up to the end of a phrase. -/
def Completes (level : Level) (taken : List Token) (category : Category) : Prop :=
  ∃ (rest : List Category) (tree : Node),
    Phrase level (taken ++ (category :: rest).map Category.sample) tree

section Completion

variable {found : Option Token} {level lower : Level} {w taken : List Token} {token : Token}
  {expected : List Category} {category : Category}

theorem Completes.lift (h : Completes lower taken category)
    (hlift : ∀ {w : List Token} {tree : Node}, Phrase lower w tree → Phrase level w tree) :
    Completes level taken category := by
  obtain ⟨rest, tree, hphrase⟩ := h
  exact ⟨rest, tree, hlift hphrase⟩

/-- The last operand of a phrase may be the one that is completed. -/
theorem Completes.behind (h : Completes lower taken category)
    (hbehind : ∀ {v : List Token} {right : Node}, Phrase lower v right →
      ∃ tree, Phrase level (w ++ token :: v) tree) :
    Completes level (w ++ token :: taken) category := by
  obtain ⟨rest, right, hphrase⟩ := h
  obtain ⟨tree, hwhole⟩ := hbehind hphrase
  refine ⟨rest, tree, ?_⟩
  rwa [List.append_assoc, List.cons_append]

theorem Completes.inside {opening : Token} (hopening : opening.type = .category .openPar)
    (h : Completes .exp taken category) : Completes .fact (opening :: taken) category := by
  obtain ⟨rest, tree, hphrase⟩ := h
  have hclosing : Category.closePar.sample.type = .category .closePar := rfl
  refine ⟨rest ++ [.closePar], tree, ?_⟩
  have hwhole := Phrase.parenthesised hopening hclosing hphrase
  rwa [List.append_assoc, ← List.map_singleton, ← List.map_append] at hwhole

/-- **A phrase that breaks off can be completed** from every category that is expected. -/
theorem Breaks.completes (h : Breaks found level taken expected) (hmem : category ∈ expected) :
    Completes level taken category := by
  induction h with
  | factor =>
    obtain ⟨tree, hint⟩ := Category.phrase_sample
    rcases List.mem_cons.mp hmem with rfl | hmem
    · exact ⟨[], tree, hint⟩
    · obtain rfl := List.mem_singleton.mp hmem
      exact ⟨[.int, .closePar], tree, .parenthesised rfl rfl (.summand (.single (.factor hint)))⟩
  | inside hopening _ ih => exact (ih hmem).inside hopening
  | unclosed hopening hphrase =>
    obtain rfl := List.mem_singleton.mp hmem
    exact ⟨[], _, .parenthesised hopening rfl hphrase⟩
  | base _ ih => exact (ih hmem).lift .factor
  | exponent hbase htype _ ih => exact (ih hmem).behind fun hright ↦ ⟨_, .power hbase htype hright⟩
  | single _ ih => exact (ih hmem).lift .single
  | product hleft htype _ ih =>
    exact (ih hmem).behind fun hright ↦ ⟨_, .product hleft htype hright⟩
  | summand _ ih => exact (ih hmem).lift .summand
  | sum hleft htype _ ih => exact (ih hmem).behind fun hright ↦ ⟨_, .sum hleft htype hright⟩

theorem Breaks.expected_ne_nil (h : Breaks found level taken expected) : expected ≠ [] := by
  induction h with
  | factor => exact List.cons_ne_nil _ _
  | unclosed => exact List.cons_ne_nil _ _
  | inside _ _ ih => exact ih
  | base _ ih => exact ih
  | exponent _ _ _ ih => exact ih
  | single _ ih => exact ih
  | product _ _ _ ih => exact ih
  | summand _ ih => exact ih
  | sum _ _ _ ih => exact ih

theorem Sentence.Breaks.expected_ne_nil (h : Sentence.Breaks found taken expected) :
    expected ≠ [] := by
  cases h with
  | body h => exact h.expected_ne_nil
  | unmarked => exact List.cons_ne_nil _ _

/-- An expression that breaks off can be completed from every category that is expected, up to the
marker of its end. -/
theorem Sentence.Breaks.completes (h : Sentence.Breaks found taken expected)
    (hmem : category ∈ expected) :
    ∃ (rest : List Category) (w : List Token) (marker : Token) (tree : Node),
      taken ++ (category :: rest).map Category.sample = w ++ [marker] ∧
        marker.type = .category .eof ∧ Phrase .exp w tree := by
  cases h with
  | body h =>
    obtain ⟨rest, tree, hphrase⟩ := h.completes hmem
    refine ⟨rest ++ [.eof], _, Category.eof.sample, tree, ?_, rfl, hphrase⟩
    rw [← List.cons_append, List.map_append, List.append_assoc]
    rfl
  | unmarked hphrase =>
    obtain rfl := List.mem_singleton.mp hmem
    exact ⟨[], taken, _, _, rfl, rfl, hphrase⟩

theorem Sentence.Breaks.not_eof (h : Sentence.Breaks found taken expected) :
    ∀ token ∈ taken, token.type ≠ .category .eof := by
  obtain ⟨category, hmem⟩ := List.exists_mem_of_ne_nil expected h.expected_ne_nil
  obtain ⟨rest, w, marker, tree, hsplit, -, hphrase⟩ := h.completes hmem
  -- the completion ends with the marker, so what is taken is in the phrase in front of it
  have hfront : taken <+: w := by
    refine List.prefix_of_prefix_length_le (List.prefix_append taken _)
      (hsplit ▸ List.prefix_append w [marker]) ?_
    have hlength := congrArg List.length hsplit
    simp only [List.length_append, List.length_map, List.length_cons, List.length_nil] at hlength
    omega
  intro token htoken
  exact hphrase.not_eof token (hfront.subset htoken)

end Completion

/-! ## The grammar's view -/

namespace Grammar

/-- The categories are the first ones of some sentence of the grammar. -/
def Viable (categories : List Category) : Prop :=
  ∃ rest : List Category, expression.Generates ((categories ++ rest).map Category.name)

private theorem Viable.of_append {front back : List Category} (h : Viable (front ++ back)) :
    Viable front := by
  obtain ⟨rest, hgenerates⟩ := h
  exact ⟨back ++ rest, by rwa [← List.append_assoc]⟩

private theorem names_eq_of_types {tokens : List Token} {categories : List Category}
    (htypes : tokens.map Token.type = categories.map .category) :
    names tokens = categories.map Category.name := by
  have h := congrArg (List.map TokenType.name) htypes
  rwa [List.map_map, List.map_map] at h

section Breaks

variable {taken : List Token} {front expected : List Category}

/-- What is taken before a sentence breaks off is viable, with any of the categories expected. -/
theorem viable_of_breaks {found : Option Token} (h : Sentence.Breaks found taken expected)
    (htypes : taken.map Token.type = front.map .category) {category : Category}
    (hmem : category ∈ expected) : Viable (front ++ [category]) := by
  obtain ⟨rest, w, marker, tree, hsplit, hmarker, hphrase⟩ := h.completes hmem
  refine ⟨rest, ?_⟩
  have htypes' : (taken ++ (category :: rest).map Category.sample).map Token.type
      = (front ++ [category] ++ rest).map .category := by
    rw [List.map_append, htypes, Category.types_sample, ← List.map_append, List.append_assoc,
      List.singleton_append]
  rw [← names_eq_of_types htypes', hsplit]
  exact generates_of_phrase hphrase hmarker

private theorem not_viable_of_breaks {token : Token}
    (h : Sentence.Breaks (some token) taken expected)
    (htypes : (taken ++ [token]).map Token.type = front.map .category)
    (hdecimal : ∀ other ∈ taken ++ [token], other.Decimal) : ¬ Viable front := by
  rintro ⟨rest, hgenerates⟩
  have htypes' : (taken ++ [token] ++ rest.map Category.sample).map Token.type
      = (front ++ rest).map .category := by
    rw [List.map_append, htypes, Category.types_sample, ← List.map_append]
  have hdecimal' : ∀ other ∈ taken ++ [token] ++ rest.map Category.sample, other.Decimal := by
    rw [List.forall_mem_append, List.forall_mem_map]
    exact ⟨hdecimal, fun category _ ↦ category.decimal_sample⟩
  obtain ⟨w, marker, tree, hsplit, hmarker, hphrase⟩ :=
    phrase_of_generates htypes' hdecimal' hgenerates
  rw [List.append_assoc, List.singleton_append] at hsplit
  have hfound : (token :: rest.map Category.sample).head? = some token := rfl
  rw [← hfound] at h
  exact Parser.not_sentence_of_breaks h ⟨tree, w, marker, [], hsplit, hmarker, hphrase⟩

end Breaks

/-- Place `k` is the first at which the categories are no longer those of a sentence: `found` stands
there, where any of the categories `expected` would have done. -/
structure WrongAt (categories : List Category) (k : ℕ) (found : Category)
    (expected : List Category) : Prop where
  /-- The wrong category stands at place `k`. -/
  found_eq : categories[k]? = some found
  /-- What stands in front of it can be completed. -/
  viable : Viable (categories.take k)
  /-- With it, nothing can complete what is there. -/
  not_viable : ¬ Viable (categories.take (k + 1))
  /-- There is something else that could stand at its place. -/
  expected_ne_nil : expected ≠ []
  /-- All that is expected could. -/
  expected_viable : ∀ category ∈ expected, Viable (categories.take k ++ [category])

private theorem wrongAt_of_breaks {categories : List Category} {taken rest : List Token}
    {token : Token}
    {expected : List Category} (h : Sentence.Breaks (some token) taken expected)
    (htypes : (taken ++ token :: rest).map Token.type = categories.map .category)
    (hdecimal : ∀ other ∈ taken ++ token :: rest, other.Decimal) :
    ∃ found, token.type = .category found ∧ WrongAt categories taken.length found expected := by
  -- the categories come apart where the tokens do
  rw [List.map_append, List.map_cons] at htypes
  obtain ⟨front, behind, rfl, hfront, hbehind⟩ := List.map_eq_append_iff.mp htypes.symm
  obtain ⟨found, back, rfl, hfound, -⟩ := List.map_eq_cons_iff.mp hbehind
  have hlength : front.length = taken.length := by
    simpa using congrArg List.length hfront
  obtain ⟨category, hmem⟩ := List.exists_mem_of_ne_nil expected h.expected_ne_nil
  refine ⟨found, hfound.symm, ?_, ?_, ?_, h.expected_ne_nil, ?_⟩
  · rw [← hlength, List.getElem?_append_right (Nat.le_refl _), Nat.sub_self]
    rfl
  · rw [← hlength, List.take_left]
    exact (viable_of_breaks h hfront.symm hmem).of_append
  · have htake : (front ++ found :: back).take (taken.length + 1) = front ++ [found] := by
      rw [← hlength, List.take_length_add_append, List.take_succ_cons, List.take_zero]
    rw [htake]
    refine not_viable_of_breaks h ?_ fun other hother ↦ hdecimal other ?_
    · rw [List.map_append, List.map_append, hfront, List.map_singleton, List.map_singleton, hfound]
    · rw [List.append_cons]
      exact List.mem_append_left rest hother
  · intro category hmem
    rw [← hlength, List.take_left]
    exact viable_of_breaks h hfront.symm hmem

end Grammar

/-! ## Rejected texts -/

namespace Expression

variable {text : String} {log after : List Log.Entry} {reason : ParseError}

theorem parseText_eq (text : String) (log : List Log.Entry) :
    parseText text log
      = match Parser.parseFrom (Parser.source text) { log := .source text :: log } with
        | .ok tree state => .ok tree state.log
        | .error failure state => .error (.parsing failure) state.log :=
  rfl

/-- **A text is rejected at its first wrong token.** That token is the current one of the parser
when it gives up, and the message names it, along with categories that would have done in its
place. -/
theorem parse_rejected_at_first_wrong
    (h : parse (.text text) log = .error (.parsing (.rejected reason)) after) :
    ∃ (categories expected : List Category) (k : ℕ) (found : Category)
      (state : Lookahead (Lexer.Error Empty)),
      (Scanner.tokens text).map Token.type = categories.map .category ∧
        Grammar.WrongAt categories k found expected ∧
        Parser.parseFrom (Parser.source text) { log := .source text :: log }
          = .error (.rejected reason) state ∧
        state.log = after ∧ state.current = (Scanner.tokens text)[k]? ∧
        reason = .unexpected (expected.map .category) (some (.category found)) ∧
        reason.message = "Expected " ++ ParseError.alternatives (expected.map Category.name)
          ++ ", got \"" ++ found.name ++ "\"" := by
  change parseText text log = _ at h
  rw [parseText_eq] at h
  have hdecimal : ∀ token ∈ Scanner.tokens text, token.Decimal :=
    fun token htoken ↦ Scanner.decimal_of_mem_tokens htoken
  obtain ⟨_, _, _, _, state, -, -, -, hok, -⟩ |
      ⟨taken, rest, expected, state, hsplit, hbreaks, herror, hahead⟩ :=
    Parser.parseFrom_outcome (Scanner.supplies_source text) hdecimal { log := .source text :: log }
  · rw [hok] at h
    cases h
  · rw [herror] at h
    cases h
    obtain ⟨front, -, htypes⟩ := Scanner.exists_categories text
    cases rest with
    | nil =>
      rw [List.append_nil] at hsplit
      have hmarker : Token.marker Scanner.marker ∈ taken := by
        rw [← hsplit, Scanner.tokens_eq]
        exact List.mem_append_right _ List.mem_cons_self
      exact absurd rfl (hbreaks.not_eof _ hmarker)
    | cons token rest =>
      rw [hsplit] at htypes hdecimal
      obtain ⟨found, hfound, hwrong⟩ := Grammar.wrongAt_of_breaks hbreaks htypes hdecimal
      have hcurrent : state.current = (Scanner.tokens text)[taken.length]? := by
        rw [hahead.current_eq, hsplit, List.getElem?_append_right (Nat.le_refl _), Nat.sub_self]
        rfl
      refine ⟨front ++ [.eof], expected, taken.length, found, state, hsplit ▸ htypes, hwrong,
        herror, rfl, hcurrent, ?_, ?_⟩
      · rw [List.head?_cons, Option.map_some, hfound]
      · rw [List.head?_cons, Option.map_some, hfound, ParseError.message, List.map_map]
        rfl

/-- The reason for which a text has been rejected. -/
def rejection? : EStateM.Result Failure (List Log.Entry) Node → Option ParseError
  | .error (.parsing (.rejected reason)) _ => some reason
  | _ => none

private theorem eq_error_of_rejection? {result : EStateM.Result Failure (List Log.Entry) Node}
    (h : rejection? result = some reason) :
    ∃ after, result = .error (.parsing (.rejected reason)) after := by
  match result, h with
  | .error (.parsing (.rejected _)) after, rfl => exact ⟨after, rfl⟩

/-- In `(1+)*2` the closing parenthesis is the first wrong token. -/
theorem parse_unfinishedSum :
    ∃ reason after, parse (.text "(1+)*2") [] = .error (.parsing (.rejected reason)) after ∧
      ∃ (categories expected : List Category) (k : ℕ) (found : Category)
        (state : Lookahead (Lexer.Error Empty)),
        (Scanner.tokens "(1+)*2").map Token.type = categories.map .category ∧
          Grammar.WrongAt categories k found expected ∧
          Parser.parseFrom (Parser.source "(1+)*2") { log := [.source "(1+)*2"] }
            = .error (.rejected reason) state ∧
          state.log = after ∧ state.current = (Scanner.tokens "(1+)*2")[k]? ∧
          reason = .unexpected (expected.map .category) (some (.category found)) ∧
          reason.message = "Expected " ++ ParseError.alternatives (expected.map Category.name)
            ++ ", got \"" ++ found.name ++ "\"" := by
  have hreason : rejection? (parse (.text "(1+)*2") []) = some
      (.unexpected [.category .int, .category .openPar] (some (.category .closePar))) := by
    decide +kernel
  obtain ⟨after, h⟩ := eq_error_of_rejection? hreason
  exact ⟨_, after, h, parse_rejected_at_first_wrong h⟩

end Expression

end ArithLang
