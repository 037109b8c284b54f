import ArithLang.Proofs.Lexer.Cutting
import ArithLang.Proofs.Queue
import Mathlib.Data.List.Basic

/-!
# A source that fails

A source that fails does so when it is asked for the token behind its last one. A look-ahead asks
for that at the moment in which the last token is taken, and keeps the token if the source fails.
So the failure is told apart from the tokens: all tokens in front of it are handed out as from a
queue, the failure is reported by the first call that needs more than there is, and that call takes
nothing. From then on the source is at its end, and the look-ahead is the queue of the last token.

Which call that is depends on what was pushed back, since a token that is refused may have made the
look-ahead ask for the last one already. But the number of tokens ahead does not depend on it: while
the failure is still to come, no place is empty (`Awaits`), and the source is asked for too much
where one token is ahead and a call goes on to take it.
-/

namespace ArithLang

variable {φ : Type}

namespace Lookahead

/-- The tokens ahead are `tokens`, and behind the last of them the source is going to fail. -/
def Awaits (state : Lookahead φ) (error : φ) (tokens : List Token) : Prop :=
  ∃ source, state.source = some source ∧ source.ending = .failed error ∧
    state.current :: (state.pushed ++ source.upcoming.map some) = tokens.map some

variable {state : Lookahead φ} {error : φ} {token following : Token} {tokens : List Token}
  {call : Call}

theorem draw_of_cons {source : Source φ} (hsource : state.source = some source)
    (hup : source.upcoming = token :: tokens) :
    ∃ after, draw state = .ok (some token) after ∧ after.pushed = state.pushed ∧
      after.source = some { source with upcoming := tokens } := by
  refine ⟨state.drawn token { source with upcoming := tokens }, ?_, ?_, ?_⟩
  · simp only [draw, hsource, hup]
  all_goals
    rw [drawn]
    split <;> rfl

private theorem init_awaits (before : Lookahead φ) {source : Source φ}
    (hending : source.ending = .failed error) (hne : source.upcoming ≠ []) :
    ∃ after, init source before = .ok () after ∧ after.Awaits error source.upcoming := by
  obtain ⟨token, rest, hup⟩ := List.exists_cons_of_ne_nil hne
  have hsource : ({ before with source := some source } : Lookahead φ).source = some source := rfl
  obtain ⟨middle, hdraw, -, hmiddle⟩ := draw_of_cons hsource hup
  refine ⟨{ middle with current := some token, pushed := [] }, ?_, _, hmiddle, hending, ?_⟩
  · simp only [init, hdraw]
  · rw [hup]
    rfl

theorem Awaits.current_eq (h : state.Awaits error tokens) : state.current = tokens.head? := by
  obtain ⟨source, -, -, hrow⟩ := h
  cases tokens with
  | nil => cases hrow
  | cons token tokens => exact (List.cons.inj hrow).1

theorem Awaits.peek_eq (h : state.Awaits error tokens) :
    state.peek = tokens.head?.map Token.type := by
  rw [peek, h.current_eq]

/-! ## Taking the current token -/

theorem Awaits.next_of_following (h : state.Awaits error (token :: following :: tokens)) :
    ∃ after, next state = .ok (some token) after ∧ after.Awaits error (following :: tokens) := by
  have hcurrent : state.current = some token := h.current_eq
  obtain ⟨source, hsource, hending, hrow⟩ := h
  have hbehind : state.pushed ++ source.upcoming.map some = some following :: tokens.map some :=
    (List.cons.inj hrow).2
  cases hpushed : state.pushed with
  | cons place pushed =>
    rw [hpushed] at hbehind
    refine ⟨{ state with current := place, pushed }, ?_, source, hsource, hending, hbehind⟩
    simp only [next, hpushed, hcurrent]
  | nil =>
    rw [hpushed, List.nil_append] at hbehind
    obtain ⟨first, rest, hup, hfirst, hrest⟩ := List.map_eq_cons_iff.mp hbehind
    obtain rfl : first = following := Option.some.inj hfirst
    obtain ⟨middle, hdraw, hkept, hmiddle⟩ := draw_of_cons hsource hup
    refine ⟨{ middle with current := some first }, ?_, _, hmiddle, hending, ?_⟩
    · simp only [next, hpushed, hdraw, hcurrent]
    · rw [hkept, hpushed]
      exact congrArg (some first :: ·) hrest

/-- The last token is not taken: the source is asked for the next one and fails. The token stays,
and then the source is at its end. -/
private theorem Awaits.next_of_last (h : state.Awaits error [token]) :
    ∃ after, next state = .error (.source error) after ∧ after.Ahead [token] := by
  have hcurrent : state.current = some token := h.current_eq
  obtain ⟨source, hsource, hending, hrow⟩ := h
  obtain ⟨hpushed, hmap⟩ := List.append_eq_nil_iff.mp (List.cons.inj hrow).2
  have hup : source.upcoming = [] := List.map_eq_nil_iff.mp hmap
  refine ⟨{ state with source := some { source with upcoming := [], ending := .finished none } },
    ?_, _, [], 0, rfl, ⟨none, rfl, rfl⟩, ?_⟩
  · simp only [next, hpushed, draw, hsource, hup, hending]
  · simp only [hcurrent, hpushed]
    rfl

/-! ## One call -/

/-- A call that puts no token back. -/
def Call.Forward (call : Call) : Prop := ∀ token, call ≠ .backup token

/-- Whether a call goes on to take the current token, whose type is `found`. -/
def Call.advances (found : Option TokenType) : Call → Bool
  | .next => true
  | .consume .nothing => false
  | .consume _ => true
  | .hasConsumed expectation => expectation.metBy found
  | _ => false

/-- A call needs a token from the source, which has none left. -/
def Overdraws (state : Lookahead φ) (call : Call) : Prop :=
  call.advances state.peek = true ∧ state.pushed = [] ∧
    state.source.map Source.upcoming = some []

instance : Decidable (state.Overdraws call) := inferInstanceAs (Decidable (_ ∧ _))

/-- The source is asked for too much when the last of its tokens is the only one ahead. -/
theorem Awaits.overdraws_iff (h : state.Awaits error tokens) :
    state.Overdraws call ↔ call.advances state.peek = true ∧ ∃ last, tokens = [last] := by
  obtain ⟨source, hsource, -, hrow⟩ := h
  refine and_congr_right fun _ ↦ ?_
  rw [hsource, Option.map_some, Option.some_inj]
  constructor
  · rintro ⟨hpushed, hup⟩
    rw [hpushed, hup] at hrow
    obtain ⟨last, rest, rfl, -, hrest⟩ := List.map_eq_cons_iff.mp hrow.symm
    exact ⟨last, by rw [List.map_eq_nil_iff.mp hrest]⟩
  · rintro ⟨last, rfl⟩
    obtain ⟨hpushed, hmap⟩ := List.append_eq_nil_iff.mp (List.cons.inj hrow).2
    exact ⟨hpushed, List.map_eq_nil_iff.mp hmap⟩

/-- A call that takes the current token without asking for too much leaves a token ahead. -/
theorem Awaits.exists_following (h : state.Awaits error tokens) (hquiet : ¬ state.Overdraws call)
    (hadvances : call.advances state.peek = true) :
    ∃ token following rest, tokens = token :: following :: rest := by
  match tokens, h with
  | [], h =>
    obtain ⟨_, _, _, hrow⟩ := h
    cases hrow
  | [last], h => exact absurd (h.overdraws_iff.mpr ⟨hadvances, last, rfl⟩) hquiet
  | token :: following :: rest, _ => exact ⟨token, following, rest, rfl⟩

/-- **A call that asks for too much** reports the failure and leaves the last token. -/
theorem Awaits.serve_of_overdraws (h : state.Awaits error [token])
    (hadvances : call.advances state.peek = true) :
    ∃ after, serve state call = (.error (.source error), after) ∧ after.Ahead [token] := by
  obtain ⟨after, hnext, hafter⟩ := h.next_of_last
  have hconsume : ∀ types, perform (.consume (.oneOf types)) state = .error (.source error) after :=
    fun types ↦ bind_eq_of_error (bind_eq_of_error hnext)
  refine ⟨after, serve_eq_of_error ?_, hafter⟩
  cases call with
  | next => exact bind_eq_of_error hnext
  | consume expectation =>
    cases expectation with
    | nothing => cases hadvances
    | one type => exact hconsume [type]
    | oneOf types => exact hconsume types
  | hasConsumed expectation =>
    have hmet : expectation.metBy state.peek = true := hadvances
    have hequation := hasConsumed_eq expectation state
    rw [if_pos hmet, bind_eq_of_error hnext] at hequation
    exact bind_eq_of_error hequation
  | backup _ | peek | atEnd => cases hadvances

theorem Awaits.serve_consume (h : state.Awaits error (token :: following :: tokens))
    (types : List TokenType) :
    (serve state (.consume (.oneOf types))).1
        = (Queue.take types (token :: following :: tokens)).1 ∧
      (serve state (.consume (.oneOf types))).2.Awaits error
        (Queue.take (φ := φ) types (token :: following :: tokens)).2 := by
  obtain ⟨after, hnext, hafter⟩ := h.next_of_following
  rw [Queue.take]
  split
  · rename_i hmem
    have hconsume : consumeOneOf types state = .ok token after := by
      rw [consumeOneOf, bind_eq_of_ok hnext]
      simp only [hmem, if_true]
      rfl
    have hperform : perform (.consume (.oneOf types)) state = .ok (.token token) after :=
      bind_eq_of_ok hconsume
    rw [serve_eq_of_ok hperform]
    exact ⟨rfl, hafter⟩
  · rename_i hmem
    obtain ⟨source, hsource, hending, hrow⟩ := hafter
    let final : Lookahead φ :=
      { after with current := some token, pushed := after.current :: after.pushed }
    have hconsume : consumeOneOf types state
        = .error (.rejected (.unexpected types (some token.type))) final := by
      rw [consumeOneOf, bind_eq_of_ok hnext]
      simp only [hmem, if_false]
      rfl
    have hperform : perform (.consume (.oneOf types)) state = .error _ final :=
      bind_eq_of_error hconsume
    rw [serve_eq_of_error hperform]
    exact ⟨rfl, source, hsource, hending, congrArg (some token :: ·) hrow⟩

/-- **Any other call** is served as the queue of the tokens ahead serves it, and leaves a queue
behind which the source is going to fail. -/
theorem Awaits.serve (h : state.Awaits error tokens) (hquiet : ¬ state.Overdraws call) :
    (Lookahead.serve state call).1 = (Queue.serve tokens call).1 ∧
      (Lookahead.serve state call).2.Awaits error (Queue.serve (φ := φ) tokens call).2 := by
  cases call with
  | next =>
    obtain ⟨token, following, rest, rfl⟩ := h.exists_following hquiet rfl
    obtain ⟨after, hnext, hafter⟩ := h.next_of_following
    have hperform : perform .next state = .ok (.token token) after := bind_eq_of_ok hnext
    rw [serve_eq_of_ok hperform]
    exact ⟨rfl, hafter⟩
  | backup token =>
    obtain ⟨source, hsource, hending, hrow⟩ := h
    exact ⟨rfl, source, hsource, hending, congrArg (some token :: ·) hrow⟩
  | consume expectation =>
    cases expectation with
    | nothing => exact ⟨rfl, h⟩
    | one type =>
      obtain ⟨token, following, rest, rfl⟩ := h.exists_following hquiet rfl
      exact h.serve_consume [type]
    | oneOf types =>
      obtain ⟨token, following, rest, rfl⟩ := h.exists_following hquiet rfl
      exact h.serve_consume types
  | hasConsumed expectation =>
    have hequation := hasConsumed_eq expectation state
    rw [Queue.serve, ← h.peek_eq]
    split at hequation
    · rename_i hmet
      obtain ⟨token, following, rest, rfl⟩ := h.exists_following hquiet hmet
      obtain ⟨after, hnext, hafter⟩ := h.next_of_following
      rw [bind_eq_of_ok hnext] at hequation
      have hperform : perform (.hasConsumed expectation) state = .ok (.truth true) after :=
        bind_eq_of_ok hequation
      rw [serve_eq_of_ok hperform, if_pos hmet]
      exact ⟨rfl, hafter⟩
    · rename_i hmet
      have hperform : perform (.hasConsumed expectation) state = .ok (.truth false) state :=
        bind_eq_of_ok hequation
      rw [serve_eq_of_ok hperform, if_neg hmet]
      exact ⟨rfl, h⟩
  | peek =>
    have hperform : perform .peek state = .ok (.type state.peek) state := rfl
    rw [serve_eq_of_ok hperform, h.peek_eq]
    exact ⟨rfl, h⟩
  | atEnd =>
    have hperform : perform .atEnd state = .ok (.truth state.atEnd) state := rfl
    rw [serve_eq_of_ok hperform, atEnd, h.peek_eq]
    exact ⟨by cases tokens <;> rfl, h⟩

/-! ## What is handed out and what is reported -/

/-- The token that a call hands out by its reply. A call that tells whether it has taken the current
token hands that one out if it has. -/
def handed (current : Option Token) : Call → Except (Failure φ) Reply → Option Token
  | .next, .ok (.token token) => token
  | .consume _, .ok (.token token) => token
  | .hasConsumed _, .ok (.truth true) => current
  | _, _ => none

/-- The tokens that calls one after the other hand out. -/
def handedOut : Lookahead φ → List Call → List Token
  | _, [] => []
  | state, call :: calls =>
    (handed state.current call (serve state call).1).toList ++ handedOut (serve state call).2 calls

/-- The failure of the source that a reply reports. -/
def sourceFailure? : Except (Failure φ) Reply → Option φ
  | .error (.source error) => some error
  | _ => none

/-- The failures of the source that calls one after the other report. -/
def reported (state : Lookahead φ) (calls : List Call) : List φ :=
  (replies serve state calls).filterMap sourceFailure?

@[simp] private theorem handed_error (current : Option Token) (call : Call) (failure : Failure φ) :
    handed current call (.error failure) = none := by
  cases call <;> rfl

private theorem sourceFailure?_queue (tokens : List Token) (call : Call) :
    sourceFailure? (Queue.serve (φ := φ) tokens call).1 = none := by
  have htake : ∀ types, sourceFailure? (Queue.take (φ := φ) types tokens).1 = none := by
    intro types
    obtain ⟨token, rest, -, -, heq⟩ | ⟨-, heq⟩ := Queue.take_cases (φ := φ) types tokens
    all_goals
      rw [heq]
      rfl
  cases call with
  | consume expectation =>
    cases expectation with
    | nothing => rfl
    | one type => exact htake [type]
    | oneOf types => exact htake types
  | hasConsumed expectation =>
    rw [Queue.serve]
    split <;> rfl
  | next | backup _ | peek | atEnd => rfl

private theorem handed_append_queue (tokens : List Token) (hforward : call.Forward) :
    (handed tokens.head? call (Queue.serve (φ := φ) tokens call).1).toList
      ++ (Queue.serve (φ := φ) tokens call).2 = tokens := by
  have htake : ∀ expectation types,
      (handed tokens.head? (.consume expectation) (Queue.take (φ := φ) types tokens).1).toList
        ++ (Queue.take (φ := φ) types tokens).2 = tokens := by
    intro expectation types
    obtain ⟨token, rest, rfl, -, heq⟩ | ⟨-, heq⟩ := Queue.take_cases (φ := φ) types tokens
    all_goals
      rw [heq]
      rfl
  cases call with
  | next => cases tokens <;> rfl
  | backup token => exact absurd rfl (hforward token)
  | consume expectation =>
    cases expectation with
    | nothing => rfl
    | one type => exact htake _ [type]
    | oneOf types => exact htake _ types
  | hasConsumed expectation =>
    rw [Queue.serve]
    split
    · cases tokens <;> rfl
    · rfl
  | peek | atEnd => rfl

/-! ## Any number of calls -/

section Served

variable {calls : List Call} {left : List Token}
  (hreply : (serve state call).1 = (Queue.serve tokens call).1)
include hreply

/-- A call that is served as by a queue hands out what is missing from the queue behind it. -/
theorem handedOut_cons_append (hcurrent : state.current = tokens.head?)
    (hforward : call.Forward)
    (hleft : handedOut (serve state call).2 calls ++ left = (Queue.serve (φ := φ) tokens call).2) :
    handedOut state (call :: calls) ++ left = tokens := by
  rw [handedOut, List.append_assoc, hleft, hreply, hcurrent, handed_append_queue tokens hforward]

theorem reported_cons : reported state (call :: calls) = reported (serve state call).2 calls := by
  rw [reported, replies, List.filterMap_cons, hreply, sourceFailure?_queue]
  rfl

end Served

theorem Ahead.handedOut_append {calls : List Call} (h : state.Ahead tokens)
    (hforward : ∀ call ∈ calls, call.Forward) :
    ∃ left, handedOut state calls ++ left = tokens ∧ reported state calls = [] := by
  induction calls generalizing state tokens with
  | nil => exact ⟨tokens, rfl, rfl⟩
  | cons call calls ih =>
    rw [List.forall_mem_cons] at hforward
    obtain ⟨hreply, hafter⟩ := h.serve call
    obtain ⟨left, hleft, hreported⟩ := ih hafter hforward.2
    exact ⟨left, handedOut_cons_append hreply h.current_eq hforward.1 hleft,
      (reported_cons hreply).trans hreported⟩

/-- **All calls.** The tokens are handed out in order, and the failure is reported once if at
all. -/
theorem Awaits.handedOut_append {calls : List Call} (h : state.Awaits error tokens)
    (hforward : ∀ call ∈ calls, call.Forward) :
    ∃ left, handedOut state calls ++ left = tokens ∧ reported state calls <+: [error] := by
  induction calls generalizing state tokens with
  | nil => exact ⟨tokens, rfl, List.nil_prefix⟩
  | cons call calls ih =>
    rw [List.forall_mem_cons] at hforward
    by_cases hover : state.Overdraws call
    · obtain ⟨hadvances, last, rfl⟩ := h.overdraws_iff.mp hover
      obtain ⟨after, hserve, hafter⟩ := h.serve_of_overdraws hadvances
      obtain ⟨left, hleft, hreported⟩ := hafter.handedOut_append hforward.2
      refine ⟨left, ?_, ?_⟩
      · rw [handedOut, hserve, handed_error]
        exact hleft
      · have hone : reported state (call :: calls) = [error] := by
          rw [reported, Lookahead.replies, List.filterMap_cons, hserve]
          exact congrArg (error :: ·) hreported
        exact ⟨[], by rw [hone, List.append_nil]⟩
    · obtain ⟨hreply, hafter⟩ := h.serve hover
      obtain ⟨left, hleft, hreported⟩ := ih hafter hforward.2
      exact ⟨left, handedOut_cons_append hreply h.current_eq hforward.1 hleft,
        (reported_cons hreply).symm ▸ hreported⟩

/-- No call asks the source for too much. -/
def Quiet : Lookahead φ → List Call → Prop
  | _, [] => True
  | state, call :: calls => ¬ state.Overdraws call ∧ Quiet (serve state call).2 calls

/-- **Calls before the failure** are served as the queue of the tokens serves them. -/
theorem Awaits.replies {calls : List Call} (h : state.Awaits error tokens)
    (hquiet : state.Quiet calls) :
    Lookahead.replies Lookahead.serve state calls = Lookahead.replies Queue.serve tokens calls ∧
      (stateAfter Lookahead.serve state calls).Awaits error
        (stateAfter (Queue.serve (φ := φ)) tokens calls) := by
  refine replies_eq_of_related _ (Awaits · error ·) Quiet
    (fun state tokens call calls h hquiet ↦ ?_) h hquiet
  obtain ⟨hreply, hafter⟩ := h.serve hquiet.1
  exact ⟨hreply, hafter, hquiet.2⟩

/-- Before the failure, what has not been handed out is what is left of the queue. -/
private theorem Awaits.handedOut_append_queue {calls : List Call} (h : state.Awaits error tokens)
    (hforward : ∀ call ∈ calls, call.Forward) (hquiet : state.Quiet calls) :
    handedOut state calls ++ stateAfter (Queue.serve (φ := φ)) tokens calls = tokens := by
  induction calls generalizing state tokens with
  | nil => rfl
  | cons call calls ih =>
    rw [List.forall_mem_cons] at hforward
    obtain ⟨hreply, hafter⟩ := h.serve hquiet.1
    exact handedOut_cons_append hreply h.current_eq hforward.1 (ih hafter hforward.2 hquiet.2)

/-- **A failure behind the last token loses no token and is reported once.** The parser is given a
stream that hands out some tokens and then fails. Calls that put no token back hand out the tokens
in order. As long as no call needs a token behind the last one, the replies are those of a queue;
the first call that does reports the failure, takes nothing, and leaves the queue of the last token,
which can still be taken. -/
theorem failing_stream_loses_no_token {ε : Type} {session after : Session ε} {id text : String}
    {marker : Option TokenType} {tokens : List Token} {error : Lexer.Error ε}
    (hdrain : (session.start id text marker).drain id = (tokens, .failed error, after))
    (hne : tokens ≠ []) (before : Lookahead (Lexer.Error ε)) :
    ∃ state, init (.ofRun (session.lexer.run marker text.toList)) before = .ok () state ∧
      (∀ calls, (∀ call ∈ calls, call.Forward) →
        handedOut state calls <+: tokens ∧ reported state calls <+: [error]) ∧
      (∀ calls, state.Quiet calls → replies serve state calls = replies Queue.serve tokens calls) ∧
      ∀ front call, (∀ call ∈ front, call.Forward) → state.Quiet front →
        (stateAfter serve state front).Overdraws call →
        ∃ last final, tokens = handedOut state front ++ [last] ∧
          (stateAfter serve state front).current = some last ∧
          serve (stateAfter serve state front) call = (.error (.source error), final) ∧
          final.current = some last ∧
          (∀ later, replies serve final later = replies Queue.serve [last] later) ∧
          replies serve final [.consume (.one last.type), .atEnd]
            = [.ok (.token (some last)), .ok (.truth true)] := by
  have hrun := Session.run_eq_of_drain_start hdrain
  rw [hrun]
  have hsource : (Source.ofRun ⟨tokens, .failed error⟩).ending = .failed error := rfl
  obtain ⟨state, hinit, hstate⟩ := init_awaits before hsource hne
  refine ⟨state, hinit, fun calls hforward ↦ ?_, fun calls hquiet ↦ (hstate.replies hquiet).1, ?_⟩
  · obtain ⟨left, hleft, hreported⟩ := hstate.handedOut_append hforward
    exact ⟨⟨left, hleft⟩, hreported⟩
  · intro front call hforward hquiet hover
    have hfront := (hstate.replies hquiet).2
    have hhanded := hstate.handedOut_append_queue hforward hquiet
    obtain ⟨hadvances, last, hlast⟩ := hfront.overdraws_iff.mp hover
    rw [hlast] at hfront hhanded
    obtain ⟨final, hserve, hfinal⟩ := hfront.serve_of_overdraws hadvances
    refine ⟨last, final, hhanded.symm, hfront.current_eq, hserve, hfinal.current_eq,
      fun later ↦ (hfinal.replies later).1, ?_⟩
    rw [(hfinal.replies _).1]
    simp [Lookahead.replies, Queue.serve, Queue.take]

/-- A refusal at the first of two tokens, which is then taken. -/
def refusing : List Call := [.consume (.one (.named "WORD")), .next]

/-- The stream over `ab ?` fails behind two tokens. The refusal of the first one has drawn the
second one already, so that it is the next refusal that finds the failure. -/
theorem failing_stream_loses_no_token_shadowing :
    (∃ after, (({ lexer := Session.shadowing } : Session Empty).start "a" "ab ?" none).drain "a"
      = ([⟨.named "A", .text "a"⟩, ⟨.named "WORD", .text "b"⟩], .failed (.unexpected '?'), after)) ∧
    ∃ state, init (.ofRun (Session.shadowing.run none "ab ?".toList)) {} = .ok () state ∧
      replies serve state refusing
        = [.error (.rejected (.unexpected [.named "WORD"] (some (.named "A")))),
          .ok (.token (some ⟨.named "A", .text "a"⟩))] ∧
      ∃ final, serve (stateAfter serve state refusing) (.consume (.one (.named "A")))
          = (.error (.source (.unexpected '?')), final) ∧
        replies serve final [.next, .atEnd]
          = [.ok (.token (some ⟨.named "WORD", .text "b"⟩)), .ok (.truth true)] := by
  have hmade : List.Forall₂ (Portion.Makes (ε := Empty))
      [⟨⟨"A", .literal ['a'], some .emit⟩, ['a']⟩, ⟨⟨"WORD", .lowerCase, some .emit⟩, ['b']⟩,
        ⟨⟨"SKIP", .literal [' '], none⟩, [' ']⟩]
      [some ⟨.named "A", .text "a"⟩, some ⟨.named "WORD", .text "b"⟩, none] :=
    .cons rfl (.cons rfl (.cons rfl .nil))
  have hrun : Session.shadowing.run none "ab ?".toList
      = ⟨[⟨.named "A", .text "a"⟩, ⟨.named "WORD", .text "b"⟩], .failed (.unexpected '?')⟩ :=
    Session.cutting_shadowing.run_of_made Session.advances_shadowing (List.cons_ne_nil _ _) none
      hmade
  have hdrain : ∃ after, (({ lexer := Session.shadowing } : Session Empty).start "a" "ab ?"
      none).drain "a" = (_, .failed (.unexpected '?'), after) := Session.drain_start_of_failed hrun
  obtain ⟨after, hdrain⟩ := hdrain
  obtain ⟨state, hinit, -, hreplies, hover⟩ :=
    failing_stream_loses_no_token hdrain (List.cons_ne_nil _ _) {}
  have hstart : ∃ start : Lookahead (Lexer.Error Empty),
      init (.ofRun (Session.shadowing.run none "ab ?".toList)) {} = .ok () start ∧
        start.Quiet refusing ∧
        (stateAfter serve start refusing).Overdraws (.consume (.one (.named "A"))) := by
    rw [hrun]
    exact ⟨_, rfl, ⟨by decide, by decide, trivial⟩, by decide⟩
  obtain ⟨start, hstart, hquiet, hoverdraws⟩ := hstart
  obtain ⟨-, rfl⟩ := EStateM.Result.ok.inj (hstart.symm.trans hinit)
  have hforward : ∀ call ∈ refusing, call.Forward := by
    simp [refusing, Call.Forward]
  obtain ⟨last, final, htokens, -, hserve, -, hlater, -⟩ :=
    hover refusing _ hforward hquiet hoverdraws
  obtain rfl : ⟨.named "WORD", .text "b"⟩ = last :=
    Option.some.inj (congrArg List.getLast? htokens |>.trans List.getLast?_concat)
  exact ⟨⟨after, hdrain⟩, start, hinit, hreplies _ hquiet, final, hserve, hlater _⟩

end Lookahead

end ArithLang
