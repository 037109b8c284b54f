import ArithLang.Proofs.Lookahead
import Mathlib.Data.List.Basic

/-!
# A look-ahead is a queue that takes tokens back

Whoever works with a look-ahead sees its replies and its errors, and nothing of the three places in
which it keeps its tokens. A plain list of tokens, from which the head is taken and in front of
which a token may be put back, gives the same replies and the same errors to every row of calls
(`replies_eq_queue`).

## Refusals

A queue that is asked for a head of some types, and has none, stays as it was. A look-ahead in the
same position first takes its token, for which it draws the following one from the source, and then
pushes it back. Its state is a different one then, but the tokens ahead are the same, and all that
is asked later on depends on these alone.
-/

namespace ArithLang

/-- Whether the type of the current token, or the end of the input, is the one that is expected.
Several types are never met, as no token has more than one. -/
def Expectation.metBy (found : Option TokenType) : Expectation → Bool
  | .nothing => found = none
  | .one type => found = some type
  | .oneOf _ => false

namespace Lookahead

variable {φ : Type}

/-! ## Calls and replies -/

/-- A call of one of the operations of a look-ahead. -/
inductive Call where
  /-- Takes the current token. -/
  | next
  /-- Puts a token back. -/
  | backup (token : Token)
  /-- Takes the current token, which has to be as expected. -/
  | consume (expectation : Expectation)
  /-- Takes the current token if it is as expected, and tells whether it was. -/
  | hasConsumed (expectation : Expectation)
  /-- Shows the type of the current token. -/
  | peek
  /-- Tells whether the input is at its end. -/
  | atEnd
deriving DecidableEq, Repr

/-- What comes of a call that does not fail. -/
inductive Reply where
  /-- Nothing but a change of the state. -/
  | done
  /-- A token, `none` at the end of the input. -/
  | token (token : Option Token)
  /-- The type of a token, `none` at the end of the input. -/
  | type (type : Option TokenType)
  /-- A yes or a no. -/
  | truth (value : Bool)
deriving DecidableEq, Repr

/-- Carries out a call. -/
def perform : Call → Reading φ Reply
  | .next => return .token (← next)
  | .backup token => do
    backup (some token)
    return .done
  | .consume expectation => return .token (some (← consume expectation))
  | .hasConsumed expectation => return .truth (← hasConsumed expectation)
  | .peek => return .type (← get).peek
  | .atEnd => return .truth (← get).atEnd

/-- What a look-ahead makes of a call: the reply, or why there is none, and the state after it. -/
def serve (state : Lookahead φ) (call : Call) : Except (Failure φ) Reply × Lookahead φ :=
  match perform call state with
  | .ok reply after => (.ok reply, after)
  | .error failure after => (.error failure, after)

section Machines

variable {σ α : Type} (serve : σ → Call → α × σ)

/-- What a machine answers to calls one after the other. -/
def replies : σ → List Call → List α
  | _, [] => []
  | state, call :: calls => (serve state call).1 :: replies (serve state call).2 calls

/-- The state in which calls one after the other leave a machine. -/
def stateAfter (state : σ) (calls : List Call) : σ :=
  calls.foldl (fun state call ↦ (serve state call).2) state

@[simp] private theorem replies_append (state : σ) (front back : List Call) :
    replies serve state (front ++ back)
      = replies serve state front ++ replies serve (stateAfter serve state front) back := by
  induction front generalizing state with
  | nil => rfl
  | cons call front ih =>
    rw [List.cons_append, replies, replies, ih, List.cons_append]
    rfl

/-- **A simulation.** Two machines reply in the same way to calls that are allowed, if each of these
has the same reply from states that are related, and leads to such states again. -/
theorem replies_eq_of_related {ρ : Type} {other : ρ → Call → α × ρ} (related : σ → ρ → Prop)
    (allowed : σ → List Call → Prop)
    (hstep : ∀ state queue call calls, related state queue → allowed state (call :: calls) →
      (serve state call).1 = (other queue call).1 ∧
        related (serve state call).2 (other queue call).2 ∧ allowed (serve state call).2 calls)
    {state : σ} {queue : ρ} {calls : List Call} (h : related state queue)
    (hallowed : allowed state calls) :
    replies serve state calls = replies other queue calls ∧
      related (stateAfter serve state calls) (stateAfter other queue calls) := by
  induction calls generalizing state queue with
  | nil => exact ⟨rfl, h⟩
  | cons call calls ih =>
    obtain ⟨hreply, hafter, hcalls⟩ := hstep state queue call calls h hallowed
    obtain ⟨hreplies, hfinal⟩ := ih hafter hcalls
    refine ⟨?_, hfinal⟩
    rw [replies, replies, hreply, hreplies]

end Machines

end Lookahead

/-! ## The queue -/

namespace Queue

open Lookahead

variable {φ : Type} {tokens : List Token}

/-- Removes the head of a queue if it is of one of some types; else the queue stays as it was. -/
def take (types : List TokenType) : List Token → Except (Failure φ) Reply × List Token
  | [] => (.error (.rejected (.unexpected types none)), [])
  | token :: rest =>
    if token.type ∈ types then (.ok (.token token), rest)
    else (.error (.rejected (.unexpected types (some token.type))), token :: rest)

/-- What a queue makes of a call: the reply, or why there is none, and the queue after it. -/
def serve (tokens : List Token) : Call → Except (Failure φ) Reply × List Token
  | .next => (.ok (.token tokens.head?), tokens.tail)
  | .backup token => (.ok .done, token :: tokens)
  | .consume .nothing => (.error .nothingExpected, tokens)
  | .consume (.one type) => take [type] tokens
  | .consume (.oneOf types) => take types tokens
  | .hasConsumed expectation =>
    if expectation.metBy (tokens.head?.map Token.type) then (.ok (.truth true), tokens.tail)
    else (.ok (.truth false), tokens)
  | .peek => (.ok (.type (tokens.head?.map Token.type)), tokens)
  | .atEnd => (.ok (.truth tokens.isEmpty), tokens)

theorem take_cases (types : List TokenType) (tokens : List Token) :
    (∃ token rest, tokens = token :: rest ∧ token.type ∈ types ∧
      take (φ := φ) types tokens = (.ok (.token token), rest)) ∨
    ((∀ token ∈ tokens.head?, token.type ∉ types) ∧
      take (φ := φ) types tokens
        = (.error (.rejected (.unexpected types (tokens.head?.map Token.type))), tokens)) := by
  cases tokens with
  | nil => exact .inr ⟨fun token htoken ↦ absurd htoken (Option.not_mem_none token), rfl⟩
  | cons token rest =>
    by_cases hmem : token.type ∈ types
    · exact .inl ⟨token, rest, rfl, hmem, if_pos hmem⟩
    · refine .inr ⟨fun other hother ↦ ?_, if_neg hmem⟩
      cases hother
      exact hmem

private theorem serve_consume_eq_error {expectation : Expectation} {failure : Failure φ}
    (h : (serve tokens (.consume expectation)).1 = .error failure) :
    (serve (φ := φ) tokens (.consume expectation)).2 = tokens := by
  have htake : ∀ types, (take types tokens).1 = .error failure →
      (take (φ := φ) types tokens).2 = tokens := by
    intro types htypes
    obtain ⟨token, rest, -, -, heq⟩ | ⟨-, heq⟩ := take_cases (φ := φ) types tokens
    · rw [heq] at htypes
      cases htypes
    · rw [heq]
  cases expectation with
  | nothing => rfl
  | one type => exact htake [type] h
  | oneOf types => exact htake types h

end Queue

/-! ## A look-ahead serves like the queue of the tokens ahead -/

namespace Lookahead

variable {φ : Type} {state after : Lookahead φ} {tokens : List Token} {call : Call}

theorem serve_eq_of_ok {reply : Reply} (h : perform call state = .ok reply after) :
    serve state call = (.ok reply, after) := by
  rw [serve, h]

theorem serve_eq_of_error {failure : Failure φ}
    (h : perform call state = .error failure after) :
    serve state call = (.error failure, after) := by
  rw [serve, h]

theorem Ahead.serve_consume (h : state.Ahead tokens) (types : List TokenType) :
    (serve state (.consume (.oneOf types))).1 = (Queue.take types tokens).1 ∧
      (serve state (.consume (.oneOf types))).2.Ahead (Queue.take (φ := φ) types tokens).2 := by
  obtain ⟨token, rest, rfl, hmem, htake⟩ | ⟨hmem, htake⟩ :=
    Queue.take_cases (φ := φ) types tokens
  · obtain ⟨after, hconsume, hafter⟩ := h.consumeOneOf_mem hmem
    have hperform : perform (.consume (.oneOf types)) state = .ok (.token token) after :=
      bind_eq_of_ok hconsume
    rw [serve_eq_of_ok hperform, htake]
    exact ⟨rfl, hafter⟩
  · obtain ⟨after, hconsume, hafter⟩ := h.consumeOneOf_notMem hmem
    have hperform : perform (.consume (.oneOf types)) state = .error _ after :=
      bind_eq_of_error hconsume
    rw [serve_eq_of_error hperform, htake]
    exact ⟨rfl, hafter⟩

theorem hasConsumed_eq (expectation : Expectation) (state : Lookahead φ) :
    hasConsumed expectation state
      = (if expectation.metBy state.peek then next >>= fun _ ↦ pure true else pure false)
          state := by
  cases expectation <;> rfl

private theorem Ahead.serve_hasConsumed (h : state.Ahead tokens) (expectation : Expectation) :
    (serve state (.hasConsumed expectation)).1
        = (Queue.serve tokens (.hasConsumed expectation)).1 ∧
      (serve state (.hasConsumed expectation)).2.Ahead
        (Queue.serve (φ := φ) tokens (.hasConsumed expectation)).2 := by
  have hequation := hasConsumed_eq expectation state
  rw [h.peek_eq] at hequation
  rw [Queue.serve]
  split at hequation
  · rename_i hmet
    obtain ⟨after, hnext, hafter⟩ := h.next
    rw [bind_eq_of_ok hnext] at hequation
    have hperform : perform (.hasConsumed expectation) state = .ok (.truth true) after :=
      bind_eq_of_ok hequation
    rw [serve_eq_of_ok hperform, if_pos hmet]
    exact ⟨rfl, hafter⟩
  · rename_i hmet
    have hperform : perform (.hasConsumed expectation) state = .ok (.truth false) state :=
      bind_eq_of_ok hequation
    rw [serve_eq_of_ok hperform, if_neg hmet]
    exact ⟨rfl, h⟩

/-- **One call.** The reply is that of the queue of the tokens ahead, and the tokens ahead after
it are that queue after it. -/
theorem Ahead.serve (h : state.Ahead tokens) (call : Call) :
    (Lookahead.serve state call).1 = (Queue.serve tokens call).1 ∧
      (Lookahead.serve state call).2.Ahead (Queue.serve (φ := φ) tokens call).2 := by
  cases call with
  | next =>
    obtain ⟨after, hnext, hafter⟩ := h.next
    have hperform : perform .next state = .ok (.token tokens.head?) after := bind_eq_of_ok hnext
    rw [serve_eq_of_ok hperform]
    exact ⟨rfl, hafter⟩
  | backup token =>
    obtain ⟨after, hbackup, hafter⟩ := h.backup token
    have hperform : perform (.backup token) state = .ok .done after := bind_eq_of_ok hbackup
    rw [serve_eq_of_ok hperform]
    exact ⟨rfl, hafter⟩
  | consume expectation =>
    cases expectation with
    | nothing => exact ⟨rfl, h⟩
    | one type => exact h.serve_consume [type]
    | oneOf types => exact h.serve_consume types
  | hasConsumed expectation => exact h.serve_hasConsumed expectation
  | peek =>
    have hperform : perform .peek state = .ok (.type state.peek) state := rfl
    rw [serve_eq_of_ok hperform, h.peek_eq]
    exact ⟨rfl, h⟩
  | atEnd =>
    have hperform : perform .atEnd state = .ok (.truth state.atEnd) state := rfl
    rw [serve_eq_of_ok hperform, h.atEnd_eq]
    exact ⟨rfl, h⟩

/-- **Any number of calls.** -/
theorem Ahead.replies (h : state.Ahead tokens) (calls : List Call) :
    Lookahead.replies Lookahead.serve state calls = Lookahead.replies Queue.serve tokens calls ∧
      (stateAfter Lookahead.serve state calls).Ahead
        (stateAfter (Queue.serve (φ := φ)) tokens calls) := by
  refine replies_eq_of_related _ Ahead (fun _ _ ↦ True) (fun state tokens call _ h _ ↦ ?_) h trivial
  obtain ⟨hreply, hafter⟩ := h.serve call
  exact ⟨hreply, hafter, trivial⟩

/-- **A look-ahead is a queue that takes tokens back.** Whatever it was used for before, a
look-ahead that is given some tokens replies to every row of calls as the queue of these tokens
does. If a token is refused, then all later calls have the replies that they would have had without
the refusal. -/
theorem replies_eq_queue (tokens : List Token) (before : Lookahead φ) :
    ∃ state, init (.ofTokens tokens) before = .ok () state ∧
      (∀ calls, replies serve state calls = replies Queue.serve tokens calls) ∧
      ∀ front expectation failure,
        (serve (stateAfter serve state front) (.consume expectation)).1 = .error failure →
        ∀ back, ∃ later, replies serve state (front ++ back) = replies serve state front ++ later ∧
          replies serve state (front ++ .consume expectation :: back)
            = replies serve state front ++ .error failure :: later := by
  obtain ⟨state, hinit, hahead⟩ := init_ahead before (Source.supplies_ofTokens tokens)
  refine ⟨state, hinit, fun calls ↦ (hahead.replies calls).1, ?_⟩
  intro front expectation failure hfailure back
  refine ⟨replies serve (stateAfter serve state front) back, replies_append serve _ _ _, ?_⟩
  -- the refusal leaves the queue, and with it the tokens ahead, as they were
  have hfront := (hahead.replies front).2
  obtain ⟨hreply, hafter⟩ := hfront.serve (.consume expectation)
  rw [Queue.serve_consume_eq_error (hreply.symm.trans hfailure)] at hafter
  rw [replies_append, replies, hfailure, (hafter.replies back).1, (hfront.replies back).1]

/-- The only token is taken, and at the end of the input two others are put back. -/
def returning : List Call :=
  [.next, .backup (.ofCategory .plus "+"), .backup (.ofCategory .int "4")]

/-- The tokens that were put back are taken again, and then nothing is left. -/
def draining : List Call :=
  [.consume (.one (.category .int)), .hasConsumed (.one (.category .plus)), .hasConsumed .nothing,
    .next, .atEnd]

/-- A refusal between the two changes none of the other replies. -/
theorem replies_returning_draining :
    ∃ state, init (.ofTokens [.ofCategory .int "7"]) ({} : Lookahead Empty) = .ok () state ∧
      replies serve state (returning ++ .consume (.one (.category .times)) :: draining)
        = [.ok (.token (some (.ofCategory .int "7"))), .ok .done, .ok .done,
          .error (.rejected (.unexpected [.category .times] (some (.category .int)))),
          .ok (.token (some (.ofCategory .int "4"))), .ok (.truth true), .ok (.truth true),
          .ok (.token none), .ok (.truth true)] ∧
      ∃ later, replies serve state (returning ++ draining)
          = replies serve state returning ++ later ∧
        replies serve state (returning ++ .consume (.one (.category .times)) :: draining)
          = replies serve state returning
            ++ .error (.rejected (.unexpected [.category .times] (some (.category .int))))
              :: later := by
  obtain ⟨state, hinit, hreplies, hrefused⟩ :=
    replies_eq_queue [.ofCategory .int "7"] ({} : Lookahead Empty)
  refine ⟨state, hinit, hreplies _, hrefused returning _ _ ?_ draining⟩
  obtain ⟨-, rfl⟩ : () = () ∧ (⟨some (.ofCategory .int "7"), [],
      some ⟨[], .finished none, false⟩, []⟩ : Lookahead Empty) = state :=
    EStateM.Result.ok.inj hinit
  rfl

end Lookahead

end ArithLang
