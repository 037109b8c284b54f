import ArithLang.Proofs.Lexer.Stream
import ArithLang.Scanner
import Mathlib.Data.List.Basic

/-!
# Streams of one lexer do not disturb each other

A lexer at work may have started any number of streams, and is asked now for a token of one of them,
now for a token of another. All of them move its one position. Still the answers of a stream are
those of the reading of its own text, hence also those of a lexer that has this stream only; and
after a token the position is the place of that token in the text of the stream that has been asked.

## Why the position may be shared

A stream sets the position before it looks at it: to the front of its text when it is first asked,
and past the piece of its last token later on. So what it has left to hand out (`Holds`) depends on
the lexer and the stream alone, which requests for other streams do not touch.

## Where the position stands

The place where a stream goes on is counted by `Arrives`: how many tokens have been cut off the
front of the text so far. From there the stream passes over pieces without a token, which changes
the place but not the count, up to the piece of the next token or to the end of the text.
-/

namespace ArithLang

variable {ε : Type}

/-! ## Where tokens start -/

namespace Lexer

variable {lexer : Lexer ε} {text : List Char} {marker : Option TokenType}

/-- The text can be cut up to `place`, and `count` of the pieces make tokens. -/
inductive Arrives (lexer : Lexer ε) (text : List Char) : ℕ → ℕ → Prop where
  /-- Nothing has been cut off. -/
  | front : Arrives lexer text 0 0
  /-- A piece is passed over. -/
  | skip {count place n : ℕ} (h : Arrives lexer text count place)
      (hcut : lexer.cut (text.drop place) = .skip n) : Arrives lexer text count (place + n)
  /-- A piece makes a token. -/
  | token {count place n : ℕ} {token : Token} (h : Arrives lexer text count place)
      (hcut : lexer.cut (text.drop place) = .token token n) :
      Arrives lexer text (count + 1) (place + n)

/-- Behind `count` others, `token` is handed out, and its own text starts at `place`. -/
inductive HandsOut (lexer : Lexer ε) (text : List Char) (marker : Option TokenType) (count : ℕ)
    (token : Token) (place : ℕ) : Prop where
  /-- The token is made of the piece at `place`. -/
  | piece {n : ℕ} (h : Arrives lexer text count place)
      (hcut : lexer.cut (text.drop place) = .token token n)
  /-- The token marks the end of the text. -/
  | marker {type : TokenType} (h : Arrives lexer text count place)
      (hcut : lexer.cut (text.drop place) = .finished) (hplace : place = text.length)
      (hmarker : marker = some type) (htoken : token = .marker type)

theorem Arrives.le_length {count place : ℕ} (h : Arrives lexer text count place) :
    place ≤ text.length := by
  induction h with
  | front => exact Nat.zero_le _
  | skip _ hcut ih =>
    have hle := length_le_of_cut_skip hcut
    rw [List.length_drop] at hle
    omega
  | token _ hcut ih =>
    have hle := length_le_of_cut_token hcut
    rw [List.length_drop] at hle
    omega

private theorem eq_nil_of_cut_finished (h : lexer.cut text = .finished) : text = [] := by
  unfold cut at h
  split at h
  · split at h
    · cases h
    · split at h
      · rfl
      · cases h
  · split at h <;> cases h

/-- Where a stream goes on after `count` answers: unless it turns in place there, all of them were
tokens. -/
def Stands (lexer : Lexer ε) (text : List Char) (count : ℕ) : Stage → Prop
  | .fresh => count = 0
  | .suspended place => lexer.cut (text.drop place) = .skip 0 ∨ Arrives lexer text count place
  | .closed => True

private theorem readFrom_of_skip_zero (marker : Option TokenType) {place : ℕ}
    (hcut : lexer.cut (text.drop place) = .skip 0) :
    lexer.readFrom text marker place = (.endless, .suspended place, place) := by
  rw [readFrom.eq_def]
  split <;> simp_all

/-- From a place where `count` tokens have been cut off, a stream comes to the next one, or hands
out no token any more. -/
theorem readFrom_stands (marker : Option TokenType) {count place : ℕ}
    (h : Arrives lexer text count place) :
    (∀ token, (lexer.readFrom text marker place).1 = .token token →
      HandsOut lexer text marker count token (lexer.readFrom text marker place).2.2) ∧
    lexer.Stands text (count + 1) (lexer.readFrom text marker place).2.1 := by
  fun_induction Lexer.readFrom lexer text marker place with
  | case1 place hcut => exact ⟨by rintro _ ⟨⟩, trivial⟩
  | case2 place hcut hmarker => exact ⟨by rintro _ ⟨⟩, trivial⟩
  | case3 place hcut type hmarker =>
    have hend := List.drop_eq_nil_iff.mp (eq_nil_of_cut_finished hcut)
    refine ⟨fun token htoken ↦ ?_, trivial⟩
    cases htoken
    exact .marker h hcut (Nat.le_antisymm h.le_length hend) hmarker rfl
  | case4 place c hcut => exact ⟨by rintro _ ⟨⟩, trivial⟩
  | case5 place error hcut => exact ⟨by rintro _ ⟨⟩, trivial⟩
  | case6 place token n hcut =>
    refine ⟨fun other hother ↦ ?_, .inr (h.token hcut)⟩
    cases hother
    exact .piece h hcut
  | case7 place hcut => exact ⟨by rintro _ ⟨⟩, .inl hcut⟩
  | case8 place n hcut ih => exact ih (h.skip hcut)

private theorem next_stands {stage : Stage} {count : ℕ} (h : lexer.Stands text count stage)
    (marker : Option TokenType) (position : ℕ) :
    ∃ answer after place, lexer.next { text, marker, stage } position
        = (answer, { text, marker, stage := after }, place) ∧
      (∀ token, answer = .token token → HandsOut lexer text marker count token place) ∧
      lexer.Stands text (count + 1) after := by
  cases stage with
  | fresh =>
    obtain rfl : count = 0 := h
    exact ⟨_, _, _, rfl, readFrom_stands marker .front⟩
  | suspended place =>
    rcases h with hcut | harrives
    · refine ⟨.endless, .suspended place, place, ?_, by rintro _ ⟨⟩, .inl hcut⟩
      simp only [next, readFrom_of_skip_zero marker hcut]
    · exact ⟨_, _, _, rfl, readFrom_stands marker harrives⟩
  | closed => exact ⟨_, _, _, rfl, by rintro _ ⟨⟩, trivial⟩

end Lexer

/-! ## Any order of requests -/

/-- What a lexer at work is asked for. -/
inductive Request where
  /-- A new stream over a text. -/
  | start (id text : String) (marker : Option TokenType)
  /-- The next token of a stream. -/
  | next (id : String)
deriving DecidableEq, Repr

namespace Request

/-- The name of the stream that is started or asked. -/
def id : Request → String
  | start id _ _ => id
  | next id => id

/-- The request starts a stream under the name `id`. -/
def Starts (id : String) : Request → Prop
  | start other _ _ => other = id
  | next _ => False

instance (id : String) : DecidablePred (Starts id)
  | start other _ _ => inferInstanceAs (Decidable (other = id))
  | next _ => inferInstanceAs (Decidable False)

theorem eq_next_or_id_ne {request : Request} {id : String} (h : ¬ request.Starts id) :
    request = next id ∨ request.id ≠ id := by
  cases request with
  | start other text marker => exact .inr h
  | next other => exact (eq_or_ne other id).imp_left (congrArg next)

end Request

/-- The first answers of a reading, as many as are asked for. -/
def Run.answers : ℕ → Run (Lexer.Error ε) → List (Answer ε)
  | 0, _ => []
  | n + 1, run => run.step.1 :: answers n run.step.2

namespace Session

variable {session : Session ε} {id : String} {text : List Char} {marker : Option TokenType}
  {count : ℕ} {request : Request} {requests : List Request}

/-- The session after a request. -/
def serve (session : Session ε) : Request → Session ε
  | .start id text marker => session.start id text marker
  | .next id => (session.next id).2

/-- The answers of the stream `id` to the requests for it, each with the position right after it. -/
def replies (id : String) : Session ε → List Request → List (Answer ε × ℕ)
  | _, [] => []
  | session, request :: requests =>
    let after := session.serve request
    if request = .next id then
      ((session.next id).1, after.position) :: replies id after requests
    else replies id after requests

@[simp] private theorem replies_next (id : String) (session : Session ε) (requests : List Request) :
    replies id session (.next id :: requests)
      = ((session.next id).1, (session.next id).2.position)
        :: replies id (session.next id).2 requests := by
  rw [replies, if_pos rfl]
  rfl

private theorem replies_other (h : request.id ≠ id) (session : Session ε)
    (requests : List Request) :
    replies id session (request :: requests) = replies id (session.serve request) requests := by
  have hnext : request ≠ .next id := by
    rintro rfl
    exact h rfl
  rw [replies, if_neg hnext]

/-! ### What requests leave alone -/

@[simp] private theorem lexer_next (session : Session ε) (id : String) :
    (session.next id).2.lexer = session.lexer := by
  cases hstream : session.stream? id with
  | none => rw [next_of_none hstream]
  | some stream =>
    obtain ⟨after, hafter, hlexer, -, -⟩ := next_of_stream hstream
    rw [hafter, hlexer]

@[simp] theorem lexer_serve (session : Session ε) (request : Request) :
    (session.serve request).lexer = session.lexer := by
  cases request with
  | start id text marker => rfl
  | next id => exact session.lexer_next id

private theorem stream?_serve_other (h : request.id ≠ id) (session : Session ε) :
    (session.serve request).stream? id = session.stream? id := by
  cases request with
  | start other text marker =>
    have hother : id ≠ other := Ne.symm h
    simp [serve, hother]
  | next other =>
    have hother : id ≠ other := Ne.symm h
    rw [serve]
    cases hstream : session.stream? other with
    | none => rw [next_of_none hstream]
    | some stream =>
      obtain ⟨after, hafter, -, -, hstreams⟩ := next_of_stream hstream
      rw [hafter, hstreams, if_neg hother]

/-! ### The answers of a stream -/

theorem Holds.serve_other {run : Run (Lexer.Error ε)} (h : session.Holds id run)
    (hne : request.id ≠ id) : (session.serve request).Holds id run := by
  obtain ⟨stream, hstream, hleft⟩ := h
  refine ⟨stream, ?_, ?_⟩
  · rw [stream?_serve_other hne, hstream]
  · rw [lexer_serve, hleft]

/-- **The answers of a stream** are those of what it has left, whatever else the session is asked
for. -/
theorem Holds.answers {run : Run (Lexer.Error ε)} (h : session.Holds id run)
    (hstarts : ∀ request ∈ requests, ¬ request.Starts id) :
    (replies id session requests).map Prod.fst = run.answers (requests.count (.next id)) := by
  induction requests generalizing session run with
  | nil => rfl
  | cons request requests ih =>
    rw [List.forall_mem_cons] at hstarts
    obtain rfl | hne := Request.eq_next_or_id_ne hstarts.1
    · obtain ⟨after, hnext, hafter⟩ := h.next
      rw [replies_next, hnext, List.map_cons, List.count_cons_self, Run.answers,
        ih hafter hstarts.2]
    · have hnext : request ≠ .next id := by
        rintro rfl
        exact hne rfl
      rw [replies_other hne, List.count_cons_of_ne hnext, ih (h.serve_other hne) hstarts.2]

/-! ### The places of its tokens -/

/-- The stream `id` reads `text`, and has been asked `count` times. -/
def StandsAt (session : Session ε) (id : String) (text : List Char) (marker : Option TokenType)
    (count : ℕ) : Prop :=
  ∃ stage, session.stream? id = some { text, marker, stage } ∧ session.lexer.Stands text count stage

theorem StandsAt.next (h : session.StandsAt id text marker count) :
    (∀ token, (session.next id).1 = .token token →
      session.lexer.HandsOut text marker count token (session.next id).2.position) ∧
    (session.next id).2.StandsAt id text marker (count + 1) := by
  obtain ⟨stage, hstream, hstands⟩ := h
  obtain ⟨answer, left, place, hleft, hhands, hafter⟩ :=
    Lexer.next_stands hstands marker session.position
  obtain ⟨after, hnext, hlexer, hposition, hstreams⟩ := next_of_stream hstream
  rw [hleft] at hnext hposition hstreams
  rw [hnext]
  refine ⟨fun token htoken ↦ hposition ▸ hhands token htoken, left, ?_, hlexer ▸ hafter⟩
  rw [hstreams, if_pos rfl]

theorem StandsAt.serve_other (h : session.StandsAt id text marker count) (hne : request.id ≠ id) :
    (session.serve request).StandsAt id text marker count := by
  obtain ⟨stage, hstream, hstands⟩ := h
  refine ⟨stage, ?_, ?_⟩
  · rw [stream?_serve_other hne, hstream]
  · rwa [lexer_serve]

/-- **The position after a token** is the place of the token, whatever else the session is asked
for. -/
theorem StandsAt.places (h : session.StandsAt id text marker count)
    (hstarts : ∀ request ∈ requests, ¬ request.Starts id) {k : ℕ} {token : Token} {place : ℕ}
    (hreply : (replies id session requests)[k]? = some (.token token, place)) :
    session.lexer.HandsOut text marker (count + k) token place := by
  induction requests generalizing session count k with
  | nil => cases hreply
  | cons request requests ih =>
    rw [List.forall_mem_cons] at hstarts
    obtain rfl | hne := Request.eq_next_or_id_ne hstarts.1
    · obtain ⟨hhands, hafter⟩ := h.next
      rw [replies_next] at hreply
      cases k with
      | zero =>
        obtain ⟨hanswer, rfl⟩ := Prod.mk.inj (Option.some.inj hreply)
        exact hhands token hanswer
      | succ k =>
        rw [List.getElem?_cons_succ] at hreply
        rw [← session.lexer_next id, Nat.add_comm k 1, ← Nat.add_assoc]
        exact ih hafter hstarts.2 hreply
    · rw [replies_other hne] at hreply
      rw [← session.lexer_serve request]
      exact ih (h.serve_other hne) hstarts.2 hreply

/-! ### A stream among others -/

/-- **Streams of one lexer do not disturb each other.** In any session, and between any requests for
other streams, a stream gives the answers that it gives alone in a fresh session of the same lexer,
which are those of the reading of its text; and the position after a token is the place of the token
in that text. -/
theorem replies_interleaved (session : Session ε) (id text : String) (marker : Option TokenType)
    {requests : List Request} (h : ∀ request ∈ requests, ¬ request.Starts id) :
    (replies id (session.start id text marker) requests).map Prod.fst
        = (replies id (({ lexer := session.lexer } : Session ε).start id text marker)
            (List.replicate (requests.count (.next id)) (.next id))).map Prod.fst ∧
      (replies id (session.start id text marker) requests).map Prod.fst
        = (session.lexer.run marker text.toList).answers (requests.count (.next id)) ∧
      ∀ k token place,
        (replies id (session.start id text marker) requests)[k]? = some (.token token, place) →
          session.lexer.HandsOut text.toList marker k token place := by
  have halone : ∀ request ∈ List.replicate (requests.count (.next id)) (Request.next id),
      ¬ request.Starts id := by
    intro request hmem
    rw [List.eq_of_mem_replicate hmem]
    exact not_false
  have hanswers := (session.holds_start id text marker).answers h
  have hstands : (session.start id text marker).StandsAt id text.toList marker 0 := by
    exact ⟨.fresh, by simp, rfl⟩
  refine ⟨?_, hanswers, fun k token place hreply ↦ ?_⟩
  · rw [hanswers, (holds_start { lexer := session.lexer } id text marker).answers halone,
      List.count_replicate_self]
  · have hhands := hstands.places h hreply
    rwa [Nat.zero_add] at hhands

/-- A session that has handed out two tokens of another text. -/
def busy : Session Empty :=
  ((({ lexer := Scanner.lexer } : Session Empty).start "other" "7+" none).serve
    (.next "other")).serve (.next "other")

/-- Requests for the tokens of a product, between others. -/
def interleaved : List Request :=
  [.next "other", .next "product", .start "late" "(" none, .next "other", .next "product",
    .next "late", .next "product", .next "other", .next "product", .next "product"]

theorem replies_product :
    (∀ request ∈ interleaved, ¬ request.Starts "product") ∧
      (replies "product" (busy.start "product" "2 *3" (some Scanner.marker)) interleaved)[1]?
        = some (.token (.ofCategory .times "*"), 2) ∧
      busy.lexer.HandsOut "2 *3".toList (some Scanner.marker) 1 (.ofCategory .times "*") 2 ∧
      (replies "product" (busy.start "product" "2 *3" (some Scanner.marker)) interleaved).map
          Prod.fst
        = [.token (.ofCategory .int "2"), .token (.ofCategory .times "*"),
          .token (.ofCategory .int "3"), .token (.marker Scanner.marker), .stop] := by
  have hstarts : ∀ request ∈ interleaved, ¬ request.Starts "product" := by decide
  have hreply : (replies "product" (busy.start "product" "2 *3" (some Scanner.marker))
      interleaved)[1]? = some (.token (.ofCategory .times "*"), 2) := by
    decide +kernel
  obtain ⟨halone, -, hplaces⟩ :=
    replies_interleaved busy "product" "2 *3" (some Scanner.marker) hstarts
  refine ⟨hstarts, hreply, hplaces 1 _ _ hreply, halone.trans ?_⟩
  decide +kernel

end Session

end ArithLang
