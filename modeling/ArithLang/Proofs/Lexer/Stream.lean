import ArithLang.Lexer.Stream
import Mathlib.Data.List.Basic

/-!
# What a stream hands out

`Lexer.run` describes all that comes of reading a text; a stream hands it out, one answer at a time.
`Run.step` takes the next answer off such a description, and a request to a stream takes it off what
is left of the stream's reading (`next_eq_step`). So the answers of a stream are those of its
reading in order, and asking for all of them gives the tokens of the reading and what comes after
them.
-/

namespace ArithLang

variable {ε : Type}

namespace Run

/-- Nothing is left to hand out. -/
def spent {φ : Type} : Run φ := ⟨[], .finished none⟩

/-- The next answer of a reading, and what is left after it. -/
def step : Run (Lexer.Error ε) → Answer ε × Run (Lexer.Error ε)
  | ⟨token :: tokens, ending⟩ => (.token token, ⟨tokens, ending⟩)
  | ⟨[], .finished (some marker)⟩ => (.token marker, spent)
  | ⟨[], .finished none⟩ => (.stop, spent)
  | ⟨[], .failed error⟩ => (.failed error, spent)
  | ⟨[], .stuck (some token)⟩ => (.token token, ⟨[], .stuck (some token)⟩)
  | ⟨[], .stuck none⟩ => (.endless, ⟨[], .stuck none⟩)

end Run

namespace Lexer

theorem run_eq (lexer : Lexer ε) (marker : Option TokenType) (text : List Char) :
    lexer.run marker text = match lexer.cut text with
      | .ruleless => ⟨[], .failed .ruleless⟩
      | .finished => ⟨[], .finished (marker.map Token.marker)⟩
      | .unexpected c => ⟨[], .failed (.unexpected c)⟩
      | .failed error => ⟨[], .failed (.action error)⟩
      | .skip 0 => ⟨[], .stuck none⟩
      | .skip (n + 1) => lexer.run marker (text.drop (n + 1))
      | .token token 0 => ⟨[], .stuck (some token)⟩
      | .token token (n + 1) =>
        ⟨token :: (lexer.run marker (text.drop (n + 1))).tokens,
          (lexer.run marker (text.drop (n + 1))).ending⟩ := by
  rw [run]
  split <;> simp_all

/-! ## Streams, one answer at a time -/

/-- What is left of the reading of a stream. -/
def left (lexer : Lexer ε) (stream : TokenStream) : Run (Lexer.Error ε) :=
  match stream.stage with
  | .fresh => lexer.run stream.marker stream.text
  | .suspended position => lexer.run stream.marker (stream.text.drop position)
  | .closed => .spent

private theorem readFrom_eq_step (lexer : Lexer ε) (text : List Char) (marker : Option TokenType)
    (position : ℕ) :
    ∃ stage place, lexer.readFrom text marker position
        = ((lexer.run marker (text.drop position)).step.1, stage, place) ∧
      lexer.left { text, marker, stage } = (lexer.run marker (text.drop position)).step.2 := by
  fun_induction Lexer.readFrom lexer text marker position with
  | case1 position hcut =>
    rw [run_eq, hcut]
    exact ⟨_, _, rfl, rfl⟩
  | case2 position hcut hmarker =>
    rw [run_eq, hcut, hmarker]
    exact ⟨_, _, rfl, rfl⟩
  | case3 position hcut type hmarker =>
    rw [run_eq, hcut, hmarker]
    exact ⟨_, _, rfl, rfl⟩
  | case4 position c hcut =>
    rw [run_eq, hcut]
    exact ⟨_, _, rfl, rfl⟩
  | case5 position error hcut =>
    rw [run_eq, hcut]
    exact ⟨_, _, rfl, rfl⟩
  | case6 position token n hcut =>
    cases n with
    | zero =>
      have hrun : lexer.run marker (text.drop position) = ⟨[], .stuck (some token)⟩ := by
        rw [run_eq, hcut]
      rw [hrun]
      exact ⟨_, _, rfl, hrun⟩
    | succ n =>
      simp only [run_eq lexer marker (text.drop position), hcut, List.drop_drop]
      exact ⟨_, _, rfl, rfl⟩
  | case7 position hcut =>
    have hrun : lexer.run marker (text.drop position) = ⟨[], .stuck none⟩ := by
      rw [run_eq, hcut]
    rw [hrun]
    exact ⟨_, _, rfl, hrun⟩
  | case8 position n hcut ih =>
    simp only [run_eq lexer marker (text.drop position), hcut, List.drop_drop]
    exact ih

/-- **A request to a stream** takes the next answer off what is left of its reading. -/
theorem next_eq_step (lexer : Lexer ε) (stream : TokenStream) (position : ℕ) :
    ∃ after place, lexer.next stream position = ((lexer.left stream).step.1, after, place) ∧
      lexer.left after = (lexer.left stream).step.2 := by
  obtain ⟨text, marker, stage⟩ := stream
  cases stage with
  | fresh =>
    obtain ⟨stage, place, hread, hleft⟩ := readFrom_eq_step lexer text marker 0
    exact ⟨{ text, marker, stage }, place, by simp only [next, hread, left, List.drop_zero], hleft⟩
  | suspended start =>
    obtain ⟨stage, place, hread, hleft⟩ := readFrom_eq_step lexer text marker start
    exact ⟨{ text, marker, stage }, place, by simp only [next, hread, left], hleft⟩
  | closed => exact ⟨_, position, rfl, rfl⟩

private theorem length_tokens_run_le (lexer : Lexer ε) (marker : Option TokenType)
    (text : List Char) :
    (lexer.run marker text).tokens.length ≤ text.length := by
  fun_induction Lexer.run lexer marker text with
  | case6 text n hcut ih =>
    rw [List.length_drop] at ih
    omega
  | case8 text token n hcut rest ih =>
    have hle := length_le_of_cut_token hcut
    rw [List.length_drop] at ih
    change rest.tokens.length + 1 ≤ text.length
    change rest.tokens.length ≤ _ at ih
    omega
  | _ => exact Nat.zero_le _

end Lexer

/-! ## The streams of a session -/

namespace Session

variable {session : Session ε} {id other : String} {stream : TokenStream}

theorem lookup_cons_eq_ite {α : Type} (name other : String) (a : α) (rest : List (String × α)) :
    ((name, a) :: rest).lookup other = if other = name then some a else rest.lookup other := by
  rw [List.lookup_cons]
  by_cases h : other = name
  · rw [if_pos h, beq_iff_eq.mpr h]
  · rw [if_neg h, beq_false_of_ne h]

@[simp] theorem stream?_start (session : Session ε) (id other text : String)
    (marker : Option TokenType) :
    (session.start id text marker).stream? other
      = if other = id then some { text := text.toList, marker } else session.stream? other :=
  lookup_cons_eq_ite id other _ session.streams

@[simp] private theorem stream?_update (session : Session ε) (id other : String)
    (stream : TokenStream)
    (position : ℕ) :
    (session.update id stream position).stream? other
      = if other = id then (session.stream? id).map fun _ ↦ stream else session.stream? other := by
  simp only [stream?, update]
  induction session.streams with
  | nil => exact (ite_self none).symm
  | cons entry streams ih =>
    obtain ⟨name, kept⟩ := entry
    rw [List.map_cons]
    by_cases hname : name = id
    · subst hname
      rw [if_pos (beq_self_eq_true name)]
      simp only [lookup_cons_eq_ite, ih, if_true, Option.map_some]
      split_ifs <;> rfl
    · have hbeq : (name == id) = false := beq_false_of_ne hname
      simp only [hbeq, Bool.false_eq_true, if_false, lookup_cons_eq_ite, ih, if_neg (Ne.symm hname)]
      split_ifs with h h' h'
      · exact absurd (h.symm.trans h') hname
      all_goals rfl

private theorem report_eq (session : Session ε) (answer : Answer ε) (stage : Stage) :
    ∃ log, session.report answer stage = { session with log } := by
  unfold report
  split
  · exact ⟨_, rfl⟩
  · exact ⟨session.log, rfl⟩

@[simp] theorem next_of_none (h : session.stream? id = none) :
    session.next id = (.stop, session) := by
  rw [next, h]

theorem next_of_stream (h : session.stream? id = some stream) :
    ∃ after, session.next id = ((session.lexer.next stream session.position).1, after) ∧
      after.lexer = session.lexer ∧
      after.position = (session.lexer.next stream session.position).2.2 ∧
      ∀ other, after.stream? other
        = if other = id then some (session.lexer.next stream session.position).2.1
          else session.stream? other := by
  rcases hnext : session.lexer.next stream session.position with ⟨answer, left, position⟩
  obtain ⟨log, hreport⟩ := (session.update id left position).report_eq answer left.stage
  refine ⟨{ session.update id left position with log }, ?_, rfl, rfl, fun other ↦ ?_⟩
  · simp only [next, h, hnext, hreport]
  · have hupdate := stream?_update session id other left position
    rwa [h] at hupdate

/-! ## Asking for all tokens -/

/-- The stream `id` has `run` left to hand out. -/
def Holds (session : Session ε) (id : String) (run : Run (Lexer.Error ε)) : Prop :=
  ∃ stream, session.stream? id = some stream ∧ session.lexer.left stream = run

theorem holds_start (session : Session ε) (id text : String) (marker : Option TokenType) :
    (session.start id text marker).Holds id (session.lexer.run marker text.toList) := by
  exact ⟨{ text := text.toList, marker }, by simp, rfl⟩

/-- A request takes an answer off what the stream has left. -/
theorem Holds.next {run : Run (Lexer.Error ε)} (h : session.Holds id run) :
    ∃ after, session.next id = (run.step.1, after) ∧ after.Holds id run.step.2 := by
  obtain ⟨stream, hstream, rfl⟩ := h
  obtain ⟨left, position, hnext, hleft⟩ := Lexer.next_eq_step session.lexer stream session.position
  obtain ⟨after, hafter, hlexer, -, hstreams⟩ := next_of_stream hstream
  rw [hnext] at hafter hstreams
  refine ⟨after, hafter, left, ?_, ?_⟩
  · rw [hstreams, if_pos rfl]
  · rw [hlexer, hleft]

theorem drainUpTo_of_token {limit : ℕ} {token : Token} {after : Session ε}
    (h : session.next id = (.token token, after)) :
    drainUpTo id (limit + 1) session
      = (token :: (drainUpTo id limit after).1, (drainUpTo id limit after).2) := by
  rw [drainUpTo, h]

private theorem Holds.drainUpTo_append {tokens : List Token} {ending : Ending (Lexer.Error ε)}
    (h : session.Holds id ⟨tokens, ending⟩) (limit : ℕ) :
    ∃ after : Session ε, after.Holds id ⟨[], ending⟩ ∧
      drainUpTo id (limit + tokens.length) session
        = (tokens ++ (drainUpTo id limit after).1, (drainUpTo id limit after).2) := by
  induction tokens generalizing session with
  | nil => exact ⟨session, h, rfl⟩
  | cons token tokens ih =>
    obtain ⟨middle, hnext, hmiddle⟩ := h.next
    obtain ⟨after, hafter, hdrain⟩ := ih hmiddle
    refine ⟨after, hafter, ?_⟩
    rw [List.length_cons, ← Nat.add_assoc, drainUpTo_of_token hnext, hdrain]
    rfl

private theorem Holds.drainUpTo_finished {marker : Option Token}
    (h : session.Holds id ⟨[], .finished marker⟩) (limit : ℕ) :
    ∃ after, drainUpTo id (limit + 2) session = (marker.toList, .stop, after) := by
  cases marker with
  | none =>
    obtain ⟨after, hnext, -⟩ := h.next
    exact ⟨after, by rw [drainUpTo, hnext]; rfl⟩
  | some token =>
    obtain ⟨middle, hnext, hmiddle⟩ := h.next
    obtain ⟨after, hlast, -⟩ := hmiddle.next
    refine ⟨after, ?_⟩
    rw [drainUpTo_of_token hnext, drainUpTo, hlast]
    rfl

private theorem Holds.drainUpTo_failed {error : Lexer.Error ε}
    (h : session.Holds id ⟨[], .failed error⟩)
    (limit : ℕ) : ∃ after, drainUpTo id (limit + 1) session = ([], .failed error, after) := by
  obtain ⟨after, hnext, -⟩ := h.next
  exact ⟨after, by rw [drainUpTo, hnext]; rfl⟩

theorem Holds.drainUpTo_stuck {token : Option Token} (h : session.Holds id ⟨[], .stuck token⟩)
    (limit : ℕ) : (drainUpTo id limit session).2.1 = .endless := by
  induction limit generalizing session with
  | zero => rfl
  | succ limit ih =>
    obtain ⟨after, hnext, hafter⟩ := h.next
    cases token with
    | none =>
      rw [drainUpTo, hnext]
      rfl
    | some token =>
      rw [drainUpTo_of_token hnext]
      exact ih hafter

/-- A stream hands out the tokens of its reading, and may then be asked twice for the ending. -/
theorem drain_start_eq_append (session : Session ε) (id text : String)
    (marker : Option TokenType) :
    ∃ (spare : ℕ) (middle : Session ε),
      middle.Holds id ⟨[], (session.lexer.run marker text.toList).ending⟩ ∧
      (session.start id text marker).drain id
        = ((session.lexer.run marker text.toList).tokens ++ (drainUpTo id (spare + 2) middle).1,
          (drainUpTo id (spare + 2) middle).2) := by
  have hholds := session.holds_start id text marker
  have hlength := session.lexer.length_tokens_run_le marker text.toList
  generalize session.lexer.run marker text.toList = run at hholds hlength ⊢
  obtain ⟨tokens, ending⟩ := run
  -- the characters pay for the tokens, and two more requests find the marker and the end
  obtain ⟨spare, hspare⟩ : ∃ spare, text.toList.length = tokens.length + spare :=
    Nat.exists_eq_add_of_le hlength
  have hlimit : text.toList.length + 2 = spare + 2 + tokens.length := by
    rw [hspare]
    omega
  obtain ⟨middle, hmiddle, hdrain⟩ := hholds.drainUpTo_append (spare + 2)
  refine ⟨spare, middle, hmiddle, ?_⟩
  rw [← hlimit] at hdrain
  simpa [drain] using hdrain

/-- **A stream whose reading ends with the text** hands out the tokens of the reading and the
marker, and then stops. -/
theorem drain_start_of_finished {text : String} {marker : Option TokenType} {tokens : List Token}
    {last : Option Token} (h : session.lexer.run marker text.toList = ⟨tokens, .finished last⟩) :
    ∃ after, (session.start id text marker).drain id = (tokens ++ last.toList, .stop, after) := by
  obtain ⟨spare, middle, hmiddle, hdrain⟩ := session.drain_start_eq_append id text marker
  rw [h] at hmiddle hdrain
  obtain ⟨after, hlast⟩ := hmiddle.drainUpTo_finished spare
  rw [hlast] at hdrain
  exact ⟨after, hdrain⟩

/-- **A stream whose reading fails** hands out the tokens of the reading and then the failure. -/
theorem drain_start_of_failed {text : String} {marker : Option TokenType} {tokens : List Token}
    {error : Lexer.Error ε} (h : session.lexer.run marker text.toList = ⟨tokens, .failed error⟩) :
    ∃ after, (session.start id text marker).drain id = (tokens, .failed error, after) := by
  obtain ⟨spare, middle, hmiddle, hdrain⟩ := session.drain_start_eq_append id text marker
  rw [h] at hmiddle hdrain
  obtain ⟨after, hlast⟩ := hmiddle.drainUpTo_failed (spare + 1)
  rw [hlast, List.append_nil] at hdrain
  exact ⟨after, hdrain⟩

theorem run_eq_of_drain_start {text : String} {marker : Option TokenType} {tokens : List Token}
    {error : Lexer.Error ε} {after : Session ε}
    (h : (session.start id text marker).drain id = (tokens, .failed error, after)) :
    session.lexer.run marker text.toList = ⟨tokens, .failed error⟩ := by
  cases hrun : session.lexer.run marker text.toList with
  | mk made ending =>
  cases ending with
  | finished last =>
    have hdrain : ∃ final, (session.start id text marker).drain id = (_, .stop, final) :=
      drain_start_of_finished hrun
    obtain ⟨final, hdrain⟩ := hdrain
    cases hdrain.symm.trans h
  | failed failure =>
    have hdrain : ∃ final,
        (session.start id text marker).drain id = (made, .failed failure, final) :=
      drain_start_of_failed hrun
    obtain ⟨final, hdrain⟩ := hdrain
    cases hdrain.symm.trans h
    rfl
  | stuck token =>
    obtain ⟨spare, middle, hmiddle, hdrain⟩ := session.drain_start_eq_append id text marker
    rw [hrun] at hmiddle
    have hanswer := congrArg (fun result ↦ result.2.1) (hdrain.symm.trans h)
    cases (hmiddle.drainUpTo_stuck _).symm.trans hanswer

end Session

end ArithLang
