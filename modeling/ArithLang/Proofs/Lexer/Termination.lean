import ArithLang.Proofs.Lexer.Cutting
import Mathlib.Data.List.Basic
import Mathlib.Logic.Relation

/-!
# When the reading of a text ends

A stream reads its text in turns. In each turn the first rule that applies takes its piece and its
action is asked for a token, and unless it fails the next turn begins behind the piece
(`Lexer.Passes`). A turn in which no rule applies is the last one, and so is one in which the
action fails. `Lexer.EndsAfter` counts the turns.

A turn that takes a piece uses up at least one character, or none at all. In the latter case
nothing has changed when the next turn begins, so it is the same turn again, and the reading never
ends: it gets stuck (`Lexer.GetsStuck`). If this does not happen there are no more turns than
characters, apart from the last one. So the reading ends exactly if it does not get stuck, and
where no pattern takes a piece of no characters it always ends.
-/

namespace ArithLang

variable {ε : Type}

namespace Lexer

variable {lexer : Lexer ε} {text rest : List Char} {turns : ℕ}

/-- A turn of the reading that is not the last one: a piece is taken, the action does not fail, and
`rest` is behind the piece. -/
def Passes (lexer : Lexer ε) (text rest : List Char) : Prop :=
  ∃ rule n outcome, lexer.Chooses text rule n ∧
    rule.apply (String.ofList (text.take n)) = .ok outcome ∧ rest = text.drop n

/-- The reading of a text ends after some turns, the last one included. -/
inductive EndsAfter (lexer : Lexer ε) : List Char → ℕ → Prop where
  /-- This turn is the last one. -/
  | last {text : List Char} (h : ∀ rest, ¬ lexer.Passes text rest) : EndsAfter lexer text 1
  /-- Further turns follow. -/
  | turn {text rest : List Char} {turns : ℕ} (h : lexer.Passes text rest)
      (hrest : EndsAfter lexer rest turns) : EndsAfter lexer text (turns + 1)

/-- In the reading of a text a place is reached where the rule that applies takes no characters, and
its action does not fail. -/
def GetsStuck (lexer : Lexer ε) (text : List Char) : Prop :=
  ∃ rest rule outcome, Relation.ReflTransGen lexer.Passes text rest ∧ lexer.Chooses rest rule 0 ∧
    rule.apply "" = .ok outcome

/-! ## One turn -/

theorem Passes.unique {other : List Char} (h : lexer.Passes text rest)
    (h' : lexer.Passes text other) : rest = other := by
  obtain ⟨rule, n, outcome, hchooses, -, rfl⟩ := h
  obtain ⟨rule', n', outcome', hchooses', -, rfl⟩ := h'
  rw [(hchooses.unique hchooses').2]

/-- A turn is passed where the lexer skips a piece or makes a token of it. -/
theorem passes_iff : lexer.Passes text rest ↔
    ∃ n, (lexer.cut text = .skip n ∨ ∃ token, lexer.cut text = .token token n) ∧
      rest = text.drop n := by
  constructor
  · rintro ⟨rule, n, outcome, hchooses, happly, rfl⟩
    have hmatch := firstMatch?_eq_some_iff.mpr hchooses
    refine ⟨n, ?_, rfl⟩
    match outcome with
    | none => exact .inl (by simp only [cut, hmatch, happly])
    | some token => exact .inr ⟨token, by simp only [cut, hmatch, happly]⟩
  · rintro ⟨n, hcut, rfl⟩
    rcases hmatch : lexer.firstMatch? text with _ | ⟨rule, m⟩
    · -- without a piece nothing is skipped, and no token is made
      simp only [cut, hmatch] at hcut
      split_ifs at hcut
      · simp at hcut
      · split at hcut <;> simp at hcut
    · have hchooses := firstMatch?_eq_some_iff.mp hmatch
      rcases happly : rule.apply (String.ofList (text.take m)) with error | _ | token
      · simp [cut, hmatch, happly] at hcut
      · obtain rfl : m = n := by simpa [cut, hmatch, happly] using hcut
        exact ⟨rule, m, _, hchooses, happly, rfl⟩
      · obtain rfl : m = n := by simpa [cut, hmatch, happly] using hcut
        exact ⟨rule, m, _, hchooses, happly, rfl⟩

theorem Passes.of_skip {n : ℕ} (h : lexer.cut text = .skip n) : lexer.Passes text (text.drop n) :=
  passes_iff.mpr ⟨n, .inl h, rfl⟩

theorem Passes.of_token {token : Token} {n : ℕ} (h : lexer.cut text = .token token n) :
    lexer.Passes text (text.drop n) :=
  passes_iff.mpr ⟨n, .inr ⟨token, h⟩, rfl⟩

theorem getsStuck_of_passes_self (h : lexer.Passes text text) : lexer.GetsStuck text := by
  obtain ⟨rule, n, outcome, hchooses, happly, hrest⟩ := h
  have hle := length_le_of_firstMatch? (firstMatch?_eq_some_iff.mpr hchooses)
  obtain rfl : n = 0 := by
    have hlength := congrArg List.length hrest
    rw [List.length_drop] at hlength
    omega
  exact ⟨text, rule, outcome, .refl, hchooses, happly⟩

/-! ## The end of the reading -/

theorem GetsStuck.of_passes (h : lexer.Passes text rest) (hstuck : lexer.GetsStuck rest) :
    lexer.GetsStuck text := by
  obtain ⟨place, rule, outcome, hreached, hplace⟩ := hstuck
  exact ⟨place, rule, outcome, .head h hreached, hplace⟩

/-- A reading that gets stuck does so also from a later place on. -/
private theorem GetsStuck.passes (hstuck : lexer.GetsStuck text) (h : lexer.Passes text rest) :
    lexer.GetsStuck rest := by
  obtain ⟨place, rule, outcome, hreached, hchooses, happly⟩ := hstuck
  rcases hreached.cases_head with rfl | ⟨next, hnext, hreached⟩
  · -- the turn leads nowhere else
    obtain rfl := h.unique ⟨rule, 0, outcome, hchooses, happly, rfl⟩
    exact ⟨_, rule, outcome, .refl, hchooses, happly⟩
  · obtain rfl := h.unique hnext
    exact ⟨place, rule, outcome, hreached, hchooses, happly⟩

theorem EndsAfter.not_getsStuck (h : lexer.EndsAfter text turns) : ¬ lexer.GetsStuck text := by
  induction h with
  | last hlast =>
    rintro ⟨place, rule, outcome, hreached, hchooses, happly⟩
    rcases hreached.cases_head with rfl | ⟨next, hnext, -⟩
    · exact hlast _ ⟨rule, 0, outcome, hchooses, happly, rfl⟩
    · exact hlast next hnext
  | turn hpasses _ ih => exact fun hstuck ↦ ih (hstuck.passes hpasses)

theorem EndsAfter.unique {others : ℕ} (h : lexer.EndsAfter text turns)
    (h' : lexer.EndsAfter text others) : turns = others := by
  induction h generalizing others with
  | last hlast =>
    rcases h' with _ | ⟨hpasses, -⟩
    · rfl
    · exact absurd hpasses (hlast _)
  | turn hpasses _ ih =>
    rcases h' with hlast | ⟨hpasses', hrest⟩
    · exact absurd hpasses (hlast _)
    · obtain rfl := hpasses.unique hpasses'
      rw [ih hrest]

/-- **A reading ends or gets stuck**, and it is described as such. If it ends, there are at most as
many turns as characters and one more. -/
theorem run_cases (lexer : Lexer ε) (marker : Option TokenType) (text : List Char) :
    ((∃ turns ≤ text.length + 1, lexer.EndsAfter text turns) ∧
      ∀ token, (lexer.run marker text).ending ≠ .stuck token) ∨
    (lexer.GetsStuck text ∧ ∃ token, (lexer.run marker text).ending = .stuck token) := by
  have hlast : ∀ {text : List Char}, (∀ rest, ¬ lexer.Passes text rest) →
      ∃ turns ≤ text.length + 1, lexer.EndsAfter text turns :=
    fun h ↦ ⟨1, Nat.le_add_left 1 _, .last h⟩
  have hturn : ∀ {text : List Char} {n : ℕ}, n + 1 ≤ text.length →
      lexer.Passes text (text.drop (n + 1)) →
      (∃ turns ≤ (text.drop (n + 1)).length + 1, lexer.EndsAfter (text.drop (n + 1)) turns) →
      ∃ turns ≤ text.length + 1, lexer.EndsAfter text turns := by
    rintro text n hle hpasses ⟨turns, hturns, hends⟩
    rw [List.length_drop] at hturns
    exact ⟨turns + 1, by omega, .turn hpasses hends⟩
  fun_induction Lexer.run lexer marker text with
  | case1 text hcut => exact .inl ⟨hlast fun rest h ↦ by simp [passes_iff, hcut] at h, by simp⟩
  | case2 text hcut => exact .inl ⟨hlast fun rest h ↦ by simp [passes_iff, hcut] at h, by simp⟩
  | case3 text c hcut => exact .inl ⟨hlast fun rest h ↦ by simp [passes_iff, hcut] at h, by simp⟩
  | case4 text error hcut =>
    exact .inl ⟨hlast fun rest h ↦ by simp [passes_iff, hcut] at h, by simp⟩
  | case5 text hcut => exact .inr ⟨getsStuck_of_passes_self (.of_skip hcut), none, rfl⟩
  | case6 text n hcut ih =>
    refine ih.imp (fun h ↦ ⟨?_, h.2⟩) fun h ↦ ⟨.of_passes (.of_skip hcut) h.1, h.2⟩
    exact hturn (length_le_of_cut_skip hcut) (.of_skip hcut) h.1
  | case7 text token hcut => exact .inr ⟨getsStuck_of_passes_self (.of_token hcut), token, rfl⟩
  | case8 text token n hcut rest ih =>
    refine ih.imp (fun h ↦ ⟨?_, h.2⟩) fun h ↦ ⟨.of_passes (.of_token hcut) h.1, h.2⟩
    exact hturn (length_le_of_cut_token hcut) (.of_token hcut) h.1

private theorem not_getsStuck_of_advances (h : lexer.Advances) : ¬ lexer.GetsStuck text := by
  rintro ⟨rest, rule, outcome, -, hchooses, -⟩
  exact Nat.lt_irrefl 0 (hchooses.pos h)

end Lexer

/-! ## Streams that end and streams that do not -/

namespace Session

/-- A stream that is stuck on a token hands it out for ever. -/
private theorem Holds.drainUpTo_repeats {session : Session ε} {id : String} {token : Token}
    (h : session.Holds id ⟨[], .stuck (some token)⟩) (limit : ℕ) :
    ∃ after, drainUpTo id limit session = (List.replicate limit token, .endless, after) := by
  induction limit generalizing session with
  | zero => exact ⟨session, rfl⟩
  | succ limit ih =>
    obtain ⟨middle, hnext, hmiddle⟩ := h.next
    obtain ⟨after, hafter⟩ := ih hmiddle
    exact ⟨after, by rw [drainUpTo_of_token hnext, hafter, List.replicate_succ]⟩

/-- A stream whose reading gets stuck does not end, however often it is asked. -/
private theorem Holds.drainUpTo_endless {session : Session ε} {id : String} {tokens : List Token}
    {token : Option Token} (h : session.Holds id ⟨tokens, .stuck token⟩) (limit : ℕ) :
    (drainUpTo id limit session).2.1 = .endless := by
  induction limit generalizing session tokens with
  | zero => rfl
  | succ limit ih =>
    rcases tokens with _ | ⟨first, tokens⟩
    · exact h.drainUpTo_stuck (limit + 1)
    · obtain ⟨middle, hnext, hmiddle⟩ := h.next
      rw [drainUpTo_of_token hnext]
      exact ih hmiddle

private theorem drain_start_of_not_stuck {session : Session ε} {text : String}
    {marker : Option TokenType}
    (h : ∀ token, (session.lexer.run marker text.toList).ending ≠ .stuck token) (id : String) :
    ∃ tokens answer after, (session.start id text marker).drain id = (tokens, answer, after) ∧
      (answer = .stop ∨ ∃ error, answer = .failed error) := by
  rcases hrun : session.lexer.run marker text.toList with ⟨tokens, last | error | token⟩
  · obtain ⟨after, hdrain⟩ : ∃ after, (session.start id text marker).drain id
        = (tokens ++ last.toList, .stop, after) := drain_start_of_finished hrun
    exact ⟨_, _, after, hdrain, .inl rfl⟩
  · obtain ⟨after, hdrain⟩ : ∃ after, (session.start id text marker).drain id
        = (tokens, .failed error, after) := drain_start_of_failed hrun
    exact ⟨_, _, after, hdrain, .inr ⟨error, rfl⟩⟩
  · exact absurd (congrArg Run.ending hrun) (h token)

/-- **When a stream ends.** The reading of its text ends exactly if it does not get stuck, and then
after at most one turn for each character and one more, and the stream that is asked for all tokens
stops or fails. A stream whose reading gets stuck never does, however often it is asked. No reading
gets stuck if no pattern takes a piece of no characters. -/
theorem drain_start_ends_iff (session : Session ε) (id text : String)
    (marker : Option TokenType) :
    ((∃ turns, session.lexer.EndsAfter text.toList turns) ↔
      ¬ session.lexer.GetsStuck text.toList) ∧
    (∀ turns, session.lexer.EndsAfter text.toList turns → turns ≤ text.length + 1 ∧
      ∃ tokens answer after, (session.start id text marker).drain id = (tokens, answer, after) ∧
        (answer = .stop ∨ ∃ error, answer = .failed error)) ∧
    (session.lexer.GetsStuck text.toList →
      ∀ limit, (drainUpTo id limit (session.start id text marker)).2.1 = .endless) ∧
    (session.lexer.Advances → ∃ turns, session.lexer.EndsAfter text.toList turns) := by
  have hholds := session.holds_start id text marker
  rcases session.lexer.run_cases marker text.toList with
    ⟨⟨turns, hturns, hends⟩, hnot⟩ | ⟨hstuck, token, hending⟩
  · refine ⟨⟨fun _ ↦ hends.not_getsStuck, fun _ ↦ ⟨turns, hends⟩⟩, fun others hothers ↦ ⟨?_, ?_⟩,
      fun hstuck ↦ absurd hstuck hends.not_getsStuck, fun _ ↦ ⟨turns, hends⟩⟩
    · rw [← hends.unique hothers, ← String.length_toList]
      exact hturns
    · exact drain_start_of_not_stuck hnot id
  · have hnever : ¬ ∃ turns, session.lexer.EndsAfter text.toList turns :=
      fun ⟨_, hends⟩ ↦ hends.not_getsStuck hstuck
    refine ⟨⟨fun hends ↦ absurd hends hnever, fun hnot ↦ absurd hstuck hnot⟩,
      fun turns hends ↦ absurd ⟨turns, hends⟩ hnever, fun _ limit ↦ ?_,
      fun hadvances ↦ absurd hstuck (Lexer.not_getsStuck_of_advances hadvances)⟩
    rcases hrun : session.lexer.run marker text.toList with ⟨tokens, ending⟩
    rw [hrun] at hending hholds
    obtain rfl : ending = .stuck token := hending
    exact hholds.drainUpTo_endless limit

/-- A lexer whose only rule takes no characters, and makes a token of them. -/
def standing : Lexer Empty := ⟨[⟨"E", .literal [], some .emit⟩]⟩

/-- The reading of the empty text by such a lexer does not end, and its stream hands out the same
token for ever. -/
theorem drainUpTo_standing :
    (¬ ∃ turns, standing.EndsAfter "".toList turns) ∧
    ∀ limit, ∃ after, drainUpTo "a" limit
      (({ lexer := standing } : Session Empty).start "a" "" none)
        = (List.replicate limit ⟨.named "E", .text ""⟩, .endless, after) := by
  have hcut : standing.cut [] = .token ⟨.named "E", .text ""⟩ 0 := rfl
  have hstuck : standing.GetsStuck "".toList := Lexer.getsStuck_of_passes_self (.of_token hcut)
  have hrun : standing.run none "".toList = ⟨[], .stuck (some ⟨.named "E", .text ""⟩)⟩ := by
    rw [Lexer.run_eq]
    rfl
  refine ⟨fun ⟨_, hends⟩ ↦ hends.not_getsStuck hstuck, fun limit ↦ ?_⟩
  have hholds := ({ lexer := standing } : Session Empty).holds_start "a" "" none
  rw [hrun] at hholds
  exact hholds.drainUpTo_repeats limit

end Session

end ArithLang
