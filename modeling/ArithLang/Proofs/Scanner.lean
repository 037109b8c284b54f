import ArithLang.Parser
import ArithLang.Proofs.Lexer.Stream
import ArithLang.Proofs.Lookahead
import ArithLang.Proofs.Phrase
import Mathlib.Data.List.Basic

/-!
# What the scanner makes of a text

At each place of a text the scanner has something to do: `front` says what, by the first character
and those behind it. So the reading of a text never fails and ends with the marker, and the source
that it is for the parser hands out tokens up to that marker. Every token in front of the marker is
made of a piece of the text (`Piece`), an integer token of digits; so the tokens are decimal, as the
parser needs them to be.
-/

namespace ArithLang

namespace Scanner

variable {ε : Type}

/-- What the scanner does with a text that starts with `c`. -/
def front (c : Char) (rest : List Char) : Cut ε :=
  if Text.isDigit c = true then
    .token (.ofCategory .int (String.ofList (c :: rest.takeWhile Text.isDigit)))
      ((rest.takeWhile Text.isDigit).length + 1)
  else if c = '+' then .token (.ofCategory .plus "+") 1
  else if c = '*' then
    if rest.head? = some '*' then .token (.ofCategory .pow "**") 2
    else .token (.ofCategory .times "*") 1
  else if c = '(' then .token (.ofCategory .openPar "(") 1
  else if c = ')' then .token (.ofCategory .closePar ")") 1
  else if Text.isBlank c = true then .skip 1
  else .token (.ofCategory .badToken (String.ofList [c])) 1

@[simp] theorem matchLength_digits_cons (c : Char) (rest : List Char) :
    Pattern.digits.matchLength (c :: rest)
      = if Text.isDigit c = true then some ((rest.takeWhile Text.isDigit).length + 1)
        else none := by
  by_cases hdigit : Text.isDigit c = true
  · simp [Pattern.digits, Pattern.oneOrMore, Pattern.andThen, Pattern.one, Pattern.many, hdigit,
      Nat.add_comm]
  · simp [Pattern.digits, Pattern.oneOrMore, Pattern.andThen, Pattern.one, hdigit]

@[simp] private theorem cut_nil : (lexer : Lexer ε).cut [] = .finished := rfl

theorem cut_digits {c : Char} (hdigit : Text.isDigit c = true) (rest : List Char) :
    (lexer : Lexer ε).cut (c :: rest)
      = .token (.ofCategory .int (String.ofList (c :: rest.takeWhile Text.isDigit)))
        ((rest.takeWhile Text.isDigit).length + 1) := by
  have hmatch : (lexer : Lexer ε).firstMatch? (c :: rest)
      = some (⟨"INT", .digits, some (.emitCategory .int)⟩,
        (rest.takeWhile Text.isDigit).length + 1) := by
    simp only [Lexer.firstMatch?, lexer, rules, List.findSome?_cons, matchLength_digits_cons,
      if_pos hdigit, Option.map_some]
  have htake : (c :: rest).take ((rest.takeWhile Text.isDigit).length + 1)
      = c :: rest.takeWhile Text.isDigit := by
    rw [List.take_succ_cons, ← List.prefix_iff_eq_take.mp (List.takeWhile_prefix _)]
  simp only [Lexer.cut, hmatch, htake]
  rfl

theorem cut_other {c : Char} {rest : List Char} (hdigit : ¬ Text.isDigit c = true)
    (hsign : c ∉ ['+', '*', '(', ')']) :
    (lexer : Lexer ε).cut (c :: rest)
      = if Text.isBlank c = true then .skip 1
        else .token (.ofCategory .badToken (String.ofList [c])) 1 := by
  simp only [List.mem_cons, List.not_mem_nil, or_false, not_or] at hsign
  obtain ⟨hplus, htimes, hopening, hclosing⟩ := hsign
  by_cases hblank : Text.isBlank c = true
  · simp [Lexer.cut, Lexer.firstMatch?, lexer, rules, Pattern.literal, Pattern.blank, Pattern.one,
      Rule.apply, hdigit, Ne.symm hplus, Ne.symm htimes, Ne.symm hopening, Ne.symm hclosing, hblank]
  · have hfeed : c ≠ '\n' := by
      rintro rfl
      exact hblank (by decide)
    simp [Lexer.cut, Lexer.firstMatch?, lexer, rules, Pattern.literal, Pattern.blank, Pattern.any,
      Pattern.one, Rule.apply, Action.emitCategory, hdigit, Ne.symm hplus, Ne.symm htimes,
      Ne.symm hopening, Ne.symm hclosing, hblank, hfeed]

/-- **What the scanner does** at a place that is not the end of the text. -/
@[simp] theorem cut_cons (c : Char) (rest : List Char) :
    (lexer : Lexer ε).cut (c :: rest) = front c rest := by
  rw [front]
  by_cases hdigit : Text.isDigit c = true
  · rw [if_pos hdigit, cut_digits hdigit]
  · rw [if_neg hdigit]
    by_cases hsign : c ∈ ['+', '*', '(', ')']
    · simp only [List.mem_cons, List.not_mem_nil, or_false] at hsign
      rcases hsign with rfl | rfl | rfl | rfl
      · rfl
      · -- the sign of exponentiation is tried before that of multiplication
        cases rest with
        | nil => rfl
        | cons d rest =>
          by_cases hd : d = '*'
          · subst hd
            rfl
          · simp [Lexer.cut, Lexer.firstMatch?, lexer, rules, hdigit, Pattern.literal, Rule.apply,
              Action.emitCategory, hd, Ne.symm hd]
      · rfl
      · rfl
    · rw [cut_other hdigit hsign]
      simp only [List.mem_cons, List.not_mem_nil, or_false, not_or] at hsign
      rw [if_neg hsign.1, if_neg hsign.2.1, if_neg hsign.2.2.1, if_neg hsign.2.2.2]

/-! ## Whole texts -/

/-- A token that the scanner makes of a piece of text: it is of another category than the marker,
and carries the piece, which is not empty. -/
structure Piece (token : Token) : Prop where
  /-- The token is made of a text. -/
  made : ∃ category lexeme, category ≠ .eof ∧ lexeme ≠ "" ∧ token = .ofCategory category lexeme
  /-- An integer token is made of digits. -/
  decimal : token.Decimal

theorem Piece.of_ne {category : Category} {lexeme : String} (heof : category ≠ .eof)
    (hint : category ≠ .int) (hlexeme : lexeme ≠ "") : Piece (.ofCategory category lexeme) where
  made := ⟨category, lexeme, heof, hlexeme, rfl⟩
  decimal htype := absurd (TokenType.category.inj htype) hint

private theorem Piece.of_digits {digits : List Char} (hne : digits ≠ [])
    (hall : digits.all Text.isDigit = true) :
    Piece (.ofCategory .int (String.ofList digits)) where
  made := ⟨.int, String.ofList digits, by decide, by simpa using hne, rfl⟩
  decimal _ := ⟨⟨String.ofList digits, by simpa using hne, by rwa [String.toList_ofList]⟩, rfl⟩

private theorem front_cases (c : Char) (rest : List Char) :
    (front c rest : Cut ε) = .skip 1 ∨
      ∃ token n, (front c rest : Cut ε) = .token token (n + 1) ∧ Piece token := by
  by_cases hdigit : Text.isDigit c = true
  · rw [front, if_pos hdigit]
    refine .inr ⟨_, _, rfl, .of_digits (List.cons_ne_nil _ _) ?_⟩
    rw [List.all_cons, hdigit, List.all_takeWhile]
    rfl
  · rw [front, if_neg hdigit]
    split_ifs
    · exact .inr ⟨_, 0, rfl, .of_ne (by decide) (by decide) (by decide)⟩
    · exact .inr ⟨_, 1, rfl, .of_ne (by decide) (by decide) (by decide)⟩
    · exact .inr ⟨_, 0, rfl, .of_ne (by decide) (by decide) (by decide)⟩
    · exact .inr ⟨_, 0, rfl, .of_ne (by decide) (by decide) (by decide)⟩
    · exact .inr ⟨_, 0, rfl, .of_ne (by decide) (by decide) (by decide)⟩
    · exact .inl rfl
    · exact .inr ⟨_, 0, rfl, .of_ne (by decide) (by decide) (by simp)⟩

/-- The reading of a text ends with the marker, and its tokens are made of pieces of the text. -/
theorem run_spec (text : List Char) :
    ((lexer : Lexer ε).run (some marker) text).ending = .finished (some (.marker marker)) ∧
      ∀ token ∈ ((lexer : Lexer ε).run (some marker) text).tokens, Piece token := by
  induction hlength : text.length using Nat.strongRecOn generalizing text with
  | ind length ih =>
    subst hlength
    cases text with
    | nil =>
      rw [Lexer.run_eq, cut_nil]
      exact ⟨rfl, fun token htoken ↦ absurd htoken List.not_mem_nil⟩
    | cons c rest =>
      have hshorter : ∀ n, ((c :: rest).drop (n + 1)).length < (c :: rest).length := by
        intro n
        rw [List.length_drop, List.length_cons]
        omega
      have hcut := cut_cons (ε := ε) c rest
      rcases front_cases (ε := ε) c rest with hskip | ⟨token, n, htoken, hpiece⟩
      · rw [Lexer.run_eq, hcut, hskip]
        exact ih _ (hshorter 0) _ rfl
      · rw [Lexer.run_eq, hcut, htoken]
        obtain ⟨hending, htokens⟩ := ih _ (hshorter n) _ rfl
        exact ⟨hending, List.forall_mem_cons.mpr ⟨hpiece, htokens⟩⟩

theorem tokens_eq (text : String) :
    tokens text = (run text : Run (Lexer.Error Empty)).tokens ++ [.marker marker] := by
  have hending := (run_spec (ε := Empty) text.toList).1
  rw [tokens]
  simp only [run, hending]
  rfl

/-- The tokens that are made of the pieces of a text. -/
def pieces (text : List Char) : List Token := ((lexer : Lexer Empty).run (some marker) text).tokens

theorem tokens_eq_pieces (text : String) :
    tokens text = pieces text.toList ++ [.marker marker] :=
  tokens_eq text

@[simp] theorem pieces_nil : pieces [] = [] := by rw [pieces, Lexer.run_eq, cut_nil]

/-- A stream over a text hands out the tokens of the text and stops, whatever its lexer has been
asked for before. -/
theorem drain_start {session : Session Empty} (hlexer : session.lexer = lexer) (id text : String) :
    ∃ after, (session.start id text (some marker)).drain id = (tokens text, .stop, after) := by
  have hrun : session.lexer.run (some marker) text.toList
      = ⟨(run text : Run (Lexer.Error Empty)).tokens, .finished (some (.marker marker))⟩ := by
    rw [hlexer, ← (run_spec (ε := Empty) text.toList).1]
    rfl
  rw [tokens_eq]
  exact Session.drain_start_of_finished hrun

theorem decimal_of_mem_tokens {text : String} {token : Token} (h : token ∈ tokens text) :
    token.Decimal := by
  rw [tokens_eq] at h
  rcases List.mem_append.mp h with h | h
  · exact ((run_spec text.toList).2 token h).decimal
  · rw [List.mem_singleton.mp h]
    decide

theorem exists_categories (text : String) :
    ∃ front : List Category, Category.eof ∉ front ∧
      (tokens text).map Token.type = (front ++ [Category.eof]).map .category := by
  have hpieces := (run_spec (ε := Empty) text.toList).2
  rw [tokens_eq, run]
  generalize ((lexer : Lexer Empty).run (some marker) text.toList).tokens = pieces at hpieces ⊢
  induction pieces with
  | nil => exact ⟨[], List.not_mem_nil, rfl⟩
  | cons token pieces ih =>
    rw [List.forall_mem_cons] at hpieces
    obtain ⟨category, lexeme, heof, -, rfl⟩ := hpieces.1.made
    obtain ⟨front, hfront, htypes⟩ := ih hpieces.2
    refine ⟨category :: front, ?_, congrArg (_ :: ·) htypes⟩
    rw [List.mem_cons, not_or]
    exact ⟨heof.symm, hfront⟩

theorem supplies_source (text : String) :
    (Parser.source text : Source (Lexer.Error Empty)).Supplies (tokens text) :=
  ⟨some (.marker marker), (run_spec text.toList).1, tokens_eq text⟩

end Scanner

end ArithLang
