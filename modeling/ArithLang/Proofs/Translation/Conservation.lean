import ArithLang.Proofs.Translation.Reading
import ArithLang.Proofs.Tree.Inorder
import Mathlib.Data.List.Basic

/-!
# No token is lost on the way to a translation

The tokens of an expression, but for its parentheses and the marker of its end, are the anchors of
its tree in order (`Phrase.inorder_eq_tokens`). A written form of the tree has the literals in the
same order, and for each operator the same text around the operands. So what is found in a
translation can be counted in the tokens: the rows of digits are the texts of the integer tokens,
and every token of an operator brings along the parentheses of its form.

All of this is a matter of the characters that a frame is made of, none of which is a digit. The
program around a C expression has one digit of its own, in the status that it returns.
-/

namespace ArithLang

/-! ## Rows of digits in a text -/

namespace Text

theorem not_isDigit_of_all {text : List Char} (h : text.all (fun c ↦ !isDigit c) = true) :
    ∀ c ∈ text, ¬ isDigit c = true := by
  simpa using h

/-- The longest rows of digits in a text, from left to right. -/
def digitRows (text : List Char) : List (List Char) :=
  (text.splitOnP fun c ↦ !isDigit c).filter fun row ↦ !row.isEmpty

theorem digitRows_append_cons {c : Char} (hc : ¬ isDigit c = true) (u v : List Char) :
    digitRows (u ++ c :: v) = digitRows u ++ digitRows v := by
  have hsplit : (!isDigit c) = true := by simpa using hc
  rw [digitRows, List.splitOnP_append_cons u v hsplit, List.filter_append]
  rfl

private theorem digitRows_digits {digits : List Char} (hne : digits ≠ [])
    (hall : digits.all isDigit = true) : digitRows digits = [digits] := by
  have hdigits : ∀ c ∈ digits, (!isDigit c) = false := by simpa using hall
  rw [digitRows, List.splitOnP_eq_singleton hdigits, List.filter_cons_of_pos (by simpa using hne),
    List.filter_nil]

theorem digitRows_append_left {gap : List Char} (hgap : ∀ c ∈ gap, ¬ isDigit c = true)
    (v : List Char) : digitRows (gap ++ v) = digitRows v := by
  induction gap with
  | nil => rfl
  | cons c gap ih =>
    rw [List.forall_mem_cons] at hgap
    exact (digitRows_append_cons hgap.1 [] (gap ++ v)).trans (ih hgap.2)

theorem digitRows_append_gap {gap : List Char} (hne : gap ≠ [])
    (hgap : ∀ c ∈ gap, ¬ isDigit c = true) (u v : List Char) :
    digitRows (u ++ (gap ++ v)) = digitRows u ++ digitRows v := by
  obtain ⟨c, rest, rfl⟩ := List.exists_cons_of_ne_nil hne
  rw [List.forall_mem_cons] at hgap
  rw [List.cons_append, digitRows_append_cons hgap.1, digitRows_append_left hgap.2]

end Text

/-- The texts of the integer tokens among some tokens, in order. -/
def Token.lexemes (tokens : List Token) : List (List Char) :=
  (tokens.filter (isAmong [.int])).map fun token ↦ token.payload.display.toList

/-- The number of tokens of operators among some tokens. -/
def Token.operators (tokens : List Token) : ℕ := tokens.countP (isAmong [.plus, .times, .pow])

/-! ## Written forms -/

namespace Frame

variable {frame : Frame} {text : List Char} {tree : Node}

/-- The text of an operation that is not that of its operands. -/
def around (frame : Frame) (operator : Operator) : List Char :=
  frame.before operator ++ (frame.between operator ++ frame.behind operator)

/-- Text without digits keeps the operands of an operation apart from each other and from what is
behind them. -/
structure Separates (frame : Frame) : Prop where
  /-- There is something between the operands. -/
  between_ne_nil : ∀ operator, frame.between operator ≠ []
  /-- There is something behind them. -/
  behind_ne_nil : ∀ operator, frame.behind operator ≠ []
  /-- There is no digit around them. -/
  not_isDigit : ∀ operator, ∀ c ∈ frame.around operator, ¬ Text.isDigit c = true

private theorem Separates.digitRows_operation (hframe : frame.Separates) (operator : Operator)
    (u v : List Char) :
    Text.digitRows
        (frame.before operator ++ (u ++ (frame.between operator ++ (v ++ frame.behind operator))))
      = Text.digitRows u ++ Text.digitRows v := by
  have haround := hframe.not_isDigit operator
  rw [around, List.forall_mem_append, List.forall_mem_append] at haround
  obtain ⟨hbefore, hbetween, hbehind⟩ := haround
  have hlast := Text.digitRows_append_gap (hframe.behind_ne_nil operator) hbehind v []
  rw [List.append_nil] at hlast
  rw [Text.digitRows_append_left hbefore,
    Text.digitRows_append_gap (hframe.between_ne_nil operator) hbetween, hlast]
  exact congrArg _ (List.append_nil _)

/-- **The literals stand in a written form** as the integer tokens among the anchors do. -/
theorem Reads.digitRows_eq (hframe : frame.Separates) (h : frame.Reads text tree) :
    Text.digitRows text = Token.lexemes tree.inorder := by
  induction h with
  | literal literal => exact Text.digitRows_digits literal.ne_nil literal.all_isDigit
  | @operation operator _ _ _ _ _ _ ihleft ihright =>
    have hsign : ¬ operator.token.isAmong [.int] = true := by
      rw [Token.isAmong_iff operator.token_type]
      cases operator <;> decide
    rw [hframe.digitRows_operation, ihleft, ihright, Node.inorder_binary, Token.lexemes,
      Token.lexemes, Token.lexemes, List.filter_append, List.filter_append, Option.toList_some,
      List.filter_cons_of_neg hsign, List.filter_nil, List.nil_append, List.map_append]

theorem count_operation (frame : Frame) (operator : Operator) (u v : List Char) (c : Char) :
    (frame.before operator ++ (u ++ (frame.between operator ++ (v ++ frame.behind operator)))).count
        c = u.count c + (frame.around operator).count c + v.count c := by
  simp only [around, List.count_append]
  omega

theorem count_literal {c : Char} (hc : ¬ Text.isDigit c = true) (literal : Literal) :
    literal.lexeme.toList.count c = 0 := by
  rw [List.count_eq_zero]
  exact fun hmem ↦ hc (List.all_eq_true.mp literal.all_isDigit c hmem)

/-- A character that stands once around the operands of every operation is found once for each token
of an operator. -/
theorem Reads.count_eq_operators {c : Char} (hc : ¬ Text.isDigit c = true)
    (hone : ∀ operator, (frame.around operator).count c = 1) (h : frame.Reads text tree) :
    text.count c = Token.operators tree.inorder := by
  induction h with
  | literal literal => exact count_literal hc literal
  | @operation operator _ _ _ _ _ _ ihleft ihright =>
    have hsign : operator.token.isAmong [.plus, .times, .pow] = true := by
      rw [Token.isAmong_iff operator.token_type]
      cases operator <;> decide
    rw [count_operation, ihleft, ihright, hone, Node.inorder_binary, Token.operators,
      Token.operators, Token.operators, List.countP_append, Option.toList_some,
      List.singleton_append, List.countP_cons_of_pos hsign]
    omega

/-- Characters that stand equally often around the operands of every operation are equally often in
a written form. -/
private theorem Reads.count_eq_count {c d : Char} (hc : ¬ Text.isDigit c = true)
    (hd : ¬ Text.isDigit d = true)
    (hequal : ∀ operator, (frame.around operator).count c = (frame.around operator).count d)
    (h : frame.Reads text tree) : text.count c = text.count d := by
  induction h with
  | literal literal => rw [count_literal hc, count_literal hd]
  | operation _ _ ihleft ihright =>
    rw [count_operation, count_operation, ihleft, ihright, hequal]

theorem Reads.not_mem {c : Char} (hc : ¬ Text.isDigit c = true)
    (haround : ∀ operator, c ∉ frame.around operator) (h : frame.Reads text tree) : c ∉ text := by
  rw [← List.count_eq_zero]
  induction h with
  | literal literal => exact count_literal hc literal
  | @operation operator _ _ _ _ _ _ ihleft ihright =>
    rw [count_operation, ihleft, ihright, List.count_eq_zero.mpr (haround operator)]

end Frame

theorem Lisp.separates_frame : Lisp.frame.Separates where
  between_ne_nil operator := by cases operator <;> decide
  behind_ne_nil operator := by cases operator <;> decide
  not_isDigit operator := Text.not_isDigit_of_all (by cases operator <;> decide +kernel)

theorem C.separates_frame : C.frame.Separates where
  between_ne_nil operator := by cases operator <;> decide
  behind_ne_nil operator := by cases operator <;> decide
  not_isDigit operator := Text.not_isDigit_of_all (by cases operator <;> decide +kernel)

/-! ## Translations of texts -/

namespace Lisp

private theorem digitRows_header_append (lisp : String) :
    Text.digitRows (header ++ lisp).toList = Text.digitRows lisp.toList := by
  have hheader : ∀ c ∈ header.toList, ¬ Text.isDigit c = true :=
    Text.not_isDigit_of_all (by decide +kernel)
  rw [String.toList_append, Text.digitRows_append_left hheader]

end Lisp

namespace C

private theorem digitRows_program (c : String) :
    Text.digitRows (opening ++ c ++ closing).toList = Text.digitRows c.toList ++ [['0']] := by
  have hclosing : ∃ rest, closing.toList = ')' :: rest ∧ Text.digitRows rest = [['0']] :=
    ⟨_, rfl, by decide +kernel⟩
  obtain ⟨rest, hrest, hrows⟩ := hclosing
  rw [String.toList_append, String.toList_append, List.append_assoc,
    Text.digitRows_append_left (Text.not_isDigit_of_all (by decide +kernel)), hrest,
    Text.digitRows_append_cons (by decide), hrows]

private theorem count_program {c : String} (h : c.toList.count '(' = c.toList.count ')') :
    (opening ++ c ++ closing).toList.count '(' = (opening ++ c ++ closing).toList.count ')' := by
  have hopening : opening.toList.count '(' = opening.toList.count ')' + 1 := by decide
  have hclosing : closing.toList.count ')' = closing.toList.count '(' + 1 := by decide
  simp only [String.toList_append, List.count_append]
  omega

end C

namespace Expression

/-- **No token is lost, repeated or moved.** The anchors of the tree in order are the tokens of the
expression without parentheses and the marker. The Lisp text has one pair of parentheses for each
token of an operator, the parentheses of the C text are equally many, and the literals are the
integer tokens in both; only the status that the C program returns is a digit of its own. -/
theorem tokens_conserved {source : String} {tree : Node} {before after : List Log.Entry}
    (hparse : parse (.text source) before = .ok tree after) :
    tree.inorder
        = (Scanner.tokens source).filter (fun token ↦ !token.isAmong [.openPar, .closePar, .eof]) ∧
    (∃ lisp : String, (∀ log, answer (toLisp (.text source)) log = .ok (Lisp.header ++ lisp)) ∧
      lisp.toList.count '(' = Token.operators (Scanner.tokens source) ∧
      lisp.toList.count ')' = Token.operators (Scanner.tokens source) ∧
      Text.digitRows lisp.toList = Token.lexemes (Scanner.tokens source) ∧
      Text.digitRows (Lisp.header ++ lisp).toList = Token.lexemes (Scanner.tokens source)) ∧
    ∃ c : String, (∀ log, answer (toC (.text source)) log = .ok (C.opening ++ c ++ C.closing)) ∧
      c.toList.count '(' = c.toList.count ')' ∧
      (C.opening ++ c ++ C.closing).toList.count '('
        = (C.opening ++ c ++ C.closing).toList.count ')' ∧
      Text.digitRows c.toList = Token.lexemes (Scanner.tokens source) ∧
      Text.digitRows (C.opening ++ c ++ C.closing).toList
        = Token.lexemes (Scanner.tokens source) ++ [['0']] := by
  obtain ⟨body, rfl, hphrase⟩ := exists_phrase_of_parse hparse
  have hspelled := Node.Spelled.of_pieces hphrase
  obtain ⟨lisp, hlisp, hreads⟩ := hspelled.exists_write_reads Lisp.framed_writer
  obtain ⟨c, hc, hmeans⟩ := hspelled.exists_write_reads C.framed_writer
  have hoperators : Token.operators (Scanner.tokens source) = Token.operators body.inorder := by
    rw [Token.operators, Token.operators, List.countP_eq_length_filter,
      List.countP_eq_length_filter, hphrase.filter_tokens (by decide)]
  have hlexemes : Token.lexemes (Scanner.tokens source) = Token.lexemes body.inorder := by
    rw [Token.lexemes, Token.lexemes, hphrase.filter_tokens (by decide)]
  have hlisprows := hreads.digitRows_eq Lisp.separates_frame
  have hcrows := hmeans.digitRows_eq C.separates_frame
  have hpairs : ∀ operator,
      (C.frame.around operator).count '(' = (C.frame.around operator).count ')' :=
    fun operator ↦ by cases operator <;> decide
  have hbalanced := hmeans.count_eq_count (by decide) (by decide) hpairs
  rw [hoperators, hlexemes]
  refine ⟨?_, ⟨lisp, answer_translate hphrase hlisp, ?_, ?_, hlisprows, ?_⟩,
    ⟨c, answer_translate hphrase hc, hbalanced, C.count_program hbalanced, hcrows, ?_⟩⟩
  · simp [hphrase.inorder_eq_tokens]
  · exact hreads.count_eq_operators (by decide) fun operator ↦ by cases operator <;> decide
  · exact hreads.count_eq_operators (by decide) fun operator ↦ by cases operator <;> decide
  · rw [Lisp.digitRows_header_append, hlisprows]
  · rw [C.digitRows_program, hcrows]

theorem tokens_conserved_powerOfSum :
    (∃ after, parse (.text "(03+2)**2") [] = .ok (.prog none powerOfSum) after) ∧
    (Node.prog none powerOfSum).inorder
      = [.ofCategory .int "03", .ofCategory .plus "+", .ofCategory .int "2",
        .ofCategory .pow "**", .ofCategory .int "2"] ∧
    (∃ lisp : String, answer (toLisp (.text "(03+2)**2")) [] = .ok (Lisp.header ++ lisp) ∧
      lisp.toList.count '(' = 2 ∧ Text.digitRows lisp.toList = [['0', '3'], ['2'], ['2']]) ∧
    ∃ c : String, answer (toC (.text "(03+2)**2")) [] = .ok (C.opening ++ c ++ C.closing) ∧
      (C.opening ++ c ++ C.closing).toList.count '('
        = (C.opening ++ c ++ C.closing).toList.count ')' ∧
      Text.digitRows c.toList = [['0', '3'], ['2'], ['2']] := by
  obtain ⟨after, hparse⟩ := (parse_eq_ok_iff []).mpr phrase_powerOfSum
  obtain ⟨hanchors, ⟨lisp, hlisp, hopening, -, hrows, -⟩, ⟨c, hc, -, hbalanced, hcrows, -⟩⟩ :=
    tokens_conserved hparse
  have htokens : Scanner.tokens "(03+2)**2" = [.ofCategory .openPar "(", .ofCategory .int "03",
      .ofCategory .plus "+", .ofCategory .int "2", .ofCategory .closePar ")", .ofCategory .pow "**",
      .ofCategory .int "2", .marker (.category .eof)] := by
    decide +kernel
  rw [htokens] at hanchors hopening hrows hcrows
  exact ⟨⟨after, hparse⟩, hanchors, ⟨lisp, hlisp [], hopening, hrows⟩, c, hc [], hbalanced, hcrows⟩

end Expression

end ArithLang
