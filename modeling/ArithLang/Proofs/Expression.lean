import ArithLang.Expression
import ArithLang.Proofs.Evaluation
import ArithLang.Proofs.Parser
import ArithLang.Proofs.Scanner

/-!
# How the operations on a text end

A text is parsed if its tokens are a sentence, and rejected otherwise; no other failure can come of
a text. The evaluation of a text that is parsed fails as that of its tree does.

The failures that are meant to come of a text are `Announced`: the text is rejected, a literal is
too long, or a power is out of range. There is one more, when the report on a power cannot be
written. `Overlong` says of a text that a power is tried with an operand of more digits than can be
written, and `evaluate_text_cases` that this is where the report fails.
-/

namespace ArithLang.Expression

variable {text : String} {anchor : Option Token} {body : Node}

/-- The failures that the library is meant to answer a text with. -/
def Failure.Announced : Failure → Prop
  | .parsing (.rejected _) => True
  | .evaluation (.literalTooLong _) => True
  | .evaluation (.outOfRange _ _) => True
  | _ => False

/-- The text is an expression in whose evaluation a power is tried with an operand that is too long
to be written. -/
def Overlong (text : String) : Prop :=
  ∃ tree b e, Sentence (Scanner.tokens text) tree ∧ tree.Raises b e ∧
    ¬ (Text.isWritable b = true ∧ Text.isWritable e = true)

/-! ## Parsing -/

theorem parseText_eq_ok (h : Sentence (Scanner.tokens text) body) (log : List Log.Entry) :
    ∃ after, parseText text log = .ok (.prog none body) after := by
  obtain ⟨w, marker, rest, htokens, hmarker, hphrase⟩ := h
  have hsource := Scanner.supplies_source text
  rw [htokens] at hsource
  obtain ⟨after, hparse, -⟩ :=
    Parser.parseFrom_eq_ok hsource hmarker hphrase { log := .source text :: log }
  refine ⟨after.log, ?_⟩
  rw [Parser.parseFrom] at hparse
  simp only [parseText, hparse]

theorem parseText_eq_error (h : ¬ ∃ tree, Sentence (Scanner.tokens text) tree)
    (log : List Log.Entry) :
    ∃ error after, parseText text log = .error (.parsing (.rejected error)) after := by
  rcases Parser.parseFrom_cases (Scanner.supplies_source text)
    (fun token htoken ↦ Scanner.decimal_of_mem_tokens htoken) { log := .source text :: log } with
    ⟨w, marker, rest, tree, _, hsplit, hmarker, hphrase, -, -⟩ |
      ⟨_, rest, expected, after, -, hparse, -⟩
  · exact absurd ⟨tree, w, marker, rest, hsplit, hmarker, hphrase⟩ h
  · refine ⟨.unexpected expected (rest.head?.map Token.type), after.log, ?_⟩
    rw [Parser.parseFrom] at hparse
    simp only [parseText, hparse]

section Outcomes

variable {log after : List Log.Entry}

theorem tryParse_of_ok {tree : Node} (h : parseText text log = .ok tree after) :
    tryParse (.text text) log = .ok (.ok tree) after := by
  simp only [tryParse, parse, h]

theorem tryParse_of_rejected {error : ParseError}
    (h : parseText text log = .error (.parsing (.rejected error)) after) :
    tryParse (.text text) log = .ok (.error error) (.rejected error.message :: after) := by
  simp only [tryParse, parse, h]

theorem checkSyntax_of_tryParse {outcome : Except ParseError Node}
    (h : tryParse (.text text) log = .ok outcome after) :
    checkSyntax (.text text) log = .ok outcome.isOk after :=
  bind_eq_of_ok h

end Outcomes

/-- A text is parsed or rejected, with no third outcome. -/
theorem parseText_cases (text : String) (log : List Log.Entry) :
    (∃ body after, parseText text log = .ok (.prog none body) after) ∨
      ∃ reason after, parseText text log = .error (.parsing (.rejected reason)) after := by
  by_cases h : ∃ tree, Sentence (Scanner.tokens text) tree
  · obtain ⟨body, hbody⟩ := h
    exact .inl ⟨body, parseText_eq_ok hbody log⟩
  · exact .inr (parseText_eq_error h log)

private theorem exists_tryParse_eq_ok (text : String) (log : List Log.Entry) :
    ∃ outcome after, tryParse (.text text) log = .ok outcome after := by
  rcases parseText_cases text log with ⟨body, after, hok⟩ | ⟨reason, after, herror⟩
  · exact ⟨_, _, tryParse_of_ok hok⟩
  · exact ⟨_, _, tryParse_of_rejected herror⟩

/-- **Every text is accepted or rejected.** Its tokens come to an end with the one marker, behind
tokens that are made of pieces of the text; those of them that are integers have a literal; and
parsing answers a root or a reason. -/
theorem text_accepted_or_rejected (text : String) :
    (∃ pieces : List Token, Scanner.tokens text = pieces ++ [.marker (.category .eof)] ∧
      ∀ token ∈ pieces, token.type ≠ .category .eof ∧
        ∃ lexeme : String, token.payload = .text lexeme ∧ lexeme ≠ "") ∧
    (∀ (session : Session Empty) (id : String), ∃ after,
      (({ session with lexer := Scanner.lexer } : Session Empty).start id text
        (some (.category .eof))).drain id = (Scanner.tokens text, .stop, after)) ∧
    (∀ token ∈ Scanner.tokens text, token.type = .category .int →
      ∃ literal, Literal.ofPayload token.payload = .ok literal) ∧
    ∀ log,
      ((∃ body after, parse (.text text) log = .ok (.prog none body) after) ∨
        ∃ reason after, parse (.text text) log = .error (.parsing (.rejected reason)) after) ∧
      (∃ outcome after, tryParse (.text text) log = .ok outcome after) ∧
      ∃ answer after, checkSyntax (.text text) log = .ok answer after := by
  have hpieces := (Scanner.run_spec (ε := Empty) text.toList).2
  refine ⟨⟨_, Scanner.tokens_eq text, fun token htoken ↦ ?_⟩, fun session id ↦ ?_,
    fun token htoken htype ↦ ?_, fun log ↦ ?_⟩
  · obtain ⟨category, lexeme, heof, hlexeme, rfl⟩ := (hpieces token htoken).made
    exact ⟨fun htype ↦ heof (TokenType.category.inj htype), lexeme, rfl, hlexeme⟩
  · exact Scanner.drain_start rfl id text
  · obtain ⟨literal, hpayload⟩ := Scanner.decimal_of_mem_tokens htoken htype
    exact ⟨literal, by rw [hpayload, literal.ofPayload_lexeme]⟩
  · obtain ⟨outcome, after, htry⟩ := exists_tryParse_eq_ok text log
    exact ⟨parseText_cases text log, ⟨outcome, after, htry⟩,
      outcome.isOk, after, checkSyntax_of_tryParse htry⟩

/-! ## Evaluating a tree -/

theorem evaluateTree_of_ok {value : ℕ} (h : body.evaluate = .ok value) (log : List Log.Entry) :
    evaluateTree (.prog anchor body) log = .ok value log := by
  have hroot : (Node.prog anchor body).evaluate = .ok value := h
  rw [evaluateTree, hroot]
  rfl

theorem evaluateTree_of_error {failure : Evaluation.Failure} (h : body.evaluate = .error failure)
    (log : List Log.Entry) :
    ∃ after, evaluateTree (.prog anchor body) log = .error (.evaluation failure) after := by
  have hroot : (Node.prog anchor body).evaluate = .error failure := h
  rw [evaluateTree, hroot]
  cases failure with
  | outOfRange base exponent => exact ⟨.overflow base exponent :: log, rfl⟩
  | literalTooLong digits => exact ⟨log, rfl⟩
  | unwritable base exponent => exact ⟨log, rfl⟩
  | meaningless => exact ⟨log, rfl⟩

/-- The tree of an expression has a value or fails in one of the announced ways, unless it fails to
report on a power. -/
theorem evaluate_cases (h : body.Meaningful) :
    ((¬ ∃ b e, body.evaluate = .error (.unwritable b e)) ∧
      ((∃ value, body.evaluate = .ok value) ∨
        ∃ failure, body.evaluate = .error failure ∧ (Failure.evaluation failure).Announced)) ∨
    ∃ b e, body.evaluate = .error (.unwritable b e) := by
  cases hevaluate : body.evaluate with
  | ok value => exact .inl ⟨by simp, .inl ⟨value, rfl⟩⟩
  | error failure =>
    cases failure with
    | literalTooLong digits => exact .inl ⟨by simp, .inr ⟨_, rfl, trivial⟩⟩
    | outOfRange base exponent => exact .inl ⟨by simp, .inr ⟨_, rfl, trivial⟩⟩
    | unwritable base exponent => exact .inr ⟨base, exponent, rfl⟩
    | meaningless => exact absurd hevaluate (Node.evaluate_ne_meaningless h)

/-! ## Evaluating a text -/

theorem overlong_iff (h : Sentence (Scanner.tokens text) body) :
    Overlong text ↔ ∃ b e, body.evaluate = .error (.unwritable b e) := by
  constructor
  · rintro ⟨other, b, e, hother, hraises, hwritable⟩
    obtain rfl := Parser.tree_eq_of_sentence h hother
    exact ⟨b, e, Node.evaluate_eq_unwritable_iff.mpr ⟨hraises, hwritable⟩⟩
  · rintro ⟨b, e, hevaluate⟩
    obtain ⟨hraises, hwritable⟩ := Node.evaluate_eq_unwritable_iff.mp hevaluate
    exact ⟨body, b, e, h, hraises, hwritable⟩

/-- The evaluation of a text answers a value or an announced failure, unless the text is overlong;
then the report on a power fails. -/
theorem evaluate_text_cases (text : String) (log : List Log.Entry) :
    (¬ Overlong text ∧ ((∃ value after, evaluate (.text text) log = .ok value after) ∨
      ∃ failure after, evaluate (.text text) log = .error failure after ∧ failure.Announced)) ∨
    (Overlong text ∧ ∃ b e after,
      evaluate (.text text) log = .error (.evaluation (.unwritable b e)) after) := by
  by_cases hsentence : ∃ tree, Sentence (Scanner.tokens text) tree
  · obtain ⟨body, hsentence⟩ := hsentence
    obtain ⟨after, hparse⟩ := parseText_eq_ok hsentence log
    have heq : evaluate (.text text) log = evaluateTree (.prog none body) after :=
      bind_eq_of_ok hparse
    rw [heq, overlong_iff hsentence]
    rcases evaluate_cases hsentence.meaningful with
      ⟨hnot, ⟨value, hvalue⟩ | ⟨failure, hfailure, hannounced⟩⟩ | ⟨b, e, hunwritable⟩
    · exact .inl ⟨hnot, .inl ⟨value, after, evaluateTree_of_ok hvalue after⟩⟩
    · obtain ⟨final, herror⟩ := evaluateTree_of_error hfailure after
      exact .inl ⟨hnot, .inr ⟨_, final, herror, hannounced⟩⟩
    · obtain ⟨final, herror⟩ := evaluateTree_of_error hunwritable after
      exact .inr ⟨⟨b, e, hunwritable⟩, b, e, final, herror⟩
  · obtain ⟨error, after, hparse⟩ := parseText_eq_error hsentence log
    refine .inl ⟨?_, .inr ⟨_, after, bind_eq_of_error hparse, trivial⟩⟩
    rintro ⟨tree, -, -, htree, -⟩
    exact hsentence ⟨tree, htree⟩

end ArithLang.Expression
