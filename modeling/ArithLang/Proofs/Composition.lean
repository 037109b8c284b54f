import ArithLang.Proofs.Boundary
import ArithLang.Proofs.Pieces
import Mathlib.Data.List.Basic

/-!
# Expressions put together as text

Two expressions make a longer one when their texts are put in parentheses with a sign between them:
the tree is the operation on the two trees. Without the parentheses it is not. In `1+2` followed by
`+3+4` the sum folds to the left over all four literals, so the second text has no node of its own.
What remains true is the value: `Phrase.exists_sum` moves the addition of the left text into the
second sum, one summand after the other, and keeps what the evaluation answers. That includes the
failures, because the literals and powers of both texts are still evaluated from left to right.
-/

namespace ArithLang

/-! ## Rows of tokens -/

namespace Phrase

variable {w v : List Token} {left right : Node} {operator : Operator}

theorem operation (hleft : Phrase .fact w left) (hright : Phrase .fact v right) :
    Phrase .exp (w ++ operator.token :: v)
      (.binary (some operator) (some operator.token) left right) := by
  cases operator with
  | plus => exact .sum (hleft.ofFact .exp) rfl (hright.ofFact .term)
  | times => exact .summand (.product (hleft.ofFact .term) rfl (hright.ofFact .pow))
  | pow => exact .summand (.single (.power hleft rfl (hright.ofFact .pow)))

/-- **Two sums with a plus sign between them** are a sum, whose evaluation answers what the two
evaluations and the addition answer. -/
theorem exists_sum {sign : Token} (hleft : Phrase .exp w left)
    (hsign : sign.type = .category .plus) : ∀ {v : List Token} {right : Node},
    Phrase .exp v right → ∃ tree, Phrase .exp (w ++ sign :: v) tree ∧
      tree.evaluate = do
        let x ← left.evaluate
        let y ← right.evaluate
        return x + y
  | _, _, .summand hright => ⟨_, .sum hleft hsign hright, rfl⟩
  | _, _, @Phrase.sum u v last front back hfront hlast hback => by
    obtain ⟨tree, hphrase, hevaluate⟩ := exists_sum hleft hsign hfront
    refine ⟨.binary (some .plus) (some last) tree back, ?_, ?_⟩
    · rw [← List.cons_append, ← List.append_assoc]
      exact .sum hphrase hlast hback
    · rw [Node.evaluate, Node.evaluate, hevaluate]
      cases left.evaluate with
      | error failure => rfl
      | ok x =>
        cases front.evaluate with
        | error failure => rfl
        | ok y =>
          cases back.evaluate with
          | error failure => rfl
          | ok z => exact congrArg Except.ok (Nat.add_assoc x y z)

end Phrase

/-! ## Texts -/

namespace Scanner

variable {text : List Char} {tree : Node}

theorem pieces_parenthesised (text more : List Char) :
    pieces ('(' :: (text ++ ')' :: more))
      = .ofCategory .openPar "(" :: (pieces text ++ .ofCategory .closePar ")" :: pieces more) := by
  rw [pieces_opening, pieces_append more (by decide) (fun h ↦ absurd h (by decide)),
    pieces_closing]

theorem phrase_parenthesised (h : Phrase .exp (pieces text) tree) :
    Phrase .fact (pieces ('(' :: (text ++ [')']))) tree := by
  rw [pieces_parenthesised, pieces_nil]
  exact .parenthesised rfl rfl h

private theorem phrase_operation {other : List Char} {right : Node} (operator : Operator)
    (hleft : Phrase .exp (pieces text) tree) (hright : Phrase .exp (pieces other) right) :
    Phrase .exp
      (pieces ('(' :: (text ++ ')' :: (operator.sign.toList ++ '(' :: (other ++ [')'])))))
      (.binary (some operator) (some operator.token) tree right) := by
  have hpieces : pieces ('(' :: (text ++ ')' :: (operator.sign.toList ++ '(' :: (other ++ [')']))))
      = pieces ('(' :: (text ++ [')'])) ++ operator.token :: pieces ('(' :: (other ++ [')'])) := by
    rw [pieces_parenthesised, pieces_parenthesised, pieces_nil,
      pieces_sign operator (fun _ ↦ by simp), List.cons_append, List.append_assoc,
      List.singleton_append]
  rw [hpieces]
  exact .operation (phrase_parenthesised hleft) (phrase_parenthesised hright)

@[simp] theorem pieces_sum (text other : List Char) :
    pieces (text ++ '+' :: other) = pieces text ++ Operator.plus.token :: pieces other := by
  have hsign : pieces ('+' :: other) = Operator.plus.token :: pieces other :=
    pieces_sign .plus fun h ↦ absurd h (by decide)
  rw [pieces_append other (by decide) (fun h ↦ absurd h (by decide)), hsign]

end Scanner

namespace Expression

/-- What an operation answers, without what it reports to the log. -/
def answer {α : Type} (operation : Logged α) (log : List Log.Entry) : Except Failure α :=
  match operation log with
  | .ok a _ => .ok a
  | .error failure _ => .error failure

/-- A text is parsed to a tree if its pieces are a phrase with that tree. -/
theorem parse_eq_ok_iff {text : String} {body : Node} (log : List Log.Entry) :
    (∃ after, parse (.text text) log = .ok (.prog none body) after) ↔
      Phrase .exp (Scanner.pieces text.toList) body := by
  rw [← Scanner.sentence_tokens_iff]
  constructor
  · rintro ⟨after, h⟩
    change parseText text log = _ at h
    by_cases hsentence : ∃ tree, Sentence (Scanner.tokens text) tree
    · obtain ⟨tree, htree⟩ := hsentence
      obtain ⟨after', hparse⟩ := parseText_eq_ok htree log
      rw [hparse] at h
      cases h
      exact htree
    · obtain ⟨error, after', herror⟩ := parseText_eq_error hsentence log
      rw [herror] at h
      cases h
  · exact fun hsentence ↦ parseText_eq_ok hsentence log

/-- What a text is parsed to is a root, over the tree of the phrase that its pieces are. -/
theorem exists_phrase_of_parse {text : String} {tree : Node} {log after : List Log.Entry}
    (h : parse (.text text) log = .ok tree after) :
    ∃ body, tree = .prog none body ∧ Phrase .exp (Scanner.pieces text.toList) body := by
  obtain ⟨body, final, hbody⟩ | ⟨reason, final, herror⟩ := parseText_cases text log
  · cases h.symm.trans hbody
    exact ⟨body, rfl, (parse_eq_ok_iff log).mp ⟨after, h⟩⟩
  · cases h.symm.trans herror

theorem answer_evaluate {text : String} {body : Node}
    (h : Phrase .exp (Scanner.pieces text.toList) body) (log : List Log.Entry) :
    answer (evaluate (.text text)) log = body.evaluate.mapError .evaluation := by
  obtain ⟨after, hparse⟩ := (parse_eq_ok_iff log).mpr h
  have heq : evaluate (.text text) log = evaluateTree (.prog none body) after :=
    bind_eq_of_ok hparse
  cases hevaluate : body.evaluate with
  | ok value =>
    rw [answer, heq, evaluateTree_of_ok hevaluate]
    rfl
  | error failure =>
    obtain ⟨final, herror⟩ := evaluateTree_of_error hevaluate after
    rw [answer, heq, herror]
    rfl

/-- **Texts of expressions compose.** In parentheses a text keeps its tree; two texts in parentheses
with a sign between them have the operation on their trees; and with a plus sign between them, they
have the sum of their values, or the failure of the first one that fails. -/
theorem parse_composed {s t : String} {a b : Node} {before after before' after' : List Log.Entry}
    (hs : parse (.text s) before = .ok (.prog none a) after)
    (ht : parse (.text t) before' = .ok (.prog none b) after') :
    (∀ log, ∃ final, parse (.text ("(" ++ s ++ ")")) log = .ok (.prog none a) final) ∧
    (∀ (operator : Operator) (log : List Log.Entry), ∃ final,
      parse (.text ("(" ++ s ++ ")" ++ operator.sign ++ "(" ++ t ++ ")")) log
        = .ok (.prog none (.binary (some operator)
            (some (.ofCategory operator.category operator.sign)) a b)) final) ∧
    (∃ tree, ∀ log, ∃ final, parse (.text (s ++ "+" ++ t)) log = .ok (.prog none tree) final) ∧
    ∀ log log₁ log₂, answer (evaluate (.text (s ++ "+" ++ t))) log = do
      let x ← answer (evaluate (.text s)) log₁
      let y ← answer (evaluate (.text t)) log₂
      return x + y := by
  have hs := (parse_eq_ok_iff before).mp ⟨after, hs⟩
  have ht := (parse_eq_ok_iff before').mp ⟨after', ht⟩
  obtain ⟨tree, hsum, hevaluate⟩ := Phrase.exists_sum hs Operator.plus.token_type ht
  have hpieces : Scanner.pieces (s ++ "+" ++ t).toList
      = Scanner.pieces s.toList ++ Operator.plus.token :: Scanner.pieces t.toList := by
    rw [String.toList_append, String.toList_append, List.append_assoc]
    exact Scanner.pieces_sum s.toList t.toList
  rw [← hpieces] at hsum
  refine ⟨fun log ↦ ?_, fun operator log ↦ ?_, ⟨tree, fun log ↦ ?_⟩, fun log log₁ log₂ ↦ ?_⟩
  · rw [parse_eq_ok_iff, String.toList_append, String.toList_append, List.append_assoc]
    exact (Scanner.phrase_parenthesised hs).toExp
  · rw [parse_eq_ok_iff]
    simp only [String.toList_append, List.append_assoc]
    exact Scanner.phrase_operation operator hs ht
  · rwa [parse_eq_ok_iff]
  · rw [answer_evaluate hsum, answer_evaluate hs, answer_evaluate ht, hevaluate]
    cases a.evaluate with
    | error failure => rfl
    | ok x =>
      cases b.evaluate with
      | error failure => rfl
      | ok y => rfl

/-- The tree of `03+2`. -/
def smallSum : Node :=
  .binary (some .plus) (some (.ofCategory .plus "+")) (.int Parser.three) (.int Parser.two)

theorem phrase_smallSum : Phrase .exp (Scanner.pieces "03+2".toList) smallSum := by
  have hpieces : Scanner.pieces "03+2".toList
      = [Parser.three.token, Operator.plus.token, Parser.two.token] := by decide +kernel
  rw [hpieces]
  exact .sum (.summand (.single (.factor (.literal Parser.three)))) rfl
    (.single (.factor (.literal Parser.two)))

/-- The tree of `10**400`, which is out of range. -/
def hugePower : Node :=
  .binary (some .pow) (some (.ofCategory .pow "**")) (.int ⟨"10", by decide, by decide⟩)
    (.int ⟨"400", by decide, by decide⟩)

theorem phrase_hugePower : Phrase .exp (Scanner.pieces "10**400".toList) hugePower := by
  have hpieces : Scanner.pieces "10**400".toList
      = [.ofCategory .int "10", Operator.pow.token, .ofCategory .int "400"] := by decide +kernel
  rw [hpieces]
  exact .summand (.single (.power (.literal ⟨"10", by decide, by decide⟩) rfl
    (.factor (.literal ⟨"400", by decide, by decide⟩))))

theorem parse_composed_hugePower :
    (∃ after, parse (.text "03+2") [] = .ok (.prog none smallSum) after) ∧
    (∃ after, parse (.text "10**400") [] = .ok (.prog none hugePower) after) ∧
    (∃ final, parse (.text "(03+2)") [] = .ok (.prog none smallSum) final) ∧
    (∃ final, parse (.text "(03+2)**(10**400)") [] = .ok (.prog none (.binary (some .pow)
      (some (.ofCategory .pow "**")) smallSum hugePower)) final) ∧
    (∃ tree final, parse (.text "03+2+10**400") [] = .ok (.prog none tree) final) ∧
    answer (evaluate (.text "03+2+10**400")) [] = .error (.evaluation (.outOfRange 10 400)) := by
  obtain ⟨after, hs⟩ := (parse_eq_ok_iff []).mpr phrase_smallSum
  obtain ⟨after', ht⟩ := (parse_eq_ok_iff []).mpr phrase_hugePower
  obtain ⟨hgroup, hoperation, ⟨tree, hparse⟩, hsum⟩ := parse_composed hs ht
  refine ⟨⟨_, hs⟩, ⟨_, ht⟩, hgroup [], hoperation .pow [], ⟨tree, hparse []⟩, ?_⟩
  have hleft : smallSum.evaluate = .ok 5 := by decide +kernel
  have hpower : hugePower.evaluate = .error (.outOfRange 10 400) := by decide +kernel
  have hanswer := hsum [] [] []
  rw [answer_evaluate phrase_smallSum, answer_evaluate phrase_hugePower, hleft, hpower] at hanswer
  exact hanswer

end Expression

end ArithLang
