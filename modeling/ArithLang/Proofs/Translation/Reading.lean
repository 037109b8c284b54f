import ArithLang.Proofs.Composition
import ArithLang.Proofs.Translation.Writer
import Mathlib.Data.List.Basic
import Mathlib.Data.List.TakeWhile

/-!
# Reading translations back

Both translations write a literal as it is spelled, and an operation as its two operands with some
text before, between and behind them. `Frame` is that text for each operator, and `Frame.Reads` the
grammar of the written forms, together with the tree that a form stands for. What is proved of a
translation needs to know only which frame it writes (`Writer.Framed`), so it is proved for both at
once.

## Why a written form has one reading

Two written forms with anything behind them that does not start with a digit are equal only if they
stand for the same tree (`Frame.Reads.eq_of_append`). This prefix property is what makes the
induction go through, as the operands stand in the middle of a form. What a frame needs for it is
listed in `Frame.Apart`. In Lisp the operator stands in front and decides. In C a sum and a product
start alike, so the left operand is compared first and the sign behind it decides; and a power
starts with two parentheses as a sum of a group does, so that it takes the letter behind them to
tell.
-/

namespace ArithLang

/-! ## The grammar of written forms -/

/-- The text around the operands of an operation. -/
structure Frame where
  /-- The text before the left operand. -/
  before : Operator → List Char
  /-- The text between the operands. -/
  between : Operator → List Char
  /-- The text behind the right operand. -/
  behind : Operator → List Char

/-- A text is the written form of a tree whose operations have the tokens of their signs. -/
inductive Frame.Reads (frame : Frame) : List Char → Node → Prop where
  /-- A literal is a row of digits. -/
  | literal (literal : Literal) : Reads frame literal.lexeme.toList (.int literal)
  /-- An operation is framed. -/
  | operation {operator : Operator} {u v : List Char} {left right : Node}
      (hleft : Reads frame u left) (hright : Reads frame v right) :
      Reads frame
        (frame.before operator ++ (u ++ (frame.between operator ++ (v ++ frame.behind operator))))
        (.binary (some operator) (some operator.token) left right)

/-- The forms of Lisp: `(+ E E)`, `(* E E)` and `(expt E E)`. -/
def Lisp.frame : Frame where
  before
    | .plus => ['(', '+', ' ']
    | .times => ['(', '*', ' ']
    | .pow => ['(', 'e', 'x', 'p', 't', ' ']
  between _ := [' ']
  behind _ := [')']

/-- The forms of C: `(E+E)`, `(E*E)` and `((int) pow(E, E))`. -/
def C.frame : Frame where
  before
    | .plus => ['(']
    | .times => ['(']
    | .pow => ['(', '(', 'i', 'n', 't', ')', ' ', 'p', 'o', 'w', '(']
  between
    | .plus => ['+']
    | .times => ['*']
    | .pow => [',', ' ']
  behind
    | .plus => [')']
    | .times => [')']
    | .pow => [')', ')']

/-- The operations of a translation are written with the texts of a frame around the operands. -/
def Writer.Framed (writer : Writer) (frame : Frame) : Prop :=
  ∀ operator u v, (writer.operation operator u v).toList = frame.before operator
    ++ (u.toList ++ (frame.between operator ++ (v.toList ++ frame.behind operator)))

theorem Lisp.framed_writer : Lisp.writer.Framed Lisp.frame := by
  intro operator u v
  cases operator <;> simp [writer, form, functionName, frame]

theorem C.framed_writer : C.writer.Framed C.frame := by
  intro operator u v
  cases operator <;> simp [writer, expression, frame]

/-! ## Unique reading -/

theorem Literal.eq_of_toList_lexeme {first second : Literal}
    (h : first.lexeme.toList = second.lexeme.toList) : first = second := by
  obtain ⟨lexeme, _, _⟩ := first
  obtain ⟨lexeme', _, _⟩ := second
  obtain rfl := String.toList_inj.mp h
  rfl

theorem Literal.exists_lexeme_eq_cons (literal : Literal) :
    ∃ c rest, literal.lexeme.toList = c :: rest ∧ Text.isDigit c = true := by
  obtain ⟨c, rest, hlexeme⟩ := List.exists_cons_of_ne_nil literal.ne_nil
  have hall := literal.all_isDigit
  rw [hlexeme, List.all_cons, Bool.and_eq_true] at hall
  exact ⟨c, rest, hlexeme, hall.1⟩

namespace Frame

variable {frame : Frame} {u v x y : List Char} {a b : Node}

/-- What a frame needs so that its written forms can be told apart. -/
structure Apart (frame : Frame) : Prop where
  /-- An operation starts with a parenthesis. -/
  before_opens : ∀ operator, ∃ rest, frame.before operator = '(' :: rest
  /-- No digit stands right behind the left operand. -/
  between_undigited : ∀ operator rest, Undigited (frame.between operator ++ rest)
  /-- No digit stands right behind the right operand. -/
  behind_undigited : ∀ operator rest, Undigited (frame.behind operator ++ rest)
  /-- It can be told where the left operand starts. -/
  before_eq : ∀ {operator other : Operator} {u v x y : List Char} {a b : Node},
    frame.Reads u a → frame.Reads v b →
    frame.before operator ++ (u ++ x) = frame.before other ++ (v ++ y) →
    frame.before operator = frame.before other
  /-- What stands around the left operand tells the operator. -/
  operator_eq : ∀ {operator other : Operator} {x y : List Char},
    frame.before operator = frame.before other →
    frame.between operator ++ x = frame.between other ++ y → operator = other

private theorem Reads.exists_eq_cons
    (hopens : ∀ operator, ∃ rest, frame.before operator = '(' :: rest)
    (h : frame.Reads u a) : ∃ c rest, u = c :: rest ∧ (Text.isDigit c = true ∨ c = '(') := by
  cases h with
  | literal literal =>
    obtain ⟨c, rest, hlexeme, hdigit⟩ := literal.exists_lexeme_eq_cons
    exact ⟨c, rest, hlexeme, .inl hdigit⟩
  | @operation operator _ _ _ _ _ _ =>
    obtain ⟨rest, hbefore⟩ := hopens operator
    exact ⟨'(', _, by rw [hbefore, List.cons_append], .inr rfl⟩

theorem Apart.literal_ne (hframe : frame.Apart) (literal : Literal) (operator : Operator) :
    literal.lexeme.toList ++ x ≠ frame.before operator ++ y := by
  obtain ⟨c, rest, hlexeme, hdigit⟩ := literal.exists_lexeme_eq_cons
  obtain ⟨rest', hbefore⟩ := hframe.before_opens operator
  rw [hlexeme, hbefore, List.cons_append, List.cons_append]
  intro h
  rw [(List.cons.inj h).1] at hdigit
  exact absurd hdigit (by decide)

/-- **Written forms are told apart** wherever they end, if no digit follows. -/
theorem Reads.eq_of_append (hframe : frame.Apart) (hu : frame.Reads u a) (hv : frame.Reads v b)
    (hx : Undigited x) (hy : Undigited y) (h : u ++ x = v ++ y) : a = b ∧ x = y := by
  induction hu generalizing v b x y with
  | literal literal =>
    cases hv with
    | literal other =>
      have hlexeme : literal.lexeme.toList = other.lexeme.toList := by
        rw [← takeWhile_append_of_undigited literal.all_isDigit hx, h,
          takeWhile_append_of_undigited other.all_isDigit hy]
      rw [hlexeme] at h
      exact ⟨by rw [Literal.eq_of_toList_lexeme hlexeme], List.append_cancel_left h⟩
    | operation _ _ =>
      rw [List.append_assoc] at h
      exact absurd h (hframe.literal_ne literal _)
  | @operation operator u u' left right hleft hright ihleft ihright =>
    cases hv with
    | literal other =>
      rw [List.append_assoc] at h
      exact absurd h.symm (hframe.literal_ne other operator)
    | @operation other v v' left' right' hleft' hright' =>
      simp only [List.append_assoc] at h
      have hbefore := hframe.before_eq hleft hleft' h
      rw [hbefore] at h
      obtain ⟨rfl, hbetween⟩ := ihleft hleft' (hframe.between_undigited _ _)
        (hframe.between_undigited _ _) (List.append_cancel_left h)
      obtain rfl := hframe.operator_eq hbefore hbetween
      obtain ⟨rfl, hbehind⟩ := ihright hright' (hframe.behind_undigited _ _)
        (hframe.behind_undigited _ _) (List.append_cancel_left hbetween)
      exact ⟨rfl, List.append_cancel_left hbehind⟩

private theorem Reads.text_eq (hu : frame.Reads u a) (hv : frame.Reads v a) : u = v := by
  induction hu generalizing v with
  | literal literal =>
    cases hv
    rfl
  | operation _ _ ihleft ihright =>
    cases hv with
    | operation hleft hright => rw [ihleft hleft, ihright hright]

/-- **Unique reading.** Written forms are equal exactly if they stand for the same tree. -/
theorem Reads.text_eq_iff (hframe : frame.Apart) (hu : frame.Reads u a) (hv : frame.Reads v b) :
    u = v ↔ a = b := by
  constructor
  · rintro rfl
    exact (hu.eq_of_append hframe hv undigited_nil undigited_nil rfl).1
  · rintro rfl
    exact hu.text_eq hv

theorem Reads.iff_eq (hframe : frame.Apart) (hu : frame.Reads u a) (tree : Node) :
    frame.Reads u tree ↔ tree = a :=
  ⟨fun h ↦ (h.text_eq_iff hframe hu).mp rfl, fun h ↦ h ▸ hu⟩

end Frame

theorem Lisp.apart_frame : Lisp.frame.Apart where
  before_opens operator := by cases operator <;> exact ⟨_, rfl⟩
  between_undigited operator rest := undigited_cons (by decide) rest
  behind_undigited operator rest := undigited_cons (by decide) rest
  before_eq {operator other} _ _ _ _ _ _ _ _ h := by
    cases operator <;> cases other <;> first | rfl | simp [Lisp.frame] at h
  operator_eq {operator other} _ _ h _ := by
    cases operator <;> cases other <;> first | rfl | simp [Lisp.frame] at h

namespace C

theorem before_opens (operator : Operator) : ∃ rest, frame.before operator = '(' :: rest := by
  cases operator <;> exact ⟨_, rfl⟩

/-- No written form starts with a parenthesis and the letter that a power has there. -/
theorem not_reads_cast {v y rest : List Char} {b : Node} (h : frame.Reads v b) :
    v ++ y ≠ '(' :: 'i' :: rest := by
  intro heq
  cases h with
  | literal literal =>
    obtain ⟨c, more, hlexeme, hdigit⟩ := literal.exists_lexeme_eq_cons
    rw [hlexeme, List.cons_append] at heq
    rw [(List.cons.inj heq).1] at hdigit
    exact absurd hdigit (by decide)
  | @operation operator u u' _ _ hleft _ =>
    obtain ⟨c, more, rfl, hc⟩ := hleft.exists_eq_cons before_opens
    have hletter : c ≠ 'i' := by
      rintro rfl
      exact absurd hc (by decide)
    cases operator with
    | plus => exact hletter (List.cons.inj (List.cons.inj heq).2).1
    | times => exact hletter (List.cons.inj (List.cons.inj heq).2).1
    | pow => exact absurd (List.cons.inj (List.cons.inj heq).2).1 (by decide)

theorem apart_frame : frame.Apart where
  before_opens := before_opens
  between_undigited operator rest := by
    cases operator <;> exact undigited_cons (by decide) _
  behind_undigited operator rest := by
    cases operator <;> exact undigited_cons (by decide) _
  before_eq {operator other u v x y a b} hu hv h := by
    have hu : ∀ rest, u ++ x ≠ '(' :: 'i' :: rest := fun _ ↦ not_reads_cast hu
    have hv : ∀ rest, '(' :: 'i' :: rest ≠ v ++ y := fun _ ↦ (not_reads_cast hv).symm
    cases operator <;> cases other <;> simp_all [frame]
  operator_eq {operator other} _ _ h h' := by
    cases operator <;> cases other <;> first | rfl | simp [frame] at h h'

end C

/-! ## The trees of texts -/

/-- The tree is made of literals and of operations that have the tokens of their signs. -/
inductive Node.Spelled : Node → Prop where
  /-- A literal. -/
  | literal (literal : Literal) : Spelled (.int literal)
  /-- An operation. -/
  | operation {operator : Operator} {left right : Node} (hleft : Spelled left)
      (hright : Spelled right) :
      Spelled (.binary (some operator) (some operator.token) left right)

private theorem Phrase.spelled {level : Level} {w : List Token} {tree : Node}
    (h : Phrase level w tree)
    (hsigns : ∀ token ∈ w, ∀ operator : Operator, token.type = .category operator.category →
      token = operator.token) : tree.Spelled := by
  induction h with
  | literal literal => exact .literal literal
  | parenthesised _ _ _ ih =>
    exact ih fun token htoken ↦
      hsigns token (List.mem_cons_of_mem _ (List.mem_append_left _ htoken))
  | factor _ ih => exact ih hsigns
  | single _ ih => exact ih hsigns
  | summand _ ih => exact ih hsigns
  | power _ htype _ ihleft ihright =>
    rw [List.forall_mem_append, List.forall_mem_cons] at hsigns
    rw [hsigns.2.1 .pow htype]
    exact .operation (ihleft hsigns.1) (ihright hsigns.2.2)
  | product _ htype _ ihleft ihright =>
    rw [List.forall_mem_append, List.forall_mem_cons] at hsigns
    rw [hsigns.2.1 .times htype]
    exact .operation (ihleft hsigns.1) (ihright hsigns.2.2)
  | sum _ htype _ ihleft ihright =>
    rw [List.forall_mem_append, List.forall_mem_cons] at hsigns
    rw [hsigns.2.1 .plus htype]
    exact .operation (ihleft hsigns.1) (ihright hsigns.2.2)

namespace Node

variable {a b : Node}

theorem Spelled.of_pieces {text : List Char} (h : Phrase .exp (Scanner.pieces text) a) :
    a.Spelled :=
  h.spelled Scanner.eq_token_of_mem_pieces

private theorem Spelled.eq_of_outline (ha : a.Spelled) (hb : b.Spelled)
    (h : a.outline = b.outline) :
    a = b := by
  induction ha generalizing b with
  | literal literal =>
    cases hb with
    | literal other =>
      have hlexeme : literal.lexeme = other.lexeme := by
        simpa [outline, Literal.token, Token.ofCategory] using h
      rw [Literal.eq_of_toList_lexeme (congrArg String.toList hlexeme)]
    | operation _ _ => simp [outline] at h
  | @operation operator left right _ _ ihleft ihright =>
    cases hb with
    | literal other => simp [outline] at h
    | @operation other left' right' hleft' hright' =>
      simp only [outline, Outline.node.injEq, List.cons.injEq, Option.some.injEq] at h
      obtain ⟨hkind, -, hleft, hright, -⟩ := h
      have hoperator : operator = other := by
        cases operator <;> cases other <;> first | rfl | cases hkind
      rw [hoperator, ihleft hleft' hleft, ihright hright' hright]

theorem Spelled.beq_iff (ha : a.Spelled) (hb : b.Spelled) :
    (Node.prog none a == Node.prog none b) = true ↔ a = b := by
  constructor
  · intro h
    have houtline : (Node.prog none a).outline = (Node.prog none b).outline := of_decide_eq_true h
    exact ha.eq_of_outline hb (by simpa [outline] using houtline)
  · rintro rfl
    exact decide_eq_true rfl

/-! ## The translations are written forms -/

theorem Spelled.exists_write_reads {writer : Writer} {frame : Frame}
    (hframed : writer.Framed frame) (h : a.Spelled) :
    ∃ text, writer.write a = some text ∧ frame.Reads text.toList a := by
  induction h with
  | literal literal => exact ⟨literal.lexeme, writer.write_int literal, .literal literal⟩
  | @operation operator left right _ _ ihleft ihright =>
    obtain ⟨u, hu, hleft⟩ := ihleft
    obtain ⟨v, hv, hright⟩ := ihright
    refine ⟨writer.operation operator u v, by simp [writer.write_binary, hu, hv], ?_⟩
    rw [hframed]
    exact .operation hleft hright

end Node

namespace Expression

variable {s t text : String} {a b body : Node}

/-- The answer to a text that is an expression is that to its tree, for an operation that reports
nothing. -/
theorem answer_of_tree {α : Type} {operation : Node → Logged α} {a : α}
    (h : Phrase .exp (Scanner.pieces text.toList) body)
    (hoperation : ∀ log, operation (.prog none body) log = .ok a log) (log : List Log.Entry) :
    answer (tree (.text text) >>= operation) log = .ok a := by
  obtain ⟨after, hparse⟩ := (parse_eq_ok_iff log).mpr h
  have htree : tree (.text text) log = .ok (.prog none body) after := hparse
  rw [answer, bind_eq_of_ok htree, hoperation]

section Writer

variable {writer : Writer} {frame : Frame}

theorem answer_translate (h : Phrase .exp (Scanner.pieces text.toList) body) {written : String}
    (hwrite : writer.write body = some written) (log : List Log.Entry) :
    answer (writer.translate (.text text)) log = .ok (writer.program written) :=
  answer_of_tree h (Writer.translate_root hwrite) log

/-- A translation whose written forms can be told apart tells the trees apart. -/
theorem answer_translate_eq_iff (hframe : frame.Apart) (hframed : writer.Framed frame)
    (hs : Phrase .exp (Scanner.pieces s.toList) a) (ht : Phrase .exp (Scanner.pieces t.toList) b)
    (log log' : List Log.Entry) :
    answer (writer.translate (.text s)) log = answer (writer.translate (.text t)) log' ↔
      a = b := by
  obtain ⟨u, hu, hreads⟩ := (Node.Spelled.of_pieces hs).exists_write_reads hframed
  obtain ⟨v, hv, hreads'⟩ := (Node.Spelled.of_pieces ht).exists_write_reads hframed
  rw [answer_translate hs hu, answer_translate ht hv, Except.ok.injEq,
    writer.program_injective.eq_iff, ← hreads.text_eq_iff hframe hreads', String.toList_inj]

end Writer

/-- **The translations can be read back.** The Lisp text behind the header and the C text of the
printed expression are written forms of the tree, and of no other tree; so two expressions have the
same Lisp text exactly if they have the same C text, and the same C text exactly if they have the
same tree. -/
theorem translations_read_back {s t : String} {a b : Node}
    {before after before' after' : List Log.Entry}
    (hs : parse (.text s) before = .ok (.prog none a) after)
    (ht : parse (.text t) before' = .ok (.prog none b) after') :
    (∃ lisp : String, (∀ log, answer (toLisp (.text s)) log = .ok (Lisp.header ++ lisp)) ∧
      ∀ tree, Lisp.frame.Reads lisp.toList tree ↔ tree = a) ∧
    (∃ c : String, (∀ log, answer (toC (.text s)) log = .ok (C.opening ++ c ++ C.closing)) ∧
      ∀ tree, C.frame.Reads c.toList tree ↔ tree = a) ∧
    (∀ log log', answer (toLisp (.text s)) log = answer (toLisp (.text t)) log' ↔
      answer (toC (.text s)) log = answer (toC (.text t)) log') ∧
    (∀ log log', answer (toC (.text s)) log = answer (toC (.text t)) log' ↔
      (Node.prog none a == Node.prog none b) = true) ∧
    ((Node.prog none a == Node.prog none b) = true ↔ a = b) := by
  have hs := (parse_eq_ok_iff before).mp ⟨after, hs⟩
  have ht := (parse_eq_ok_iff before').mp ⟨after', ht⟩
  have ha := Node.Spelled.of_pieces hs
  have hb := Node.Spelled.of_pieces ht
  obtain ⟨lisp, hlisp, hreads⟩ := ha.exists_write_reads Lisp.framed_writer
  obtain ⟨c, hc, hmeans⟩ := ha.exists_write_reads C.framed_writer
  have hlispanswer : ∀ log log',
      answer (toLisp (.text s)) log = answer (toLisp (.text t)) log' ↔ a = b :=
    answer_translate_eq_iff Lisp.apart_frame Lisp.framed_writer hs ht
  have hcanswer : ∀ log log',
      answer (toC (.text s)) log = answer (toC (.text t)) log' ↔ a = b :=
    answer_translate_eq_iff C.apart_frame C.framed_writer hs ht
  refine ⟨⟨lisp, answer_translate hs hlisp, hreads.iff_eq Lisp.apart_frame⟩,
    ⟨c, answer_translate hs hc, hmeans.iff_eq C.apart_frame⟩, fun log log' ↦ ?_, fun log log' ↦ ?_,
    ha.beq_iff hb⟩
  · rw [hlispanswer, hcanswer]
  · rw [hcanswer, ha.beq_iff hb]

/-- The tree of `(03+2)**2`. -/
def powerOfSum : Node :=
  .binary (some .pow) (some (.ofCategory .pow "**")) smallSum (.int Parser.two)

theorem phrase_powerOfSum : Phrase .exp (Scanner.pieces "(03+2)**2".toList) powerOfSum := by
  have hpieces : Scanner.pieces "(03+2)**2".toList
      = .ofCategory .openPar "(" :: (Scanner.pieces "03+2".toList ++ [.ofCategory .closePar ")"])
        ++ [Operator.pow.token, Parser.two.token] := by decide +kernel
  rw [hpieces]
  exact .summand (.single (.power (.parenthesised rfl rfl phrase_smallSum) rfl
    (.factor (.literal Parser.two))))

/-- The tree of `03+2**2`. -/
def sumOfPower : Node :=
  .binary (some .plus) (some (.ofCategory .plus "+")) (.int Parser.three)
    (.binary (some .pow) (some (.ofCategory .pow "**")) (.int Parser.two) (.int Parser.two))

theorem phrase_sumOfPower : Phrase .exp (Scanner.pieces "03+2**2".toList) sumOfPower := by
  have hpieces : Scanner.pieces "03+2**2".toList = [Parser.three.token, Operator.plus.token,
      Parser.two.token, Operator.pow.token, Parser.two.token] := by decide +kernel
  have hpower : Phrase .pow [Parser.two.token, Operator.pow.token, Parser.two.token] _ :=
    .power (.literal Parser.two) rfl (.factor (.literal Parser.two))
  rw [hpieces]
  exact .sum (.summand (.single (.factor (.literal Parser.three)))) rfl (.single hpower)

theorem translations_powerOfSum :
    (∃ after, parse (.text "(03+2)**2") [] = .ok (.prog none powerOfSum) after) ∧
    (∃ after, parse (.text "03+2**2") [] = .ok (.prog none sumOfPower) after) ∧
    (∃ lisp : String, answer (toLisp (.text "(03+2)**2")) [] = .ok (Lisp.header ++ lisp) ∧
      ∀ tree, Lisp.frame.Reads lisp.toList tree ↔ tree = powerOfSum) ∧
    (∃ c : String, answer (toC (.text "(03+2)**2")) [] = .ok (C.opening ++ c ++ C.closing) ∧
      ∀ tree, C.frame.Reads c.toList tree ↔ tree = powerOfSum) ∧
    answer (toLisp (.text "(03+2)**2")) [] ≠ answer (toLisp (.text "03+2**2")) [] ∧
    answer (toC (.text "(03+2)**2")) [] ≠ answer (toC (.text "03+2**2")) [] := by
  obtain ⟨after, hs⟩ := (parse_eq_ok_iff []).mpr phrase_powerOfSum
  obtain ⟨after', ht⟩ := (parse_eq_ok_iff []).mpr phrase_sumOfPower
  obtain ⟨⟨lisp, hlisp, hreads⟩, ⟨c, hc, hmeans⟩, hsame, hequal, -⟩ := translations_read_back hs ht
  have hne : ¬ (Node.prog none powerOfSum == Node.prog none sumOfPower) = true := by decide
  refine ⟨⟨_, hs⟩, ⟨_, ht⟩, ⟨lisp, hlisp [], hreads⟩, ⟨c, hc [], hmeans⟩, ?_, ?_⟩
  · rwa [Ne, hsame [] [], hequal [] []]
  · rwa [Ne, hequal [] []]

end Expression

end ArithLang
