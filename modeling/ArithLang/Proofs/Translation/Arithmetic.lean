import ArithLang.Proofs.Translation.Constant
import ArithLang.Proofs.Translation.Reading
import Mathlib.Data.List.Basic

/-!
# What the C text means

The C text of an expression without powers is itself an expression, of C and of the expression
language alike, and has the same tree in both. `C.Means` gives the value of such a text by the rules
of C, over unbounded integers: products bind tighter than sums, and both group to the left. So what
a text means is the value of its tree, with the literals read as constants of C
(`C.means_iff_valueBy`).

A constant of C is not always what the literal writes. One that starts with the digit zero is octal,
so `010` means eight; `08` is no constant at all, and neither is a row of digits other than the
ASCII ones. `C.constantOf?_eq_value_iff` says which literals C reads as they are meant.

## Why the reading is unique

The pieces that the scanner makes of a C expression are a phrase with the structure of that
expression (`C.Means.exists_phrase`), and so are those of the translation of a tree
(`C.phrase_of_reads`). A phrase has one tree, so there is no need to compare two ways of reading
the same text.
-/

namespace ArithLang

/-! ## Trees without powers -/

/-- The value of an operation on unbounded integers, which a power has not. -/
def Operator.exact? : Operator → ℕ → ℕ → Option ℕ
  | .plus, left, right => some (left + right)
  | .times, left, right => some (left * right)
  | .pow, _, _ => none

namespace Operator

variable {operator : Operator} {m n x y : ℕ}

private theorem exists_exact? (h : operator ≠ .pow) (x y : ℕ) :
    ∃ n, operator.exact? x y = some n := by
  cases operator with
  | plus => exact ⟨_, rfl⟩
  | times => exact ⟨_, rfl⟩
  | pow => exact absurd rfl h

private theorem exact?_mono {x' y' : ℕ} (h : operator.exact? x y = some n)
    (h' : operator.exact? x' y' = some m) (hx : x ≤ x') (hy : y ≤ y') : n ≤ m := by
  cases operator with
  | plus =>
    cases h
    cases h'
    exact Nat.add_le_add hx hy
  | times =>
    cases h
    cases h'
    exact Nat.mul_le_mul hx hy
  | pow => cases h

private theorem apply_of_exact? (h : operator.exact? x y = some n) :
    Evaluation.apply operator x y = .ok n := by
  cases operator with
  | plus =>
    cases h
    rfl
  | times =>
    cases h
    rfl
  | pow => cases h

end Operator

namespace Node

mutual

/-- The literals of a tree, from left to right. -/
def literals : Node → List Literal
  | .int literal => [literal]
  | .prog _ body => body.literals
  | .binary _ _ left right => left.literals ++ right.literals
  | .plain _ children => literalsAll children

/-- The literals of some trees. -/
def literalsAll : List Node → List Literal
  | [] => []
  | child :: rest => child.literals ++ literalsAll rest

end

/-- The tree is made of literals, sums and products. -/
inductive PowerFree : Node → Prop where
  /-- A literal. -/
  | literal (literal : Literal) : PowerFree (.int literal)
  /-- A sum or a product. -/
  | operation {operator : Operator} {anchor : Option Token} {left right : Node}
      (hoperator : operator ≠ .pow) (hleft : PowerFree left) (hright : PowerFree right) :
      PowerFree (.binary (some operator) anchor left right)

/-- The value of a tree without powers, whose literals are read in a given way. -/
def valueBy (read : Literal → Option ℕ) : Node → Option ℕ
  | .int literal => read literal
  | .binary (some operator) _ left right => do
    operator.exact? (← left.valueBy read) (← right.valueBy read)
  | _ => none

theorem valueBy_binary_eq_some_iff {read : Literal → Option ℕ} {operator : Operator}
    {anchor : Option Token} {left right : Node} {n : ℕ} :
    (binary (some operator) anchor left right).valueBy read = some n ↔
      ∃ x y, left.valueBy read = some x ∧ right.valueBy read = some y ∧
        operator.exact? x y = some n := by
  rw [valueBy]
  simp only [Option.bind_eq_bind, Option.bind_eq_some_iff]
  constructor
  · rintro ⟨x, hx, y, hy, h⟩
    exact ⟨x, y, hx, hy, h⟩
  · rintro ⟨x, y, hx, hy, h⟩
    exact ⟨x, hx, y, hy, h⟩

end Node

theorem Phrase.powerFree {level : Level} {w : List Token} {tree : Node} (h : Phrase level w tree)
    (hpow : ∀ token ∈ w, token.type ≠ .category .pow) : tree.PowerFree := by
  induction h with
  | literal literal => exact .literal literal
  | parenthesised _ _ _ ih =>
    exact ih fun token htoken ↦ hpow token (List.mem_cons_of_mem _ (List.mem_append_left _ htoken))
  | factor _ ih => exact ih hpow
  | single _ ih => exact ih hpow
  | summand _ ih => exact ih hpow
  | power _ htype _ _ _ => exact absurd htype (hpow _ (by simp))
  | product _ _ _ ihleft ihright =>
    rw [List.forall_mem_append, List.forall_mem_cons] at hpow
    exact .operation (by decide) (ihleft hpow.1) (ihright hpow.2.2)
  | sum _ _ _ ihleft ihright =>
    rw [List.forall_mem_append, List.forall_mem_cons] at hpow
    exact .operation (by decide) (ihleft hpow.1) (ihright hpow.2.2)

namespace Node.PowerFree

variable {tree : Node} {read other : Literal → Option ℕ}

private theorem exists_valueBy_iff (h : tree.PowerFree) :
    (∃ n, tree.valueBy read = some n) ↔ ∀ literal ∈ tree.literals, ∃ n, read literal = some n := by
  induction h with
  | literal literal => simp [valueBy, literals]
  | @operation operator anchor left right hoperator _ _ ihleft ihright =>
    rw [literals, List.forall_mem_append, ← ihleft, ← ihright]
    simp only [valueBy_binary_eq_some_iff]
    constructor
    · rintro ⟨n, x, y, hx, hy, -⟩
      exact ⟨⟨x, hx⟩, y, hy⟩
    · rintro ⟨⟨x, hx⟩, y, hy⟩
      obtain ⟨n, hn⟩ := Operator.exists_exact? hoperator x y
      exact ⟨n, x, y, hx, hy, hn⟩

/-- Literals that are read as less make no tree more. -/
private theorem valueBy_mono (h : tree.PowerFree)
    (hread : ∀ literal m n, read literal = some m → other literal = some n → m ≤ n) :
    ∀ {m n : ℕ}, tree.valueBy read = some m → tree.valueBy other = some n → m ≤ n := by
  induction h with
  | literal literal => exact hread literal _ _
  | operation _ _ _ ihleft ihright =>
    intro m n hm hn
    obtain ⟨x, y, hx, hy, hm⟩ := valueBy_binary_eq_some_iff.mp hm
    obtain ⟨x', y', hx', hy', hn⟩ := valueBy_binary_eq_some_iff.mp hn
    exact Operator.exact?_mono hm hn (ihleft hx hx') (ihright hy hy')

private theorem valueBy_congr (h : tree.PowerFree)
    (hread : ∀ literal ∈ tree.literals, read literal = other literal) :
    tree.valueBy read = tree.valueBy other := by
  induction h with
  | literal literal => exact hread literal (List.mem_singleton_self literal)
  | operation _ _ _ ihleft ihright =>
    rw [literals, List.forall_mem_append] at hread
    rw [valueBy, valueBy, ihleft hread.1, ihright hread.2]

/-- **The evaluation is exact** on a tree without powers whose literals are not too long. -/
theorem exists_evaluate (h : tree.PowerFree)
    (hlength : ∀ literal ∈ tree.literals, literal.length ≤ Text.digitLimit) :
    ∃ value, tree.evaluate = .ok value ∧
      tree.valueBy (fun literal ↦ some literal.value) = some value := by
  induction h with
  | literal literal =>
    have hshort := hlength literal (List.mem_singleton_self literal)
    exact ⟨literal.value, if_pos hshort, rfl⟩
  | @operation operator anchor left right hoperator _ _ ihleft ihright =>
    rw [literals, List.forall_mem_append] at hlength
    obtain ⟨x, hx, hx'⟩ := ihleft hlength.1
    obtain ⟨y, hy, hy'⟩ := ihright hlength.2
    obtain ⟨n, hn⟩ := Operator.exists_exact? hoperator x y
    refine ⟨n, ?_, valueBy_binary_eq_some_iff.mpr ⟨x, y, hx', hy', hn⟩⟩
    rw [evaluate, hx, hy]
    exact Operator.apply_of_exact? hn

end Node.PowerFree

/-! ## Asterisks side by side -/

/-- The text is not empty and has no asterisk at either end, so that no asterisk beside it makes
a sign of exponentiation with one of its own. -/
def Unstarred (text : List Char) : Prop :=
  text ≠ [] ∧ text.head? ≠ some '*' ∧ text.getLast? ≠ some '*'

instance (text : List Char) : Decidable (Unstarred text) :=
  inferInstanceAs (Decidable (_ ∧ _ ∧ _))

theorem Unstarred.join {u v : List Char} (hu : Unstarred u) (hv : Unstarred v)
    (middle : List Char) : Unstarred (u ++ (middle ++ v)) := by
  refine ⟨List.append_ne_nil_of_left_ne_nil hu.1 _, ?_, ?_⟩
  · rw [List.head?_append_of_ne_nil _ hu.1]
    exact hu.2.1
  · rw [← List.append_assoc, List.getLast?_append_of_ne_nil _ hv.1]
    exact hv.2.2

theorem Unstarred.group (text : List Char) : Unstarred ('(' :: (text ++ [')'])) :=
  .join (u := ['(']) (v := [')']) (by decide) (by decide) text

private theorem unstarred_digits {digits : List Char} (hne : digits ≠ [])
    (hall : digits.all Text.isDigit = true) : Unstarred digits := by
  have hstar : '*' ∉ digits := by
    intro hmem
    exact absurd (List.all_eq_true.mp hall _ hmem) (by decide)
  exact ⟨hne, fun h ↦ hstar (List.mem_of_head? h), fun h ↦ hstar (List.mem_of_getLast? h)⟩

theorem Scanner.pieces_operation (operator : Operator) {u v : List Char}
    (hoperator : operator ≠ .pow) (hu : Unstarred u) (hv : Unstarred v) :
    pieces (u ++ (operator.sign.toList ++ v)) = pieces u ++ operator.token :: pieces v := by
  rw [← pieces_sign operator (fun _ ↦ hv.2.1)]
  cases operator with
  | plus => exact pieces_append v (by decide) fun h ↦ absurd h (by decide)
  | times => exact pieces_append v (by decide) fun _ ↦ hu.2.2
  | pow => exact absurd rfl hoperator

namespace C

/-! ## Expressions of C -/

/-- The grades of expressions, from the loosest to the tightest. -/
inductive Grade where
  /-- A sum. -/
  | additive
  /-- A product. -/
  | multiplicative
  /-- A constant, or an expression in parentheses. -/
  | primary
deriving DecidableEq, Repr

/-- A text without blanks is an expression of a grade, and this is its value. -/
inductive Means : Grade → List Char → ℕ → Prop where
  /-- A constant. -/
  | constant {digits : List Char} {n : ℕ} (h : constant? digits = some n) : Means .primary digits n
  /-- An expression in parentheses. -/
  | group {text : List Char} {n : ℕ} (h : Means .additive text n) :
      Means .primary ('(' :: (text ++ [')'])) n
  /-- A primary expression alone. -/
  | operand {text : List Char} {n : ℕ} (h : Means .primary text n) : Means .multiplicative text n
  /-- A product multiplied by a primary expression. -/
  | product {u v : List Char} {m n : ℕ} (hleft : Means .multiplicative u m)
      (hright : Means .primary v n) : Means .multiplicative (u ++ '*' :: v) (m * n)
  /-- A product alone. -/
  | summand {text : List Char} {n : ℕ} (h : Means .multiplicative text n) : Means .additive text n
  /-- A sum to which a product is added. -/
  | sum {u v : List Char} {m n : ℕ} (hleft : Means .additive u m)
      (hright : Means .multiplicative v n) : Means .additive (u ++ '+' :: v) (m + n)

/-- The level of the phrases that an expression of a grade is made of. -/
def Grade.level : Grade → Level
  | .additive => .exp
  | .multiplicative => .term
  | .primary => .fact

variable {grade : Grade} {text : List Char} {tree : Node} {n : ℕ}

theorem all_isDigit_of_constant? {digits : List Char} (h : constant? digits = some n) :
    digits ≠ [] ∧ digits.all Text.isDigit = true := by
  obtain ⟨hne, hall, -⟩ := constant?_eq_some_iff.mp h
  rw [List.all_eq_true] at hall ⊢
  exact ⟨hne, fun c hc ↦ Text.isDigit_of_isDigit (hall c hc)⟩

theorem Means.unstarred (h : Means grade text n) : Unstarred text := by
  induction h with
  | constant h =>
    obtain ⟨hne, hall⟩ := all_isDigit_of_constant? h
    exact unstarred_digits hne hall
  | group _ _ => exact .group _
  | operand _ ih => exact ih
  | product _ _ ihleft ihright => exact ihleft.join ihright ['*']
  | summand _ ih => exact ih
  | sum _ _ ihleft ihright => exact ihleft.join ihright ['+']

/-- **An expression of C is a phrase**, and what it means is the value of the tree of the phrase. -/
theorem Means.exists_phrase (h : Means grade text n) :
    ∃ tree, Phrase grade.level (Scanner.pieces text) tree ∧ tree.valueBy constantOf? = some n := by
  induction h with
  | @constant digits n h =>
    obtain ⟨hne, hall⟩ := all_isDigit_of_constant? h
    rw [Scanner.pieces_digits hne hall]
    rw [← String.toList_ofList (l := digits)] at h hne hall
    exact ⟨_, .literal ⟨String.ofList digits, hne, hall⟩, h⟩
  | group _ ih =>
    obtain ⟨tree, hphrase, hvalue⟩ := ih
    exact ⟨tree, Scanner.phrase_parenthesised hphrase, hvalue⟩
  | operand _ ih =>
    obtain ⟨tree, hphrase, hvalue⟩ := ih
    exact ⟨tree, hphrase.ofFact .term, hvalue⟩
  | @product u v m n hleft hright ihleft ihright =>
    obtain ⟨left, hphrase, hx⟩ := ihleft
    obtain ⟨right, hphrase', hy⟩ := ihright
    have hpieces : Scanner.pieces (u ++ '*' :: v)
        = Scanner.pieces u ++ Operator.times.token :: Scanner.pieces v :=
      Scanner.pieces_operation .times (by decide) hleft.unstarred hright.unstarred
    rw [hpieces]
    exact ⟨_, .product hphrase Operator.times.token_type (hphrase'.ofFact .pow),
      Node.valueBy_binary_eq_some_iff.mpr ⟨m, n, hx, hy, rfl⟩⟩
  | summand _ ih =>
    obtain ⟨tree, hphrase, hvalue⟩ := ih
    exact ⟨tree, .summand hphrase, hvalue⟩
  | @sum u v m n _ _ ihleft ihright =>
    obtain ⟨left, hphrase, hx⟩ := ihleft
    obtain ⟨right, hphrase', hy⟩ := ihright
    rw [Scanner.pieces_sum]
    exact ⟨_, .sum hphrase Operator.plus.token_type hphrase',
      Node.valueBy_binary_eq_some_iff.mpr ⟨m, n, hx, hy, rfl⟩⟩

/-! ## The translation as an expression -/

/-- A sum or a product is written in parentheses, with its sign between the operands. -/
theorem frame_eq_group {operator : Operator} (h : operator ≠ .pow) (u v : List Char) :
    frame.before operator ++ (u ++ (frame.between operator ++ (v ++ frame.behind operator)))
      = '(' :: (u ++ (operator.sign.toList ++ v) ++ [')']) := by
  cases operator with
  | plus => simp [frame, Operator.sign]
  | times => simp [frame, Operator.sign]
  | pow => exact absurd rfl h

private theorem unstarred_of_reads (hpower : tree.PowerFree) (h : frame.Reads text tree) :
    Unstarred text := by
  cases h with
  | literal literal => exact unstarred_digits literal.ne_nil literal.all_isDigit
  | operation _ _ =>
    cases hpower with
    | operation hoperator _ _ =>
      rw [frame_eq_group hoperator]
      exact .group _

/-- The written form of a tree without powers is a phrase with that tree. -/
theorem phrase_of_reads (hpower : tree.PowerFree) (h : frame.Reads text tree) :
    Phrase .fact (Scanner.pieces text) tree := by
  induction h with
  | literal literal =>
    rw [Scanner.pieces_digits literal.ne_nil literal.all_isDigit, String.ofList_toList]
    exact .literal literal
  | @operation operator u v left right hreads hreads' ihleft ihright =>
    cases hpower with
    | operation hoperator hleft hright =>
      rw [frame_eq_group hoperator]
      refine Scanner.phrase_parenthesised ?_
      rw [Scanner.pieces_operation _ hoperator (unstarred_of_reads hleft hreads)
        (unstarred_of_reads hright hreads')]
      exact .operation (ihleft hleft) (ihright hright)

private theorem means_of_valueBy (hpower : tree.PowerFree) (h : frame.Reads text tree) :
    ∀ {n : ℕ}, tree.valueBy constantOf? = some n → Means .primary text n := by
  induction h with
  | literal literal => exact .constant
  | @operation operator u v left right _ _ ihleft ihright =>
    intro n hvalue
    cases hpower with
    | operation hoperator hleft hright =>
      obtain ⟨x, y, hx, hy, hn⟩ := Node.valueBy_binary_eq_some_iff.mp hvalue
      have hu := ihleft hleft hx
      have hv := ihright hright hy
      rw [frame_eq_group hoperator]
      cases operator with
      | plus =>
        cases hn
        exact .group (.sum (.summand (.operand hu)) (.operand hv))
      | times =>
        cases hn
        exact .group (.summand (.product (.operand hu) hv))
      | pow => exact absurd rfl hoperator

/-- **What the written form of a tree means** is the value of the tree, with its literals read as
constants. -/
theorem means_iff_valueBy (hpower : tree.PowerFree) (h : frame.Reads text tree) :
    Means .additive text n ↔ tree.valueBy constantOf? = some n := by
  constructor
  · intro hmeans
    obtain ⟨other, hphrase, hvalue⟩ := hmeans.exists_phrase
    have hsame := Parser.tree_eq_of_phrase hphrase (phrase_of_reads hpower h).toExp
    rwa [hsame] at hvalue
  · exact fun hvalue ↦ .summand (.operand (means_of_valueBy hpower h hvalue))

end C

namespace Expression

/-- **The C text against the evaluation.** An expression without powers, with literals that are not
too long, has a value and a C text. What the text means by the rules of C is the value of the tree
with its literals read as constants of C. So the text means something exactly if every literal is a
constant of C, it never means more than the value, and it means the value if every literal is read
as what it writes. -/
theorem c_text_means {source : String} {body : Node} {before after : List Log.Entry}
    (hparse : parse (.text source) before = .ok (.prog none body) after)
    (hpow : ¬ ['*', '*'] <:+: source.toList)
    (hlength : ∀ literal ∈ body.literals, literal.length ≤ Text.digitLimit) :
    ∃ (text : String) (value : ℕ),
      (∀ log, answer (toC (.text source)) log = .ok (C.opening ++ text ++ C.closing)) ∧
      (∀ log, answer (evaluate (.text source)) log = .ok value) ∧
      (∀ n, C.Means .additive text.toList n ↔ body.valueBy C.constantOf? = some n) ∧
      ((∃ n, C.Means .additive text.toList n) ↔
        ∀ literal ∈ body.literals, ∃ n, C.constantOf? literal = some n) ∧
      (∀ n, C.Means .additive text.toList n → n ≤ value) ∧
      ((∀ literal ∈ body.literals, literal.lexeme.toList.all Char.isDigit = true ∧
          (literal.lexeme.toList.head? = some '0' → literal.value < 8)) →
        C.Means .additive text.toList value) := by
  have hphrase := (parse_eq_ok_iff before).mp ⟨after, hparse⟩
  have hpower : body.PowerFree := hphrase.powerFree fun token htoken htype ↦
    hpow (Scanner.sign_infix_of_mem_pieces token htoken .pow htype)
  obtain ⟨text, htext, hreads⟩ :=
    (Node.Spelled.of_pieces hphrase).exists_write_reads C.framed_writer
  obtain ⟨value, hevaluate, hvalue⟩ := hpower.exists_evaluate hlength
  have hmeans : ∀ n, C.Means .additive text.toList n ↔ body.valueBy C.constantOf? = some n :=
    fun _ ↦ C.means_iff_valueBy hpower hreads
  refine ⟨text, value, answer_translate hphrase htext, fun log ↦ ?_, hmeans, ?_, fun n hn ↦ ?_,
    fun hconstants ↦ ?_⟩
  · rw [answer_evaluate hphrase, hevaluate]
    rfl
  · simp only [hmeans]
    exact hpower.exists_valueBy_iff
  · refine hpower.valueBy_mono (fun literal m k hm hk ↦ ?_) ((hmeans n).mp hn) hvalue
    rw [← Option.some.inj hk]
    exact C.le_value_of_constantOf? hm
  · rw [hmeans, ← hvalue]
    exact hpower.valueBy_congr fun literal hliteral ↦
      C.constantOf?_eq_value_iff.mpr (hconstants literal hliteral)

/-- The tree of `2*(03+2)`. -/
def productOfSum : Node :=
  .binary (some .times) (some (.ofCategory .times "*")) (.int Parser.two) smallSum

theorem phrase_productOfSum : Phrase .exp (Scanner.pieces "2*(03+2)".toList) productOfSum := by
  have hpieces : Scanner.pieces "2*(03+2)".toList = [Parser.two.token] ++ Operator.times.token
      :: .ofCategory .openPar "("
      :: (Scanner.pieces "03+2".toList ++ [.ofCategory .closePar ")"]) := by decide +kernel
  rw [hpieces]
  exact .summand (.product (.single (.factor (.literal Parser.two))) rfl
    (.factor (.parenthesised rfl rfl phrase_smallSum)))

private theorem literals_productOfSum :
    productOfSum.literals = [Parser.two, Parser.three, Parser.two] := rfl

theorem c_text_means_productOfSum :
    (∃ after, parse (.text "2*(03+2)") [] = .ok (.prog none productOfSum) after) ∧
    (¬ ['*', '*'] <:+: "2*(03+2)".toList) ∧
    (∀ literal ∈ productOfSum.literals, literal.length ≤ Text.digitLimit) ∧
    ∃ text : String,
      answer (toC (.text "2*(03+2)")) [] = .ok (C.opening ++ text ++ C.closing) ∧
      answer (evaluate (.text "2*(03+2)")) [] = .ok 10 ∧
      C.Means .additive text.toList 10 := by
  have hpow : ¬ ['*', '*'] <:+: "2*(03+2)".toList := by simp [List.infix_cons_iff]
  have hlength : ∀ literal ∈ productOfSum.literals, literal.length ≤ Text.digitLimit := by
    rw [literals_productOfSum]
    decide
  have hconstants : ∀ literal ∈ productOfSum.literals,
      literal.lexeme.toList.all Char.isDigit = true ∧
        (literal.lexeme.toList.head? = some '0' → literal.value < 8) := by
    rw [literals_productOfSum]
    decide
  obtain ⟨after, hparse⟩ := (parse_eq_ok_iff []).mpr phrase_productOfSum
  obtain ⟨text, value, hc, hevaluate, -, -, -, hmeans⟩ := c_text_means hparse hpow hlength
  have htree : productOfSum.evaluate = .ok 10 := by decide +kernel
  have hten : answer (evaluate (.text "2*(03+2)")) [] = .ok 10 := by
    rw [answer_evaluate phrase_productOfSum, htree]
    rfl
  obtain rfl : value = 10 := Except.ok.inj ((hevaluate []).symm.trans hten)
  exact ⟨⟨after, hparse⟩, hpow, hlength, text, hc [], hten, hmeans hconstants⟩

/-- A literal with a leading zero is evaluated as decimal, and its C text means what its digits
write in base eight. -/
theorem leadingZero_octal :
    (∃ after, parse (.text "010") []
      = .ok (.prog none (.int ⟨"010", by decide, by decide⟩)) after) ∧
    (¬ ['*', '*'] <:+: "010".toList) ∧ "010".length ≤ Text.digitLimit ∧
    answer (toC (.text "010")) [] = .ok (C.opening ++ "010" ++ C.closing) ∧
    answer (evaluate (.text "010")) [] = .ok 10 ∧
    ∀ n, C.Means .additive "010".toList n ↔ n = 8 := by
  let literal : Literal := ⟨"010", by decide, by decide⟩
  have hphrase : Phrase .exp (Scanner.pieces "010".toList) (.int literal) :=
    (C.phrase_of_reads (.literal literal) (.literal literal)).toExp
  have htree : (Node.int literal).evaluate = .ok 10 := by decide +kernel
  have hwrite : C.writer.write (.int literal) = some "010" := rfl
  refine ⟨(parse_eq_ok_iff []).mpr hphrase, by simp [List.infix_cons_iff], by decide,
    answer_translate hphrase hwrite [], ?_, fun n ↦ ?_⟩
  · rw [answer_evaluate hphrase, htree]
    rfl
  · have hvalue : C.constantOf? literal = some 8 := by decide
    rw [C.means_iff_valueBy (.literal literal) (.literal literal), Node.valueBy, hvalue,
      Option.some.injEq, eq_comm]

end Expression

end ArithLang
