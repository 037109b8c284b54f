import ArithLang.Proofs.Translation.Arithmetic
import Mathlib.Algebra.BigOperators.Group.List.Basic
import Mathlib.Data.Nat.Digits.Defs

/-!
# The value of an expression, read off its tokens

An expression without powers can be read without a tree. Its tokens are divided at the plus signs
that stand outside all parentheses, the parts at the multiplication signs that do, and what is left
between those is a literal or a group in parentheses, which is read in the same way:

```text
2*(03+2)+7   ↦   2*(03+2) | 7   ↦   2 · (03+2)  |  7   ↦   2 · (3 + 2)  +  7
```

`Direct.sumValue` is this reading. The evaluation answers the same value
(`Expression.evaluate_eq_sumValue`), although the parser never divides tokens: it looks at one token
at a time and folds to the left, and what it builds is then walked.

## Dividing a phrase

What the division must not do is cut inside a group, and what it must do is cut at every sign
between the parts. The first is a fact on phrases at any depth of parentheses (`Phrase.undivided`):
by induction on the phrase, none is divided at an operator that could not extend it, and none at all
below a parenthesis. The second then follows for a repetition from its right end
(`Separable.extended`).
-/

namespace ArithLang

private theorem Operator.category_injective : Function.Injective Operator.category := by
  intro operator other h
  cases operator <;> cases other <;> first | rfl | cases h

namespace Direct

/-! ## The reading -/

/-- The depth of parentheses behind a token. -/
def depthBehind (depth : ℕ) (token : Token) : ℕ :=
  if token.type = .category .openPar then depth + 1
  else if token.type = .category .closePar then depth - 1
  else depth

/-- The parts of some tokens between the signs of an operator that stand outside all parentheses.
The tokens themselves stand at some depth of parentheses. -/
def divide (operator : Operator) : ℕ → List Token → List (List Token)
  | _, [] => [[]]
  | depth, token :: rest =>
    if depth = 0 ∧ token.type = .category operator.category then [] :: divide operator 0 rest
    else (divide operator (depthBehind depth token) rest).modifyHead (token :: ·)

theorem length_le_of_mem_divide {operator : Operator} {depth : ℕ} {w part : List Token}
    (h : part ∈ divide operator depth w) : part.length ≤ w.length := by
  induction w generalizing depth part with
  | nil =>
    rw [divide, List.mem_singleton] at h
    rw [h]
  | cons token rest ih =>
    rw [divide] at h
    split at h
    · rcases List.mem_cons.mp h with rfl | h
      · exact Nat.zero_le _
      · exact Nat.le_succ_of_le (ih h)
    · have hrest : ∀ part ∈ divide operator (depthBehind depth token) rest,
          part.length ≤ rest.length := fun _ ↦ ih
      generalize divide operator (depthBehind depth token) rest = parts at h hrest
      obtain _ | ⟨first, parts⟩ := parts
      · cases h
      · rw [List.forall_mem_cons] at hrest
        rcases List.mem_cons.mp h with rfl | h
        · exact Nat.succ_le_succ hrest.1
        · exact Nat.le_succ_of_le (hrest.2 part h)

/-- The number that the text of a token writes in decimal digits of any script. -/
def number (token : Token) : ℕ :=
  match token.payload with
  | .text lexeme => Nat.ofDigits 10 (lexeme.toList.reverse.map Text.digitValue)
  | _ => 0

mutual

/-- The sum of the parts between plus signs. -/
def sumValue (w : List Token) : ℕ :=
  ((divide .plus 0 w).attach.map fun part ↦ productValue part.1).sum
termination_by (w.length, 2)
decreasing_by
  exact Prod.Lex.right' _ (length_le_of_mem_divide part.2) (by decide)

/-- The product of the parts between multiplication signs. -/
def productValue (w : List Token) : ℕ :=
  ((divide .times 0 w).attach.map fun part ↦ factorValue part.1).prod
termination_by (w.length, 1)
decreasing_by
  exact Prod.Lex.right' _ (length_le_of_mem_divide part.2) (by decide)

/-- The number of a single token, and the value of what stands between the first and the last token
of a group. -/
def factorValue : List Token → ℕ
  | [] => 0
  | [token] => number token
  | _ :: inner => sumValue inner.dropLast
termination_by w => (w.length, 0)
decreasing_by
  refine Prod.Lex.left _ _ ?_
  rw [List.length_dropLast, List.length_cons]
  omega

end

private theorem sumValue_eq (w : List Token) :
    sumValue w = ((divide .plus 0 w).map productValue).sum := by
  rw [sumValue, List.attach_map_val]

private theorem productValue_eq (w : List Token) :
    productValue w = ((divide .times 0 w).map factorValue).prod := by
  rw [productValue, List.attach_map_val]

@[simp] private theorem factorValue_group (opening closing : Token) (w : List Token) :
    factorValue (opening :: (w ++ [closing])) = sumValue w := by
  obtain ⟨first, inner, hinner⟩ := List.exists_cons_of_ne_nil (List.concat_ne_nil closing w)
  rw [hinner, factorValue, ← hinner, List.dropLast_concat]
  exact List.cons_ne_nil first inner

@[simp] private theorem factorValue_literal (literal : Literal) :
    factorValue [literal.token] = literal.value := by
  rw [factorValue, Literal.value]
  change Nat.ofDigits 10 (literal.lexeme.toList.reverse.map Text.digitValue) = _
  induction literal.lexeme.toList using List.reverseRecOn with
  | nil => rfl
  | append_singleton digits c ih =>
    rw [List.reverse_concat, List.map_cons, Nat.ofDigits_cons, ih, C.digitsValue_concat,
      Nat.add_comm]

/-! ## What is not divided, and what is -/

section Divide

variable {operator : Operator} {depth : ℕ} {w v : List Token} {token : Token}

/-- At a depth of parentheses, the tokens `w` are not divided, whatever follows, and what follows is
at the same depth. -/
def Undivided (operator : Operator) (depth : ℕ) (w : List Token) : Prop :=
  ∀ rest, divide operator depth (w ++ rest) = (divide operator depth rest).modifyHead (w ++ ·)

theorem Undivided.divide_eq (h : Undivided operator depth w) : divide operator depth w = [w] := by
  have hend := h []
  rwa [List.append_nil, divide, List.modifyHead_cons, List.append_nil] at hend

theorem Undivided.append (hw : Undivided operator depth w) (hv : Undivided operator depth v) :
    Undivided operator depth (w ++ v) := by
  intro rest
  rw [List.append_assoc, hw, hv, List.modifyHead_modifyHead]
  exact congrArg (List.modifyHead · _) (funext fun part ↦ (List.append_assoc w v part).symm)

/-- A token that is no parenthesis is divided at only outside all parentheses. -/
theorem undivided_token (category : Category) (htype : token.type = .category category)
    (hopening : category ≠ .openPar) (hclosing : category ≠ .closePar)
    (hsign : depth = 0 → category ≠ operator.category) : Undivided operator depth [token] := by
  intro rest
  have hdepth : depthBehind depth token = depth := by
    rw [depthBehind, htype, if_neg (fun h ↦ hopening (TokenType.category.inj h)),
      if_neg (fun h ↦ hclosing (TokenType.category.inj h))]
  rw [List.singleton_append, divide, hdepth, htype,
    if_neg fun h ↦ hsign h.1 (TokenType.category.inj h.2)]
  rfl

theorem Undivided.operation (other : Operator) (hw : Undivided operator depth w)
    (htype : token.type = .category other.category) (hother : depth = 0 → operator ≠ other)
    (hv : Undivided operator depth v) : Undivided operator depth (w ++ token :: v) := by
  refine hw.append (Undivided.append (w := [token]) (undivided_token _ htype ?_ ?_ ?_) hv)
  · cases other <;> decide
  · cases other <;> decide
  · exact fun hdepth hsame ↦ hother hdepth (Operator.category_injective hsame.symm)

theorem Undivided.group {opening closing : Token} (h : Undivided operator (depth + 1) w)
    (hopening : opening.type = .category .openPar)
    (hclosing : closing.type = .category .closePar) :
    Undivided operator depth (opening :: (w ++ [closing])) := by
  have hsign : Category.openPar ≠ operator.category := by cases operator <;> decide
  intro rest
  have hin : depthBehind depth opening = depth + 1 := if_pos hopening
  have hout : depthBehind (depth + 1) closing = depth := by
    rw [depthBehind, hclosing, if_neg (by decide), if_pos rfl, Nat.add_sub_cancel]
  rw [List.cons_append, divide, hin, hopening, if_neg fun h ↦ hsign (TokenType.category.inj h.2),
    List.append_assoc, h, List.singleton_append, divide, hout,
    if_neg fun h ↦ Nat.succ_ne_zero depth h.1, List.modifyHead_modifyHead,
    List.modifyHead_modifyHead]
  refine congrArg (List.modifyHead · _) (funext fun part ↦ ?_)
  simp

/-- Outside all parentheses, a sign behind the tokens `w` is one that the parts of `w` end at. -/
def Separable (operator : Operator) (w : List Token) : Prop :=
  ∀ (token : Token) (v : List Token), token.type = .category operator.category →
    divide operator 0 (w ++ token :: v) = divide operator 0 w ++ divide operator 0 v

theorem Undivided.separable (h : Undivided operator 0 w) : Separable operator w := by
  intro token v htype
  rw [h, h.divide_eq, divide, if_pos ⟨rfl, htype⟩, List.modifyHead_cons, List.append_nil,
    List.singleton_append]

theorem Separable.extended (hw : Separable operator w)
    (htype : token.type = .category operator.category) (hv : Undivided operator 0 v) :
    Separable operator (w ++ token :: v) := by
  intro sign rest hsign
  rw [List.append_assoc, List.cons_append, hw token _ htype, hv.separable sign rest hsign,
    hw token v htype, List.append_assoc]

end Divide

end Direct

namespace Phrase

open Direct

variable {level : Level} {operator : Operator} {w v : List Token} {token : Token}
  {tree left right : Node}

/-- **A phrase is not divided** at an operator that could not extend it, and at none in
parentheses. -/
theorem undivided (h : Phrase level w tree) : ∀ {depth : ℕ},
    (depth = 0 → operator.category ∉ level.extending) → Undivided operator depth w := by
  induction h with
  | literal literal =>
    intro _ _
    exact undivided_token .int rfl (by decide) (by decide)
      fun _ ↦ by cases operator <;> decide
  | parenthesised hopening hclosing _ ih =>
    intro depth _
    exact (ih fun h ↦ absurd h (Nat.succ_ne_zero depth)).group hopening hclosing
  | factor _ ih => exact fun _ ↦ ih fun _ ↦ List.not_mem_nil
  | single _ ih => exact fun hlevel ↦ ih fun h hmem ↦ hlevel h (List.mem_cons_of_mem _ hmem)
  | summand _ ih => exact fun hlevel ↦ ih fun h hmem ↦ hlevel h (List.mem_cons_of_mem _ hmem)
  | power _ htype _ ihbase ihexponent =>
    intro depth hlevel
    refine (ihbase fun _ ↦ List.not_mem_nil).operation .pow htype ?_ (ihexponent hlevel)
    rintro h rfl
    exact hlevel h (by decide)
  | product _ htype _ ihleft ihright =>
    intro depth hlevel
    refine (ihleft hlevel).operation .times htype ?_
      (ihright fun h hmem ↦ hlevel h (List.mem_cons_of_mem _ hmem))
    rintro h rfl
    exact hlevel h (by decide)
  | sum _ htype _ ihleft ihright =>
    intro depth hlevel
    refine (ihleft hlevel).operation .plus htype ?_
      (ihright fun h hmem ↦ hlevel h (List.mem_cons_of_mem _ hmem))
    rintro h rfl
    exact hlevel h (by decide)

end Phrase

/-! ## The reading of a phrase -/

namespace Direct

/-- The reading of the phrases of a level. -/
def value : Level → List Token → ℕ
  | .exp => sumValue
  | .term => productValue
  | .pow => factorValue
  | .fact => factorValue

/-- The phrases of a level are parts with an operator between them, and the direct reading makes one
number of those of the parts. -/
inductive Division : Level → Operator → Level → (List ℕ → ℕ) → Prop where
  /-- A sum of products. -/
  | sum : Division .exp .plus .term List.sum
  /-- A product of powers. -/
  | product : Division .term .times .pow List.prod

namespace Division

variable {level part : Level} {operator : Operator} {total : List ℕ → ℕ} {w v : List Token}
  {token : Token} {tree left right : Node}

theorem value_eq (hlevel : Division level operator part total) (w : List Token) :
    value level w = total ((divide operator 0 w).map (value part)) := by
  cases hlevel with
  | sum => exact sumValue_eq w
  | product => exact productValue_eq w

private theorem total_singleton (hlevel : Division level operator part total) (n : ℕ) :
    total [n] = n := by
  cases hlevel with
  | sum => exact List.sum_singleton
  | product => exact List.prod_singleton

private theorem total_append (hlevel : Division level operator part total) (x y : List ℕ) :
    operator.exact? (total x) (total y) = some (total (x ++ y)) := by
  cases hlevel with
  | sum => exact congrArg some List.sum_append.symm
  | product => exact congrArg some List.prod_append.symm

private theorem category_notMem (hlevel : Division level operator part total) :
    operator.category ∉ part.extending := by
  cases hlevel <;> decide

theorem undivided (hlevel : Division level operator part total) (h : Phrase part w tree) :
    Undivided operator 0 w :=
  h.undivided fun _ ↦ hlevel.category_notMem

theorem separable (hlevel : Division level operator part total) (h : Phrase level w tree) :
    Separable operator w := by
  induction h with
  | summand h =>
    cases hlevel
    exact (Division.sum.undivided h).separable
  | single h =>
    cases hlevel
    exact (Division.product.undivided h).separable
  | sum _ htype hright ih =>
    cases hlevel
    exact (ih .sum).extended htype (Division.sum.undivided hright)
  | product _ htype hright ih =>
    cases hlevel
    exact (ih .product).extended htype (Division.product.undivided hright)
  | _ => cases hlevel

theorem value_part (hlevel : Division level operator part total) (h : Phrase part w tree) :
    value level w = value part w := by
  rw [hlevel.value_eq, (hlevel.undivided h).divide_eq, List.map_singleton, hlevel.total_singleton]

theorem value_append (hlevel : Division level operator part total) (hleft : Phrase level w left)
    (htype : token.type = .category operator.category) (hright : Phrase part v right) :
    operator.exact? (value level w) (value part v) = some (value level (w ++ token :: v)) := by
  rw [← hlevel.value_part hright, hlevel.value_eq w, hlevel.value_eq v, hlevel.total_append,
    hlevel.value_eq, hlevel.separable hleft token v htype, List.map_append]

end Division

end Direct

/-- **The reading of a phrase is the value of its tree**, if there are no powers in it. -/
theorem Phrase.valueBy_eq {level : Level} {w : List Token} {tree : Node} (h : Phrase level w tree)
    (hpow : ∀ token ∈ w, token.type ≠ .category .pow) :
    tree.valueBy (fun literal ↦ some literal.value) = some (Direct.value level w) := by
  induction h with
  | literal literal => exact congrArg some (Direct.factorValue_literal literal).symm
  | @parenthesised opening closing w tree _ _ _ ih =>
    rw [List.forall_mem_cons, List.forall_mem_append] at hpow
    rw [ih hpow.2.1]
    exact congrArg some (Direct.factorValue_group opening closing w).symm
  | factor _ ih => exact ih hpow
  | single h ih => exact (ih hpow).trans (congrArg some (Direct.Division.product.value_part h).symm)
  | summand h ih => exact (ih hpow).trans (congrArg some (Direct.Division.sum.value_part h).symm)
  | power _ htype => exact absurd htype (hpow _ (by simp))
  | product hleft htype hright ihleft ihright =>
    rw [List.forall_mem_append, List.forall_mem_cons] at hpow
    refine Node.valueBy_binary_eq_some_iff.mpr ⟨_, _, ihleft hpow.1, ihright hpow.2.2, ?_⟩
    exact Direct.Division.product.value_append hleft htype hright
  | sum hleft htype hright ihleft ihright =>
    rw [List.forall_mem_append, List.forall_mem_cons] at hpow
    refine Node.valueBy_binary_eq_some_iff.mpr ⟨_, _, ihleft hpow.1, ihright hpow.2.2, ?_⟩
    exact Direct.Division.sum.value_append hleft htype hright

private theorem Phrase.token_mem_of_mem_literals {level : Level} {w : List Token} {tree : Node}
    (h : Phrase level w tree) : ∀ literal ∈ tree.literals, literal.token ∈ w := by
  have hoperation : ∀ {w v : List Token} {sign : Token} {left right : Node},
      (∀ literal ∈ left.literals, literal.token ∈ w) →
      (∀ literal ∈ right.literals, literal.token ∈ v) →
      ∀ literal ∈ left.literals ++ right.literals, literal.token ∈ w ++ sign :: v := by
    intro w v sign left right hleft hright literal hmem
    rcases List.mem_append.mp hmem with hmem | hmem
    · exact List.mem_append_left _ (hleft literal hmem)
    · exact List.mem_append_right w (List.mem_cons_of_mem sign (hright literal hmem))
  induction h with
  | literal literal => simp [Node.literals]
  | parenthesised _ _ _ ih =>
    exact fun literal hmem ↦ List.mem_cons_of_mem _ (List.mem_append_left _ (ih literal hmem))
  | factor _ ih => exact ih
  | single _ ih => exact ih
  | summand _ ih => exact ih
  | power _ _ _ ihleft ihright => exact hoperation ihleft ihright
  | product _ _ _ ihleft ihright => exact hoperation ihleft ihright
  | sum _ _ _ ihleft ihright => exact hoperation ihleft ihright

namespace Expression

/-- **The evaluation of an expression without powers** never fails unless a literal is too long, and
answers what the direct reading of its tokens in front of the marker of the end does. -/
theorem evaluate_eq_sumValue {source : String} {tree : Node} {before after : List Log.Entry}
    (hparse : parse (.text source) before = .ok tree after)
    (hpow : ∀ token ∈ Scanner.tokens source, token.type ≠ .category .pow)
    (hlength : ∀ lexeme, .ofCategory .int lexeme ∈ Scanner.tokens source →
      lexeme.length ≤ Text.digitLimit) (log : List Log.Entry) :
    answer (evaluate (.text source)) log
      = .ok (Direct.sumValue (Scanner.tokens source).dropLast) := by
  obtain ⟨body, final, hbody⟩ | ⟨reason, final, herror⟩ := parseText_cases source before
  · have hphrase := (parse_eq_ok_iff before).mp ⟨final, hbody⟩
    rw [Scanner.tokens_eq_pieces] at hpow hlength ⊢
    rw [List.dropLast_concat]
    rw [List.forall_mem_append] at hpow
    have hshort : ∀ literal ∈ body.literals, literal.length ≤ Text.digitLimit :=
      fun literal hmem ↦ hlength literal.lexeme
        (List.mem_append_left _ (hphrase.token_mem_of_mem_literals literal hmem))
    obtain ⟨value, hevaluate, hvalue⟩ := (hphrase.powerFree hpow.1).exists_evaluate hshort
    obtain rfl := Option.some.inj (hvalue.symm.trans (hphrase.valueBy_eq hpow.1))
    rw [answer_evaluate hphrase, hevaluate]
    rfl
  · -- an accepted source is not rejected
    cases hparse.symm.trans herror

/-- The value of `2*(03+2)`, by dividing its tokens. -/
theorem evaluate_eq_sumValue_productOfSum :
    (∃ after, parse (.text "2*(03+2)") [] = .ok (.prog none productOfSum) after) ∧
    (∀ token ∈ Scanner.tokens "2*(03+2)", token.type ≠ .category .pow) ∧
    (∀ lexeme, .ofCategory .int lexeme ∈ Scanner.tokens "2*(03+2)" →
      lexeme.length ≤ Text.digitLimit) ∧
    Direct.sumValue (Scanner.tokens "2*(03+2)").dropLast = 10 ∧
    answer (evaluate (.text "2*(03+2)")) [] = .ok 10 := by
  have htokens : Scanner.tokens "2*(03+2)" = [.ofCategory .int "2", .ofCategory .times "*",
      .ofCategory .openPar "(", .ofCategory .int "03", .ofCategory .plus "+",
      .ofCategory .int "2", .ofCategory .closePar ")", .marker (.category .eof)] := by
    decide +kernel
  have hpow : ∀ token ∈ Scanner.tokens "2*(03+2)", token.type ≠ .category .pow := by
    rw [htokens]
    decide
  have hlength : ∀ lexeme, .ofCategory .int lexeme ∈ Scanner.tokens "2*(03+2)" →
      lexeme.length ≤ Text.digitLimit := by
    intro lexeme hmem
    have hlexeme : lexeme = "2" ∨ lexeme = "03" ∨ lexeme = "2" := by
      simpa [htokens, Token.ofCategory, Token.marker] using hmem
    rcases hlexeme with rfl | rfl | rfl <;> decide
  have hvalue : Direct.sumValue (Scanner.tokens "2*(03+2)").dropLast = 10 := by
    simp [htokens, Direct.sumValue_eq, Direct.productValue_eq, Direct.factorValue, Direct.divide,
      Direct.depthBehind, Direct.number, Token.ofCategory, Operator.category, Text.digitValue,
      Text.digitValue?, Text.digitZeros, Nat.ofDigits]
  obtain ⟨after, hparse⟩ := (parse_eq_ok_iff []).mpr phrase_productOfSum
  refine ⟨⟨after, hparse⟩, hpow, hlength, hvalue, ?_⟩
  rw [← hvalue]
  exact evaluate_eq_sumValue hparse hpow hlength []

end Expression

end ArithLang
