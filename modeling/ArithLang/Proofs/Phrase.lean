import ArithLang.Tree.Node
import Mathlib.Data.List.Basic

/-!
# Phrases of the expression language

The grammar of expressions as a relation between a row of tokens and a tree, stated without any
reference to a parser:

```text
Exp  ::= Term ('+' Term)*
Term ::= Pow ('*' Pow)*
Pow  ::= Fact ('**' Pow)?
Fact ::= INT | '(' Exp ')'
```

A repetition is read from its right end: a sum is a term, or a shorter sum followed by a plus sign
and a term. That is what folding to the left means, so the tree can be given along with the row. The
token of an operator or of a literal becomes the anchor of its node, and parentheses leave none.

## Where a phrase ends

A phrase of one level may be the front of a longer one of the same level, and what tells is the
token behind it. `Level.Stops` says that the token behind is no operator that would extend the
phrase.

## Where a phrase breaks off

A row that has no phrase of a level in front starts like one and then has a wrong token, or no token
at all. `Breaks` says how far such a row goes like a phrase and which categories of tokens would
have been right; it has a constructor for each place in a rule at which a particular token is
needed.
-/

namespace ArithLang

/-- The levels of phrases, from the loosest to the tightest. -/
inductive Level where
  /-- A sum. -/
  | exp
  /-- A product. -/
  | term
  /-- A power. -/
  | pow
  /-- A literal, or a sum in parentheses. -/
  | fact
deriving DecidableEq, Repr

/-- The tokens `w` are a phrase of a level, with the tree that they stand for. -/
inductive Phrase : Level → List Token → Node → Prop where
  /-- A literal. -/
  | literal (literal : Literal) : Phrase .fact [literal.token] (.int literal)
  /-- A sum in parentheses. -/
  | parenthesised {opening closing : Token} {w : List Token} {tree : Node}
      (hopening : opening.type = .category .openPar) (hclosing : closing.type = .category .closePar)
      (h : Phrase .exp w tree) : Phrase .fact (opening :: (w ++ [closing])) tree
  /-- A factor alone. -/
  | factor {w : List Token} {tree : Node} (h : Phrase .fact w tree) : Phrase .pow w tree
  /-- A factor raised to a power. -/
  | power {w v : List Token} {operator : Token} {base exponent : Node}
      (hbase : Phrase .fact w base) (hoperator : operator.type = .category .pow)
      (hexponent : Phrase .pow v exponent) :
      Phrase .pow (w ++ operator :: v) (.binary (some .pow) (some operator) base exponent)
  /-- A power alone. -/
  | single {w : List Token} {tree : Node} (h : Phrase .pow w tree) : Phrase .term w tree
  /-- A product multiplied by a power. -/
  | product {w v : List Token} {operator : Token} {left right : Node}
      (hleft : Phrase .term w left) (hoperator : operator.type = .category .times)
      (hright : Phrase .pow v right) :
      Phrase .term (w ++ operator :: v) (.binary (some .times) (some operator) left right)
  /-- A product alone. -/
  | summand {w : List Token} {tree : Node} (h : Phrase .term w tree) : Phrase .exp w tree
  /-- A sum to which a product is added. -/
  | sum {w v : List Token} {operator : Token} {left right : Node}
      (hleft : Phrase .exp w left) (hoperator : operator.type = .category .plus)
      (hright : Phrase .term v right) :
      Phrase .exp (w ++ operator :: v) (.binary (some .plus) (some operator) left right)

/-- The tokens start with an expression and the marker of its end; anything may follow. -/
def Sentence (tokens : List Token) (tree : Node) : Prop :=
  ∃ (w : List Token) (marker : Token) (rest : List Token),
    tokens = w ++ marker :: rest ∧ marker.type = .category .eof ∧ Phrase .exp w tree

/-! ## Phrases of several levels -/

namespace Phrase

variable {level : Level} {w : List Token} {tree : Node}

theorem toExp (h : Phrase level w tree) : Phrase .exp w tree := by
  cases level with
  | exp => exact h
  | term => exact .summand h
  | pow => exact .summand (.single h)
  | fact => exact .summand (.single (.factor h))

theorem ofFact (level : Level) (h : Phrase .fact w tree) : Phrase level w tree := by
  cases level with
  | exp => exact .summand (.single (.factor h))
  | term => exact .single (.factor h)
  | pow => exact .factor h
  | fact => exact h

/-- In parentheses, a phrase of one level is a phrase of any other, with the same tree. -/
theorem enclosed {opening closing : Token} (h : Phrase level w tree)
    (hopening : opening.type = .category .openPar) (hclosing : closing.type = .category .closePar)
    (other : Level) : Phrase other (opening :: (w ++ [closing])) tree :=
  ofFact other (.parenthesised hopening hclosing h.toExp)

end Phrase

/-! ## The token behind a phrase -/

namespace Level

/-- The operators that make a longer phrase of a phrase in front of them. -/
def extending : Level → List Category
  | .exp => [.plus, .times, .pow]
  | .term => [.times, .pow]
  | .pow => [.pow]
  | .fact => []

/-- No phrase of the level goes on at the front of `rest`. -/
def Stops (level : Level) (rest : List Token) : Prop :=
  ∀ token ∈ rest.head?, ∀ category ∈ level.extending, token.type ≠ .category category

@[simp] theorem stops_nil (level : Level) : level.Stops [] := by simp [Stops]

@[simp] theorem stops_cons_iff {level : Level} {token : Token} {rest : List Token} :
    level.Stops (token :: rest) ↔
      ∀ category ∈ level.extending, token.type ≠ .category category := by
  simp [Stops]

theorem stops_cons {level : Level} {token : Token} {category : Category} {rest : List Token}
    (htype : token.type = .category category) (h : category ∉ level.extending) :
    level.Stops (token :: rest) := by
  rw [stops_cons_iff]
  rintro other hmem hother
  rw [htype] at hother
  exact h (TokenType.category.inj hother ▸ hmem)

theorem Stops.mono {level other : Level} {rest : List Token} (h : level.Stops rest)
    (hsub : other.extending ⊆ level.extending) : other.Stops rest :=
  fun token htoken category hmem ↦ h token htoken category (hsub hmem)

end Level

/-! ## The token that breaks a phrase -/

/-- A phrase of a level starts with some tokens, and goes on with one of the categories listed or is
extended, but what stands there is `found`. -/
inductive Breaks (found : Option Token) : Level → List Token → List Category → Prop where
  /-- There is no factor. -/
  | factor (hint : ∀ token ∈ found, token.type ≠ .category .int)
      (hopening : ∀ token ∈ found, token.type ≠ .category .openPar) :
      Breaks found .fact [] [.int, .openPar]
  /-- The sum in parentheses breaks off. -/
  | inside {opening : Token} {taken : List Token} {expected : List Category}
      (hopening : opening.type = .category .openPar) (h : Breaks found .exp taken expected) :
      Breaks found .fact (opening :: taken) expected
  /-- The parenthesis is not closed. -/
  | unclosed {opening : Token} {w : List Token} {tree : Node}
      (hopening : opening.type = .category .openPar) (h : Phrase .exp w tree)
      (hstops : ∀ token ∈ found, ∀ category ∈ Level.exp.extending, token.type ≠ .category category)
      (hclosing : ∀ token ∈ found, token.type ≠ .category .closePar) :
      Breaks found .fact (opening :: w) [.closePar]
  /-- The factor of a power breaks off. -/
  | base {taken : List Token} {expected : List Category} (h : Breaks found .fact taken expected) :
      Breaks found .pow taken expected
  /-- The exponent breaks off. -/
  | exponent {w taken : List Token} {operator : Token} {base : Node} {expected : List Category}
      (hbase : Phrase .fact w base) (hoperator : operator.type = .category .pow)
      (h : Breaks found .pow taken expected) : Breaks found .pow (w ++ operator :: taken) expected
  /-- The first power of a product breaks off. -/
  | single {taken : List Token} {expected : List Category} (h : Breaks found .pow taken expected) :
      Breaks found .term taken expected
  /-- A further power breaks off. -/
  | product {w taken : List Token} {operator : Token} {left : Node} {expected : List Category}
      (hleft : Phrase .term w left) (hoperator : operator.type = .category .times)
      (h : Breaks found .pow taken expected) : Breaks found .term (w ++ operator :: taken) expected
  /-- The first product of a sum breaks off. -/
  | summand {taken : List Token} {expected : List Category}
      (h : Breaks found .term taken expected) : Breaks found .exp taken expected
  /-- A further product breaks off. -/
  | sum {w taken : List Token} {operator : Token} {left : Node} {expected : List Category}
      (hleft : Phrase .exp w left) (hoperator : operator.type = .category .plus)
      (h : Breaks found .term taken expected) : Breaks found .exp (w ++ operator :: taken) expected

/-- An expression and the marker of its end start with some tokens, and go on with one of the
categories listed or the expression is extended, but what stands there is `found`. -/
inductive Sentence.Breaks (found : Option Token) : List Token → List Category → Prop where
  /-- The expression breaks off. -/
  | body {taken : List Token} {expected : List Category}
      (h : ArithLang.Breaks found .exp taken expected) : Sentence.Breaks found taken expected
  /-- The expression is not followed by the marker. -/
  | unmarked {w : List Token} {tree : Node} (h : Phrase .exp w tree)
      (hstops : ∀ token ∈ found, ∀ category ∈ Level.exp.extending, token.type ≠ .category category)
      (hmarker : ∀ token ∈ found, token.type ≠ .category .eof) : Sentence.Breaks found w [.eof]

/-! ## Decimal tokens -/

@[simp] theorem Literal.ofPayload_lexeme (literal : Literal) :
    ofPayload (.text literal.lexeme) = .ok literal := by
  simp only [ofPayload, ofText?_lexeme]

@[simp] theorem Literal.isOk_ofPayload_iff {payload : Payload} :
    (ofPayload payload).isOk = true ↔ ∃ literal : Literal, payload = .text literal.lexeme := by
  constructor
  · intro h
    cases payload with
    | text text =>
      cases hliteral : ofText? text with
      | some literal => exact ⟨literal, by rw [lexeme_of_ofText? hliteral]⟩
      | none =>
        rw [ofPayload, hliteral] at h
        cases h
    | absent => cases h
    | number value => cases h
  · rintro ⟨literal, rfl⟩
    rw [ofPayload_lexeme]
    rfl

namespace Token

/-- The token is none of the integer tokens, or it carries a literal. -/
def Decimal (token : Token) : Prop :=
  token.type = .category .int → ∃ literal : Literal, token.payload = .text literal.lexeme

instance (token : Token) : Decidable token.Decimal :=
  decidable_of_iff (token.type = .category .int → (Literal.ofPayload token.payload).isOk = true)
    (forall_congr' fun _ ↦ Literal.isOk_ofPayload_iff)

theorem Decimal.eq_token {token : Token} (h : token.Decimal) (htype : token.type = .category .int) :
    ∃ literal : Literal, token = literal.token := by
  obtain ⟨literal, hpayload⟩ := h htype
  refine ⟨literal, ?_⟩
  cases token
  simp only at htype hpayload
  rw [htype, hpayload]
  rfl

end Token

end ArithLang
