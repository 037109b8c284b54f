import ArithLang.Proofs.Expression
import ArithLang.Proofs.Segmentation
import Mathlib.Data.List.Basic

/-!
# The pieces of expressions

`Scanner.pieces` are the tokens of a text without the marker at its end. They are made of the
segments of the text, and the segment of an operator is the operator's sign. So a sign in a text is
one piece, where no asterisk behind it makes it another one, and the token of an operator is made
only where its sign stands.

The pieces also say whether a text is an expression: they are a phrase, and the marker behind them
is what ends it (`sentence_tokens_iff`).
-/

namespace ArithLang

/-! ## Operators as text -/

namespace Operator

/-- The sign of an operator. -/
def sign : Operator → String
  | .plus => "+"
  | .times => "*"
  | .pow => "**"

/-- The token of an operator, as it is made of the operator's sign. -/
def token (operator : Operator) : Token := .ofCategory operator.category operator.sign

@[simp] theorem token_type (operator : Operator) :
    operator.token.type = .category operator.category := rfl

/-- The segment that is the sign of an operator. -/
def segment : Operator → Segment
  | .plus => ⟨.plus, ['+']⟩
  | .times => .times
  | .pow => .pow

@[simp] private theorem segment_text (operator : Operator) :
    operator.segment.text = operator.sign.toList := by
  cases operator <;> rfl

@[simp] private theorem segment_token? (operator : Operator) :
    operator.segment.token? = some operator.token := by
  cases operator <;> rfl

private theorem segment_fits (operator : Operator) {rest : List Char}
    (h : operator = .times → rest.head? ≠ some '*') : operator.segment.Fits rest := by
  cases operator with
  | plus => exact .plus rest
  | times => exact .times (h rfl)
  | pow => exact .pow rest

end Operator

/-- The token of an operator is made of the operator's segment only. -/
private theorem Segment.Fits.eq_segment {segment : Segment} {rest : List Char}
    (h : segment.Fits rest)
    {token : Token} (htoken : segment.token? = some token) {operator : Operator}
    (htype : token.type = .category operator.category) : segment = operator.segment := by
  have hcategory : segment.shape.category? = some operator.category := by
    obtain ⟨category, hshape, rfl⟩ := Option.map_eq_some_iff.mp htoken
    rw [hshape, ← TokenType.category.inj htype]
  cases h with
  | plus | pow | times => cases operator <;> first | rfl | cases hcategory
  | _ => cases operator <;> cases hcategory

namespace Scanner

/-! ## Some segments and their pieces -/

theorem pieces_digits {digits : List Char} (hne : digits ≠ [])
    (hall : digits.all Text.isDigit = true) :
    pieces digits = [.ofCategory .int (String.ofList digits)] := by
  have hfits : Segment.Fits ⟨.digits, digits⟩ [] := .digits hne hall undigited_nil
  have hpieces := hfits.pieces_eq
  rwa [List.append_nil, pieces_nil] at hpieces

@[simp] theorem pieces_opening (rest : List Char) :
    pieces ('(' :: rest) = .ofCategory .openPar "(" :: pieces rest :=
  (Segment.Fits.opening rest).pieces_eq

@[simp] theorem pieces_closing (rest : List Char) :
    pieces (')' :: rest) = .ofCategory .closePar ")" :: pieces rest :=
  (Segment.Fits.closing rest).pieces_eq

@[simp] theorem pieces_sign (operator : Operator) {rest : List Char}
    (h : operator = .times → rest.head? ≠ some '*') :
    pieces (operator.sign.toList ++ rest) = operator.token :: pieces rest := by
  have hpieces := (operator.segment_fits h).pieces_eq
  rwa [operator.segment_text, operator.segment_token?] at hpieces

/-! ## What the pieces are -/

theorem token_and_sign_of_mem_pieces {text : List Char} {token : Token} (h : token ∈ pieces text)
    {operator : Operator} (htype : token.type = .category operator.category) :
    token = operator.token ∧ operator.sign.toList <:+: text := by
  obtain ⟨segments, hsegments⟩ := Segmentation.exists_of_text text
  rw [hsegments.pieces_eq] at h
  obtain ⟨segment, hmem, htoken⟩ := List.mem_filterMap.mp h
  obtain ⟨rest, hsuffix, hfits⟩ := hsegments.exists_fits_of_mem hmem
  obtain rfl := hfits.eq_segment htoken htype
  rw [operator.segment_text] at hsuffix
  exact ⟨Option.some.inj (htoken.symm.trans operator.segment_token?),
    (List.prefix_append _ rest).isInfix.trans hsuffix.isInfix⟩

theorem eq_token_of_mem_pieces {text : List Char} :
    ∀ token ∈ pieces text, ∀ operator : Operator, token.type = .category operator.category →
      token = operator.token :=
  fun _ hmem _ htype ↦ (token_and_sign_of_mem_pieces hmem htype).1

/-- The token of an operator is made only where the text has the operator's sign. -/
theorem sign_infix_of_mem_pieces {text : List Char} :
    ∀ token ∈ pieces text, ∀ operator : Operator, token.type = .category operator.category →
      operator.sign.toList <:+: text :=
  fun _ hmem _ htype ↦ (token_and_sign_of_mem_pieces hmem htype).2

private theorem type_ne_eof_of_mem_pieces {text : List Char} {token : Token}
    (h : token ∈ pieces text) :
    token.type ≠ .category .eof := by
  obtain ⟨category, lexeme, heof, -, rfl⟩ := ((run_spec (ε := Empty) text).2 token h).made
  exact fun htype ↦ heof (TokenType.category.inj htype)

/-- **A text is an expression** if its pieces are a phrase. -/
@[simp] theorem sentence_tokens_iff {text : String} {tree : Node} :
    Sentence (tokens text) tree ↔ Phrase .exp (pieces text.toList) tree := by
  rw [tokens_eq_pieces]
  constructor
  · rintro ⟨w, marker, rest, hsplit, hmarker, hphrase⟩
    -- no piece is a marker, so the one behind the phrase is the last token
    rcases List.eq_nil_or_concat rest with rfl | ⟨rest, last, rfl⟩
    · rwa [(List.append_inj' hsplit rfl).1]
    · rw [List.concat_eq_append, ← List.cons_append, ← List.append_assoc] at hsplit
      have hpieces : pieces text.toList = w ++ marker :: rest := (List.append_inj' hsplit rfl).1
      have hmem : marker ∈ pieces text.toList :=
        hpieces ▸ List.mem_append_right w List.mem_cons_self
      exact absurd hmarker (type_ne_eof_of_mem_pieces hmem)
  · exact fun hphrase ↦ ⟨_, _, [], rfl, rfl, hphrase⟩

end Scanner

end ArithLang
