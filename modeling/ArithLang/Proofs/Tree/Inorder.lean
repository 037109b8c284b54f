import ArithLang.Proofs.Phrase
import ArithLang.Proofs.Pieces
import Mathlib.Data.List.Basic

/-!
# The anchors of a tree in order

Every token of a phrase that is not a parenthesis is the anchor of one node of the tree, and reading
the anchors in order, each between those below its first child and those below the others, gives the
tokens of the phrase back. So the folds of the parser lose no token, repeat none and keep their
order, whatever the tree looks like.

The number of tokens is then the number of nodes, as each node of such a tree has an anchor.
-/

namespace ArithLang

/-- Whether a token belongs to one of some categories. -/
def Token.isAmong (categories : List Category) (token : Token) : Bool :=
  categories.any fun category ↦ token.type = .category category

namespace Token

theorem isAmong_iff {categories : List Category} {token : Token} {category : Category}
    (h : token.type = .category category) :
    token.isAmong categories = true ↔ category ∈ categories := by
  simp only [isAmong, h, TokenType.category.injEq, List.any_eq_true, decide_eq_true_eq]
  constructor
  · rintro ⟨other, hmem, rfl⟩
    exact hmem
  · exact fun hmem ↦ ⟨category, hmem, rfl⟩

end Token

namespace Outline

mutual

/-- The anchors of a tree in order: those below the first child, then that of the node, then those
below the other children. -/
def inorder : Outline → List Token
  | .node _ anchor [] => anchor.toList
  | .node _ anchor (first :: rest) => first.inorder ++ (anchor.toList ++ inorderAll rest)

/-- The anchors of some trees, each in order. -/
def inorderAll : List Outline → List Token
  | [] => []
  | child :: rest => child.inorder ++ inorderAll rest

end

end Outline

namespace Node

/-- The anchors of a tree in order. -/
def inorder (tree : Node) : List Token := tree.outline.inorder

@[simp] theorem inorder_prog (anchor : Option Token) (body : Node) :
    (prog anchor body).inorder = body.inorder ++ anchor.toList := by
  simp only [inorder, outline, Outline.inorder, Outline.inorderAll, List.append_nil]

@[simp] theorem inorder_binary (operator : Option Operator) (anchor : Option Token)
    (left right : Node) :
    (binary operator anchor left right).inorder
      = left.inorder ++ (anchor.toList ++ right.inorder) := by
  simp only [inorder, outline, Outline.inorder, Outline.inorderAll, List.append_nil]

end Node

/-- The categories whose tokens become anchors. -/
def Category.anchoring : List Category := [.int, .plus, .times, .pow]

namespace Phrase

variable {level : Level} {w : List Token} {tree : Node}

/-- **The anchors in order** are the tokens of the phrase without the parentheses. -/
theorem inorder_eq (h : Phrase level w tree) :
    tree.inorder = w.filter (Token.isAmong Category.anchoring) := by
  have hoperation : ∀ (operator : Operator) {w v : List Token} {token : Token} {left right : Node},
      token.type = .category operator.category →
      left.inorder = w.filter (Token.isAmong Category.anchoring) →
      right.inorder = v.filter (Token.isAmong Category.anchoring) →
      (Node.binary (some operator) (some token) left right).inorder
        = (w ++ token :: v).filter (Token.isAmong Category.anchoring) := by
    intro operator w v token left right htype hleft hright
    have htoken : token.isAmong Category.anchoring = true := by
      rw [Token.isAmong_iff htype]
      cases operator <;> decide
    rw [Node.inorder_binary, hleft, hright, List.filter_append, List.filter_cons_of_pos htoken]
    rfl
  induction h with
  | literal literal => rfl
  | parenthesised hopening hclosing _ ih =>
    have hdropped : ∀ {token : Token} {category : Category}, category ∉ Category.anchoring →
        token.type = .category category → ¬ token.isAmong Category.anchoring = true :=
      fun hnot htype ↦ (Token.isAmong_iff htype).not.mpr hnot
    rw [ih, List.filter_cons_of_neg (hdropped (by decide) hopening), List.filter_append,
      List.filter_cons_of_neg (hdropped (by decide) hclosing), List.filter_nil, List.append_nil]
  | factor _ ih => exact ih
  | single _ ih => exact ih
  | summand _ ih => exact ih
  | power _ htype _ ihleft ihright => exact hoperation .pow htype ihleft ihright
  | product _ htype _ ihleft ihright => exact hoperation .times htype ihleft ihright
  | sum _ htype _ ihleft ihright => exact hoperation .plus htype ihleft ihright

theorem exists_category (h : Phrase level w tree) :
    ∀ token ∈ w, ∃ category, category ≠ .eof ∧ category ≠ .badToken ∧
      token.type = .category category := by
  induction h with
  | literal literal =>
    exact List.forall_mem_singleton.mpr ⟨.int, by decide, by decide, rfl⟩
  | parenthesised hopening hclosing _ ih =>
    rw [List.forall_mem_cons, List.forall_mem_append, List.forall_mem_singleton]
    exact ⟨⟨_, by decide, by decide, hopening⟩, ih, _, by decide, by decide, hclosing⟩
  | factor _ ih => exact ih
  | single _ ih => exact ih
  | summand _ ih => exact ih
  | power _ htype _ ihleft ihright | product _ htype _ ihleft ihright
  | sum _ htype _ ihleft ihright =>
    rw [List.forall_mem_append, List.forall_mem_cons]
    exact ⟨ihleft, ⟨_, by decide, by decide, htype⟩, ihright⟩

end Phrase

/-! ## The tokens of a text -/

section Texts

variable {text : String} {tree : Node}

/-- The tokens of an expression are its anchors in order, parentheses, and the marker of the end. -/
theorem Phrase.inorder_eq_tokens (h : Phrase .exp (Scanner.pieces text.toList) tree) :
    tree.inorder
      = (Scanner.tokens text).filter fun token ↦ !token.isAmong [.openPar, .closePar, .eof] := by
  have hpieces : ∀ token ∈ Scanner.pieces text.toList,
      token.isAmong Category.anchoring = !token.isAmong [.openPar, .closePar, .eof] := by
    intro token hmem
    obtain ⟨category, heof, hbad, htype⟩ := h.exists_category token hmem
    rw [Bool.eq_iff_iff, Bool.not_eq_true', ← Bool.not_eq_true, Token.isAmong_iff htype,
      Token.isAmong_iff htype]
    revert heof hbad
    cases category <;> decide
  rw [h.inorder_eq, Scanner.tokens_eq_pieces, List.filter_append, List.filter_congr hpieces]
  exact (List.append_nil _).symm

/-- Of categories that become anchors, an expression has the tokens that its tree has as anchors. -/
theorem Phrase.filter_tokens (h : Phrase .exp (Scanner.pieces text.toList) tree)
    {categories : List Category} (hsub : categories ⊆ Category.anchoring) :
    (Scanner.tokens text).filter (Token.isAmong categories)
      = tree.inorder.filter (Token.isAmong categories) := by
  have heof : (Token.marker Scanner.marker).type = .category .eof := rfl
  have hmarker : ¬ (Token.marker Scanner.marker).isAmong categories = true := by
    rw [Token.isAmong_iff heof]
    exact fun hmem ↦ absurd (hsub hmem) (by decide)
  have hpieces : ∀ token ∈ Scanner.pieces text.toList, token.isAmong categories
      = (token.isAmong categories && token.isAmong Category.anchoring) := by
    intro token hmem
    obtain ⟨category, -, -, htype⟩ := h.exists_category token hmem
    rw [Bool.eq_iff_iff, Bool.and_eq_true, Token.isAmong_iff htype, Token.isAmong_iff htype]
    exact ⟨fun hmem ↦ ⟨hmem, hsub hmem⟩, And.left⟩
  rw [h.inorder_eq, List.filter_filter, Scanner.tokens_eq_pieces, List.filter_append,
    List.filter_cons_of_neg hmarker, List.filter_nil, List.append_nil, List.filter_congr hpieces]

end Texts

end ArithLang
