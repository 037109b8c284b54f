import ArithLang.Proofs.Acceptance
import Mathlib.Data.List.Basic

/-!
# Redundant parentheses

Parentheses around the tokens of a node change nothing: the tokens are accepted as before and have
the same tree. Which tokens are those of a node is a matter of the derivation and not of the tree,
since the same node may stand in parentheses already. `Spans` therefore follows a derivation down to
a node and keeps the tokens on both sides; it has a constructor for each place in a rule where a
smaller phrase stands. A node of the tree is named by its address, the list of the positions of
children on the way to it, so that equal nodes at different places are told apart.

A node in parentheses has several spans, with the parentheses and without; so has a literal, as
every phrase of one level is one of the looser levels. Each of them may be put in parentheses,
because what has been a phrase of any level is then a factor, and a factor is a phrase of every
level.
-/

namespace ArithLang

/-- The node at an address, which lists the positions of children from the root on. -/
def Node.subtreeAt (tree : Node) : List ℕ → Option Node
  | [] => some tree
  | i :: path => tree.children[i]?.bind fun child ↦ child.subtreeAt path

theorem Node.subtreeAt_binary {operator : Option Operator} {anchor : Option Token}
    {left right node : Node} {path : List ℕ}
    (h : (Node.binary operator anchor left right).subtreeAt path = some node) :
    (path = [] ∧ node = .binary operator anchor left right) ∨
      (∃ inner, path = 0 :: inner ∧ left.subtreeAt inner = some node) ∨
      ∃ inner, path = 1 :: inner ∧ right.subtreeAt inner = some node := by
  match path, h with
  | [], h => exact .inl ⟨rfl, (Option.some.inj h).symm⟩
  | 0 :: inner, h => exact .inr (.inl ⟨inner, rfl, h⟩)
  | 1 :: inner, h => exact .inr (.inr ⟨inner, rfl, h⟩)
  | (i + 2) :: inner, h => cases h

/-- In a derivation of the tokens `front ++ (w ++ back)` as a phrase with a tree, the tokens `w` are
the phrase for the node at an address of the tree. -/
inductive Spans : Level → Node → List ℕ → Node → List Token → List Token → List Token → Prop where
  /-- The node is the tree. -/
  | whole {level : Level} {w : List Token} {tree : Node} (h : Phrase level w tree) :
      Spans level tree [] tree [] w []
  /-- The node is in the sum in parentheses, which may have the same root. -/
  | parenthesised {opening closing : Token} {tree node : Node} {path : List ℕ}
      {front w back : List Token} (hopening : opening.type = .category .openPar)
      (hclosing : closing.type = .category .closePar)
      (h : Spans .exp tree path node front w back) :
      Spans .fact tree path node (opening :: front) w (back ++ [closing])
  /-- The node is in the factor that is a power. -/
  | factor {tree node : Node} {path : List ℕ} {front w back : List Token}
      (h : Spans .fact tree path node front w back) : Spans .pow tree path node front w back
  /-- The node is in the base of a power. -/
  | base {base exponent node : Node} {path : List ℕ} {operator : Token}
      {front w back v : List Token} (h : Spans .fact base path node front w back)
      (hoperator : operator.type = .category .pow) (hexponent : Phrase .pow v exponent) :
      Spans .pow (.binary (some .pow) (some operator) base exponent) (0 :: path) node front w
        (back ++ operator :: v)
  /-- The node is in the exponent of a power. -/
  | exponent {base exponent node : Node} {path : List ℕ} {operator : Token}
      {u front w back : List Token} (hbase : Phrase .fact u base)
      (hoperator : operator.type = .category .pow)
      (h : Spans .pow exponent path node front w back) :
      Spans .pow (.binary (some .pow) (some operator) base exponent) (1 :: path) node
        (u ++ operator :: front) w back
  /-- The node is in the power that is a product. -/
  | single {tree node : Node} {path : List ℕ} {front w back : List Token}
      (h : Spans .pow tree path node front w back) : Spans .term tree path node front w back
  /-- The node is in what a product multiplies. -/
  | multiplicand {left right node : Node} {path : List ℕ} {operator : Token}
      {front w back v : List Token} (h : Spans .term left path node front w back)
      (hoperator : operator.type = .category .times) (hright : Phrase .pow v right) :
      Spans .term (.binary (some .times) (some operator) left right) (0 :: path) node front w
        (back ++ operator :: v)
  /-- The node is in the power by which a product multiplies. -/
  | multiplier {left right node : Node} {path : List ℕ} {operator : Token}
      {u front w back : List Token} (hleft : Phrase .term u left)
      (hoperator : operator.type = .category .times) (h : Spans .pow right path node front w back) :
      Spans .term (.binary (some .times) (some operator) left right) (1 :: path) node
        (u ++ operator :: front) w back
  /-- The node is in the product that is a sum. -/
  | summand {tree node : Node} {path : List ℕ} {front w back : List Token}
      (h : Spans .term tree path node front w back) : Spans .exp tree path node front w back
  /-- The node is in what a sum adds to. -/
  | augend {left right node : Node} {path : List ℕ} {operator : Token}
      {front w back v : List Token} (h : Spans .exp left path node front w back)
      (hoperator : operator.type = .category .plus) (hright : Phrase .term v right) :
      Spans .exp (.binary (some .plus) (some operator) left right) (0 :: path) node front w
        (back ++ operator :: v)
  /-- The node is in the product that a sum adds. -/
  | addend {left right node : Node} {path : List ℕ} {operator : Token}
      {u front w back : List Token} (hleft : Phrase .exp u left)
      (hoperator : operator.type = .category .plus) (h : Spans .term right path node front w back) :
      Spans .exp (.binary (some .plus) (some operator) left right) (1 :: path) node
        (u ++ operator :: front) w back

/-- In a derivation of the tokens `front ++ (w ++ back)` as a sentence with a tree, the tokens `w`
are the phrase for the node at an address of the tree. The marker of the end, and what is behind it,
are in `back`. -/
def Sentence.Spans (tree : Node) (path : List ℕ) (node : Node) (front w back : List Token) : Prop :=
  ∃ (inner : List Token) (marker : Token) (rest : List Token), back = inner ++ marker :: rest ∧
    marker.type = .category .eof ∧ ArithLang.Spans .exp tree path node front w inner

variable {level : Level} {tree node : Node} {path : List ℕ} {front w back tokens : List Token}

namespace Spans

/-- The tokens of a node are a phrase of some level, with the node for a tree. -/
theorem exists_phrase (h : Spans level tree path node front w back) :
    ∃ level, Phrase level w node := by
  induction h with
  | @whole level w tree h => exact ⟨level, h⟩
  | parenthesised _ _ _ ih => exact ih
  | factor _ ih => exact ih
  | base _ _ _ ih => exact ih
  | exponent _ _ _ ih => exact ih
  | single _ ih => exact ih
  | multiplicand _ _ _ ih => exact ih
  | multiplier _ _ _ ih => exact ih
  | summand _ ih => exact ih
  | augend _ _ _ ih => exact ih
  | addend _ _ _ ih => exact ih

private theorem replace (h : Spans level tree path node front w back) {v : List Token}
    (hv : Phrase .fact v node) : Phrase level (front ++ (v ++ back)) tree := by
  induction h with
  | @whole level _ tree _ => simpa using hv.ofFact level
  | parenthesised hopening hclosing _ ih =>
    have hgroup := Phrase.parenthesised hopening hclosing (ih hv)
    simpa using hgroup
  | factor _ ih => exact .factor (ih hv)
  | base _ hoperator hexponent ih =>
    have hpower := Phrase.power (ih hv) hoperator hexponent
    simpa using hpower
  | exponent hbase hoperator _ ih =>
    have hpower := Phrase.power hbase hoperator (ih hv)
    simpa using hpower
  | single _ ih => exact .single (ih hv)
  | multiplicand _ hoperator hright ih =>
    have hproduct := Phrase.product (ih hv) hoperator hright
    simpa using hproduct
  | multiplier hleft hoperator _ ih =>
    have hproduct := Phrase.product hleft hoperator (ih hv)
    simpa using hproduct
  | summand _ ih => exact .summand (ih hv)
  | augend _ hoperator hright ih =>
    have hsum := Phrase.sum (ih hv) hoperator hright
    simpa using hsum
  | addend hleft hoperator _ ih =>
    have hsum := Phrase.sum hleft hoperator (ih hv)
    simpa using hsum

end Spans

/-- **Every node has tokens.** A derivation has a phrase for each node of its tree. -/
theorem Phrase.exists_spans (h : Phrase level tokens tree)
    (hnode : tree.subtreeAt path = some node) :
    ∃ front w back, tokens = front ++ (w ++ back) ∧ Spans level tree path node front w back := by
  induction h generalizing path node with
  | literal literal =>
    cases path with
    | nil =>
      cases hnode
      exact ⟨[], _, [], rfl, .whole (.literal literal)⟩
    | cons i inner => cases hnode
  | parenthesised hopening hclosing _ ih =>
    obtain ⟨front, w, back, rfl, hspans⟩ := ih hnode
    exact ⟨_, w, _, by simp, .parenthesised hopening hclosing hspans⟩
  | factor _ ih =>
    obtain ⟨front, w, back, hsplit, hspans⟩ := ih hnode
    exact ⟨front, w, back, hsplit, .factor hspans⟩
  | power hbase hoperator hexponent ihbase ihexponent =>
    rcases Node.subtreeAt_binary hnode with ⟨rfl, rfl⟩ | ⟨inner, rfl, hleft⟩ | ⟨inner, rfl, hright⟩
    · exact ⟨[], _, [], by simp, .whole (.power hbase hoperator hexponent)⟩
    · obtain ⟨front, w, back, rfl, hspans⟩ := ihbase hleft
      exact ⟨_, w, _, by simp, .base hspans hoperator hexponent⟩
    · obtain ⟨front, w, back, rfl, hspans⟩ := ihexponent hright
      exact ⟨_, w, _, by simp, .exponent hbase hoperator hspans⟩
  | single _ ih =>
    obtain ⟨front, w, back, hsplit, hspans⟩ := ih hnode
    exact ⟨front, w, back, hsplit, .single hspans⟩
  | product hleft hoperator hright ihleft ihright =>
    rcases Node.subtreeAt_binary hnode with ⟨rfl, rfl⟩ | ⟨inner, rfl, hnode⟩ | ⟨inner, rfl, hnode⟩
    · exact ⟨[], _, [], by simp, .whole (.product hleft hoperator hright)⟩
    · obtain ⟨front, w, back, rfl, hspans⟩ := ihleft hnode
      exact ⟨_, w, _, by simp, .multiplicand hspans hoperator hright⟩
    · obtain ⟨front, w, back, rfl, hspans⟩ := ihright hnode
      exact ⟨_, w, _, by simp, .multiplier hleft hoperator hspans⟩
  | summand _ ih =>
    obtain ⟨front, w, back, hsplit, hspans⟩ := ih hnode
    exact ⟨front, w, back, hsplit, .summand hspans⟩
  | sum hleft hoperator hright ihleft ihright =>
    rcases Node.subtreeAt_binary hnode with ⟨rfl, rfl⟩ | ⟨inner, rfl, hnode⟩ | ⟨inner, rfl, hnode⟩
    · exact ⟨[], _, [], by simp, .whole (.sum hleft hoperator hright)⟩
    · obtain ⟨front, w, back, rfl, hspans⟩ := ihleft hnode
      exact ⟨_, w, _, by simp, .augend hspans hoperator hright⟩
    · obtain ⟨front, w, back, rfl, hspans⟩ := ihright hnode
      exact ⟨_, w, _, by simp, .addend hleft hoperator hspans⟩

/-! ## Accepted tokens -/

namespace Parser

variable {φ : Type} {before after : Lookahead φ}

/-- **Redundant parentheses are transparent.** In accepted tokens each node of the tree has tokens;
they are a phrase for the node; and with parentheses around them, the tokens are accepted as well
and have exactly the same tree. -/
theorem parseFrom_parenthesised
    (h : parseFrom (.ofTokens tokens) before = .ok (.prog none tree) after)
    (hnode : tree.subtreeAt path = some node) :
    (∃ front w back, tokens = front ++ (w ++ back) ∧
      Sentence.Spans tree path node front w back) ∧
    ∀ front w back, tokens = front ++ (w ++ back) → Sentence.Spans tree path node front w back →
      (∃ level, Phrase level w node) ∧
      ∀ opening closing : Token, opening.type = .category .openPar →
        closing.type = .category .closePar → ∀ start : Lookahead φ, ∃ final,
          parseFrom (.ofTokens (front ++ opening :: (w ++ closing :: back))) start
            = .ok (.prog none tree) final := by
  constructor
  · obtain ⟨_, hanswer, w, marker, rest, rfl, hmarker, hphrase⟩ :=
      sentence_of_parseFrom (Source.supplies_ofTokens tokens) h
    cases hanswer
    obtain ⟨front, inner, back, rfl, hspans⟩ := hphrase.exists_spans hnode
    exact ⟨front, inner, back ++ marker :: rest, by simp, back, marker, rest, rfl, hmarker, hspans⟩
  · rintro front w back - ⟨inner, marker, rest, rfl, hmarker, hspans⟩
    obtain ⟨level, hphrase⟩ := hspans.exists_phrase
    refine ⟨⟨level, hphrase⟩, fun opening closing hopening hclosing start ↦ ?_⟩
    have hwhole := hspans.replace (hphrase.enclosed hopening hclosing .fact)
    have hsupplies := Source.supplies_ofTokens (φ := φ)
      ((front ++ (opening :: (w ++ [closing]) ++ inner)) ++ marker :: rest)
    obtain ⟨final, hparse, -⟩ := parseFrom_eq_ok hsupplies hmarker hwhole start
    refine ⟨final, ?_⟩
    rw [← hparse]
    simp

/-- The tokens of `2*((03+2))**2`, with what was behind the marker before. -/
def doubledTokens : List Token :=
  productTokens.take 2 ++ .ofCategory .openPar "(" :: ((productTokens.drop 2).take 5
    ++ .ofCategory .closePar ")" :: productTokens.drop 7)

theorem parseFrom_doubledTokens :
    (∃ after, parseFrom (.ofTokens productTokens) ({} : Lookahead Empty)
      = .ok (.prog none productTree) after) ∧
    (∃ node, productTree.subtreeAt [1, 0] = some node) ∧
    ∃ final, parseFrom (.ofTokens doubledTokens) ({} : Lookahead Empty)
      = .ok (.prog none productTree) final := by
  have hsupplies : (Source.ofTokens productTokens : Source Empty).Supplies productTokens :=
    Source.supplies_ofTokens productTokens
  obtain ⟨after, hparse, -⟩ := parseFrom_eq_ok hsupplies rfl phrase_productTree {}
  have hnode : productTree.subtreeAt [1, 0] = some _ := rfl
  have hsum : Phrase .exp [three.token, .ofCategory .plus "+", two.token]
      (.binary (some .plus) (some (.ofCategory .plus "+")) (.int three) (.int two)) :=
    .sum (.summand (.single (.factor (.literal three)))) rfl (.single (.factor (.literal two)))
  -- the span of the sum takes its parentheses in, so it will have two pairs of them
  have hgroup : Phrase .fact ((productTokens.drop 2).take 5) _ :=
    @Phrase.parenthesised (.ofCategory .openPar "(") (.ofCategory .closePar ")") _ _ rfl rfl hsum
  have hbase : Spans .pow _ [0] _ [] _ ((productTokens.drop 7).take 2) :=
    .base (.whole hgroup) rfl (.factor (.literal two))
  have hspans : Spans .exp productTree [1, 0] _ (productTokens.take 2) _ _ :=
    .summand (.multiplier (.single (.factor (.literal two))) rfl hbase)
  obtain ⟨-, henclosed⟩ := parseFrom_parenthesised hparse hnode
  obtain ⟨-, haccepted⟩ := henclosed (productTokens.take 2) ((productTokens.drop 2).take 5)
    (productTokens.drop 7) rfl ⟨_, _, _, rfl, rfl, hspans⟩
  exact ⟨⟨after, hparse⟩, ⟨_, hnode⟩, haccepted (.ofCategory .openPar "(")
    (.ofCategory .closePar ")") rfl rfl {}⟩

end Parser

end ArithLang
