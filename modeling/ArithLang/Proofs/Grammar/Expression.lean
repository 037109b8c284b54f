import ArithLang.Grammar.Expression
import ArithLang.Proofs.Grammar.Derivation
import ArithLang.Proofs.Parser
import Mathlib.Data.List.Basic

/-!
# The grammar of expressions and the parser

The grammar writes a repetition as a tail, which is empty or is an operator, an operand and a
further tail. So it takes a sum apart from the left, where phrases take it apart from the right.

## From phrases to derivations

A phrase that ends in a repetition may be followed by anything that its tail derives. With that in
the statement, extending a phrase by an operator and an operand makes the tail longer by as much.

## From derivations to phrases

Every nonterminal is given the rows of tokens that it stands for. A tail stands for what can be put
behind a phrase such that the whole is a phrase again: this is the same trick seen from the other
side, and turns the right recursion of the grammar into the left recursion of phrases.
-/

namespace ArithLang.Grammar

variable {φ : Type}

/-- The words for the types of some tokens. -/
def names (tokens : List Token) : List String := tokens.map fun token ↦ token.type.name

@[simp] theorem names_append (u v : List Token) :
    names (u ++ v) = names u ++ names v := List.map_append

theorem names_cons {token : Token} {category : Category}
    (htype : token.type = .category category)
    (v : List Token) : names (token :: v) = category.name :: names v := by
  rw [names, List.map_cons, htype]
  rfl

/-- What is known of the names of a phrase: where a repetition ends it, its tail may go on. -/
def Derivable : Level → List String → Prop
  | .exp, x => ∀ tail, expression.Derives ["ExpTail"] tail → expression.Derives ["Exp"] (x ++ tail)
  | .term, x =>
    ∀ tail, expression.Derives ["TermTail"] tail → expression.Derives ["Term"] (x ++ tail)
  | .pow, x => expression.Derives ["Pow"] x
  | .fact, x => expression.Derives ["Fact"] x

/-- What a tail may follow is derived without one, as a tail may be empty. -/
private theorem derives_of_tail {name tail : String} {x : List String}
    (hempty : (⟨tail, []⟩ : Production) ∈ expression.productions)
    (h : ∀ rest, expression.Derives [tail] rest → expression.Derives [name] (x ++ rest)) :
    expression.Derives [name] x := by
  have hwhole := h [] (.of_production hempty (.refl []))
  rwa [List.append_nil] at hwhole

theorem Derivable.exp {x : List String} (h : Derivable .exp x) : expression.Derives ["Exp"] x :=
  derives_of_tail (by decide) h

theorem Derivable.term {x : List String} (h : Derivable .term x) : expression.Derives ["Term"] x :=
  derives_of_tail (by decide) h

private theorem derivable_of_phrase {level : Level} {w : List Token} {tree : Node}
    (h : Phrase level w tree) : Derivable level (names w) := by
  induction h with
  | literal literal =>
    have hmem : (⟨"Fact", ["INT"]⟩ : Production) ∈ expression.productions := by decide
    exact .of_production hmem (.refl _)
  | @parenthesised opening closing w tree hopening hclosing _ ih =>
    have hmem : (⟨"Fact", ["OPEN_PAR", "Exp", "CLOSE_PAR"]⟩ : Production)
        ∈ expression.productions := by decide
    rw [names_cons hopening, names_append, names_cons hclosing]
    have hrest := ih.exp.append_right ["CLOSE_PAR"]
    exact .of_production hmem (hrest.append_left ["OPEN_PAR"])
  | @factor w tree _ ih =>
    have hmem : (⟨"Pow", ["Fact", "PowTail"]⟩ : Production) ∈ expression.productions := by decide
    have hempty : (⟨"PowTail", []⟩ : Production) ∈ expression.productions := by decide
    have hwhole := Derives.append ih (.of_production hempty (.refl []))
    rw [List.append_nil] at hwhole
    exact .of_production hmem hwhole
  | @power w v operator base exponent _ hoperator _ ihbase ihexponent =>
    have hmem : (⟨"Pow", ["Fact", "PowTail"]⟩ : Production) ∈ expression.productions := by decide
    have htail : (⟨"PowTail", ["POW", "Pow"]⟩ : Production) ∈ expression.productions := by decide
    rw [names_append, names_cons hoperator]
    exact .of_production hmem
      (Derives.append ihbase (.of_production htail (ihexponent.append_left ["POW"])))
  | @single w tree _ ih =>
    have hmem : (⟨"Term", ["Pow", "TermTail"]⟩ : Production) ∈ expression.productions := by decide
    intro tail htail
    exact .of_production hmem (Derives.append ih htail)
  | @product w v operator left right _ hoperator _ ihleft ihright =>
    have hmem : (⟨"TermTail", ["TIMES", "Pow", "TermTail"]⟩ : Production)
        ∈ expression.productions := by decide
    intro tail htail
    have hrest := Derives.append ihright htail
    rw [names_append, names_cons hoperator, List.append_assoc, List.cons_append]
    exact ihleft _ (.of_production hmem (hrest.append_left ["TIMES"]))
  | @summand w tree _ ih =>
    have hmem : (⟨"Exp", ["Term", "ExpTail"]⟩ : Production) ∈ expression.productions := by decide
    intro tail htail
    exact .of_production hmem (Derives.append ih.term htail)
  | @sum w v operator left right _ hoperator _ ihleft ihright =>
    have hmem : (⟨"ExpTail", ["PLUS", "Term", "ExpTail"]⟩ : Production)
        ∈ expression.productions := by decide
    intro tail htail
    have hrest := Derives.append ihright.term htail
    rw [names_append, names_cons hoperator, List.append_assoc, List.cons_append]
    exact ihleft _ (.of_production hmem (hrest.append_left ["PLUS"]))

/-- The grammar generates the names of an expression and the marker of its end. -/
theorem generates_of_phrase {w : List Token} {marker : Token} {tree : Node}
    (h : Phrase .exp w tree) (hmarker : marker.type = .category .eof) :
    expression.Generates (names (w ++ [marker])) := by
  have hmem : (⟨"Prog", ["Exp", "EOF"]⟩ : Production) ∈ expression.productions := by decide
  rw [names_append, names_cons hmarker]
  exact ⟨"Prog", rfl, .of_production hmem ((derivable_of_phrase h).exp.append_right ["EOF"])⟩

/-! ## What the symbols stand for -/

/-- The tokens that each symbol of the grammar stands for. -/
def Meaning : String → List Token → Prop
  | "Prog", w => ∃ v marker tree,
    w = v ++ [marker] ∧ marker.type = .category .eof ∧ Phrase .exp v tree
  | "Exp", w => ∃ tree, Phrase .exp w tree
  | "ExpTail", w => ∀ v left, Phrase .exp v left → ∃ tree, Phrase .exp (v ++ w) tree
  | "Term", w => ∃ tree, Phrase .term w tree
  | "TermTail", w => ∀ v left, Phrase .term v left → ∃ tree, Phrase .term (v ++ w) tree
  | "Pow", w => ∃ tree, Phrase .pow w tree
  | "PowTail", w => ∀ v base, Phrase .fact v base → ∃ tree, Phrase .pow (v ++ w) tree
  | "Fact", w => ∃ tree, Phrase .fact w tree
  | name, w => ∃ token, w = [token] ∧ token.Decimal ∧ token.type.name = name ∧
    ∃ category, token.type = .category category

theorem meaning_terminal_iff (category : Category) {w : List Token} :
    Meaning category.name w ↔
      ∃ token, w = [token] ∧ token.Decimal ∧ token.type = .category category := by
  have htype : ∀ token : Token, (token.type.name = category.name ∧
      ∃ other, token.type = .category other) ↔ token.type = .category category := by
    intro token
    constructor
    · rintro ⟨hname, other, htype⟩
      rw [htype] at hname ⊢
      have hother : Category.ofName? other.name = Category.ofName? category.name :=
        congrArg Category.ofName? hname
      rw [Category.ofName?_name, Category.ofName?_name] at hother
      rw [Option.some.inj hother]
    · intro htype
      exact ⟨by rw [htype]; rfl, category, htype⟩
  have hdefault : Meaning category.name w ↔ ∃ token, w = [token] ∧ token.Decimal ∧
      token.type.name = category.name ∧ ∃ other, token.type = .category other := by
    cases category <;> exact Iff.rfl
  simp only [hdefault, htype]

private theorem meaning_of_production : ∀ production ∈ expression.productions, ∀ w,
    Row Meaning production.symbols w → Meaning production.name w := by
  intro production hmem w h
  change production ∈ expressionProductions at hmem
  simp only [expressionProductions, List.mem_cons, List.not_mem_nil, or_false] at hmem
  rcases hmem with rfl | rfl | rfl | rfl | rfl | rfl | rfl | rfl | rfl | rfl | rfl | rfl
  · -- `Prog → Exp EOF`
    obtain ⟨u, _, rfl, ⟨tree, hu⟩, _, _, rfl, hend, rfl⟩ := h
    obtain ⟨marker, rfl, -, hmarker⟩ := (meaning_terminal_iff .eof).mp hend
    exact ⟨u, marker, tree, rfl, hmarker, hu⟩
  · -- `Exp → Term ExpTail`
    obtain ⟨u, _, rfl, ⟨left, hu⟩, v, _, rfl, hv, rfl⟩ := h
    rw [List.append_nil]
    exact hv u left (.summand hu)
  · -- `ExpTail → PLUS Term ExpTail`: the term joins the sum in front of it
    obtain ⟨_, _, rfl, hplus, u, _, rfl, ⟨right, hu⟩, v, _, rfl, hv, rfl⟩ := h
    obtain ⟨operator, rfl, -, hoperator⟩ := (meaning_terminal_iff .plus).mp hplus
    intro front left hleft
    obtain ⟨tree, htree⟩ := hv _ _ (.sum hleft hoperator hu)
    exact ⟨tree, by simpa using htree⟩
  · -- the empty `ExpTail`
    obtain rfl := h
    intro front left hleft
    exact ⟨left, by rwa [List.append_nil]⟩
  · -- `Term → Pow TermTail`
    obtain ⟨u, _, rfl, ⟨left, hu⟩, v, _, rfl, hv, rfl⟩ := h
    rw [List.append_nil]
    exact hv u left (.single hu)
  · -- `TermTail → TIMES Pow TermTail`: the power joins the product in front of it
    obtain ⟨_, _, rfl, htimes, u, _, rfl, ⟨right, hu⟩, v, _, rfl, hv, rfl⟩ := h
    obtain ⟨operator, rfl, -, hoperator⟩ := (meaning_terminal_iff .times).mp htimes
    intro front left hleft
    obtain ⟨tree, htree⟩ := hv _ _ (.product hleft hoperator hu)
    exact ⟨tree, by simpa using htree⟩
  · -- the empty `TermTail`
    obtain rfl := h
    intro front left hleft
    exact ⟨left, by rwa [List.append_nil]⟩
  · -- `Pow → Fact PowTail`
    obtain ⟨u, _, rfl, ⟨base, hu⟩, v, _, rfl, hv, rfl⟩ := h
    rw [List.append_nil]
    exact hv u base hu
  · -- `PowTail → POW Pow`
    obtain ⟨_, _, rfl, hpow, v, _, rfl, ⟨exponent, hv⟩, rfl⟩ := h
    obtain ⟨operator, rfl, -, hoperator⟩ := (meaning_terminal_iff .pow).mp hpow
    intro front base hbase
    rw [List.append_nil]
    exact ⟨_, .power hbase hoperator hv⟩
  · -- the empty `PowTail`
    obtain rfl := h
    intro front base hbase
    exact ⟨base, by rw [List.append_nil]; exact .factor hbase⟩
  · -- `Fact → INT`
    obtain ⟨_, _, rfl, hint, rfl⟩ := h
    obtain ⟨token, rfl, hdecimal, htype⟩ := (meaning_terminal_iff .int).mp hint
    obtain ⟨literal, rfl⟩ := hdecimal.eq_token htype
    exact ⟨_, .literal literal⟩
  · -- `Fact → OPEN_PAR Exp CLOSE_PAR`
    obtain ⟨_, _, rfl, hfront, u, _, rfl, ⟨tree, hu⟩, _, _, rfl, hback, rfl⟩ := h
    obtain ⟨opening, rfl, -, hopening⟩ := (meaning_terminal_iff .openPar).mp hfront
    obtain ⟨closing, rfl, -, hclosing⟩ := (meaning_terminal_iff .closePar).mp hback
    exact ⟨tree, .parenthesised hopening hclosing hu⟩

private theorem row_names {tokens : List Token} {categories : List Category}
    (htypes : tokens.map Token.type = categories.map .category)
    (hdecimal : ∀ token ∈ tokens, token.Decimal) :
    Row Meaning (categories.map Category.name) tokens := by
  induction categories generalizing tokens with
  | nil => exact List.map_eq_nil_iff.mp htypes
  | cons category categories ih =>
    obtain ⟨token, tokens, rfl, htype, htypes⟩ := List.map_eq_cons_iff.mp htypes
    rw [List.forall_mem_cons] at hdecimal
    exact ⟨[token], tokens, rfl,
      (meaning_terminal_iff category).mpr ⟨token, rfl, hdecimal.1, htype⟩, ih htypes hdecimal.2⟩

/-- Only the names of an expression and the marker of its end are generated. -/
theorem phrase_of_generates {tokens : List Token} {categories : List Category}
    (htypes : tokens.map Token.type = categories.map .category)
    (hdecimal : ∀ token ∈ tokens, token.Decimal)
    (h : expression.Generates (categories.map Category.name)) :
    ∃ w marker tree,
      tokens = w ++ [marker] ∧ marker.type = .category .eof ∧ Phrase .exp w tree := by
  obtain ⟨start, hstart, hderives⟩ := h
  cases hstart
  obtain ⟨u, v, rfl, hu, rfl⟩ := hderives.row meaning_of_production (row_names htypes hdecimal)
  rw [List.append_nil]
  exact hu

/-! ## The language of the parser -/

/-- **The grammar and the parser agree.** The grammar generates the names of some categories exactly
if the parser accepts tokens of these categories and has then used them up. -/
theorem generates_iff_parseFrom_eq_ok {categories : List Category} {tokens : List Token}
    (htypes : tokens.map Token.type = categories.map .category)
    (hdecimal : ∀ token ∈ tokens, token.Decimal) (before : Lookahead φ) :
    expression.Generates (categories.map Category.name) ↔
      ∃ tree after, Parser.parseFrom (.ofTokens tokens) before = .ok tree after ∧
        after.atEnd = true := by
  have hsource : (Source.ofTokens tokens : Source φ).Supplies tokens :=
    Source.supplies_ofTokens tokens
  constructor
  · intro h
    obtain ⟨w, marker, tree, rfl, hmarker, hphrase⟩ := phrase_of_generates htypes hdecimal h
    obtain ⟨after, hok, hahead⟩ := Parser.parseFrom_eq_ok hsource hmarker hphrase before
    exact ⟨_, after, hok, hahead.atEnd_eq⟩
  · rintro ⟨answer, after, hok, hend⟩
    rcases Parser.parseFrom_cases hsource hdecimal before with
      ⟨w, marker, rest, tree, final, rfl, hmarker, hphrase, heq, hahead⟩ |
        ⟨_, _, _, _, -, herror, -⟩
    · rw [hok] at heq
      cases heq
      rw [hahead.atEnd_eq, List.isEmpty_iff] at hend
      subst hend
      have hnames : names (w ++ [marker]) = categories.map Category.name := by
        have h := congrArg (List.map TokenType.name) htypes
        rwa [List.map_map, List.map_map] at h
      rw [← hnames]
      exact generates_of_phrase hphrase hmarker
    · rw [hok] at herror
      cases herror

/-- The categories of `(2**03)` and the marker of the end. -/
def groupCategories : List Category := [.openPar, .int, .pow, .int, .closePar, .eof]

/-- The tokens of `(2**03)` and the marker of the end. -/
def groupTokens : List Token :=
  [.ofCategory .openPar "(", Parser.two.token, .ofCategory .pow "**", Parser.three.token,
    .ofCategory .closePar ")", .marker (.category .eof)]

theorem generates_groupCategories :
    groupTokens.map Token.type = groupCategories.map .category ∧
      (∀ token ∈ groupTokens, token.Decimal) ∧
      expression.Generates (groupCategories.map Category.name) := by
  have htypes : groupTokens.map Token.type = groupCategories.map .category := by decide
  have hdecimal : ∀ token ∈ groupTokens, token.Decimal := by decide
  exact ⟨htypes, hdecimal,
    (generates_iff_parseFrom_eq_ok htypes hdecimal ({} : Lookahead Empty)).mpr ⟨_, _, rfl, rfl⟩⟩

end ArithLang.Grammar
