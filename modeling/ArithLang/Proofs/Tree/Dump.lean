import ArithLang.Proofs.Translation.Reading
import ArithLang.Proofs.Tree.Inorder
import Mathlib.Data.List.Basic

/-!
# What a dump tells

A dump is written by a walk that knows nothing of depths: it counts the indentation up when it
enters a node and down when it leaves one. A walk through a tree therefore leaves the counter as it
was, and what it has written is the layout of the tree, in which each node has a line of its own,
indented by its depth, in front of the lines of its children (`dump_eq_layout`).

## Reading a layout

The depths alone say where the children of a node end: with the first line that is not deeper than
they are. So the lines of a row of trees can be told apart from what follows if that begins with a
shallower line, and the row is determined by its lines if each label determines its node. For this
the labels must be those of tokens with categories; other types may have any name, such as one with
the end of a label in it. To read the lines off the text, no label may have a line break in it.
-/

namespace ArithLang

namespace Outline

/-- A line of a layout. -/
structure Line where
  /-- The depth of the node. -/
  depth : ℕ
  /-- The label of the node. -/
  label : String

/-- The text of a line: two spaces for each level, the label, and a line break. -/
def Line.text (line : Line) : String :=
  String.ofList (List.replicate (2 * line.depth) ' ') ++ line.label ++ "\n"

mutual

/-- The lines of a tree at a depth: that of its root, and then those of the children in order, one
level deeper. -/
def lines (depth : ℕ) : Outline → List Line
  | .node kind anchor children =>
    ⟨depth, (Outline.node kind anchor children).label⟩ :: linesAll (depth + 1) children

/-- The lines of some trees at a depth, one tree after the other. -/
def linesAll (depth : ℕ) : List Outline → List Line
  | [] => []
  | child :: rest => lines depth child ++ linesAll depth rest

end

/-- The text of some lines. -/
def Line.textAll (lines : List Line) : String := String.join (lines.map text)

/-- The layout of a tree. -/
def layout (tree : Outline) : String := Line.textAll (tree.lines 0)

@[simp] theorem Line.textAll_cons (line : Line) (lines : List Line) :
    textAll (line :: lines) = line.text ++ textAll lines :=
  String.join_cons

@[simp] theorem Line.textAll_append (front back : List Line) :
    textAll (front ++ back) = textAll front ++ textAll back := by
  rw [textAll, List.map_append, String.join_append]
  rfl

/-! ## A dump is the layout -/

mutual

/-- A walk writes the lines of a tree and leaves the indentation as it was. -/
theorem walk_dump (depth : ℕ) (text : String) : ∀ tree : Outline,
    walk Dump.enter Dump.leave tree ⟨2 * depth, text⟩
      = ⟨2 * depth, text ++ Line.textAll (tree.lines depth)⟩
  | .node kind anchor children => by
    have hline : Dump.enter (.node kind anchor children) ⟨2 * depth, text⟩
        = ⟨2 * (depth + 1), text ++ Line.text ⟨depth, (node kind anchor children).label⟩⟩ := by
      simp only [Dump.enter, Line.text, String.append_assoc]
      rfl
    rw [walk, hline, walkAll_dump (depth + 1) _ children, lines, Line.textAll_cons,
      ← String.append_assoc]
    rfl

private theorem walkAll_dump (depth : ℕ) (text : String) : ∀ children : List Outline,
    walkAll Dump.enter Dump.leave children ⟨2 * depth, text⟩
      = ⟨2 * depth, text ++ Line.textAll (linesAll depth children)⟩
  | [] => by
    rw [walkAll, linesAll]
    exact congrArg (Dump.mk _) (String.append_empty).symm
  | child :: rest => by
    rw [walkAll, walk_dump depth text child, walkAll_dump depth _ rest, linesAll,
      Line.textAll_append, String.append_assoc]

end

/-- **A dump is the layout** of the tree. -/
theorem dump_eq_layout (tree : Outline) : tree.dump = tree.layout := by
  have hwalk := walk_dump 0 "" tree
  rw [String.empty_append] at hwalk
  exact congrArg Dump.text hwalk

end Outline

/-! ## Labels -/

/-- A row of characters with some property is told apart from what follows it, if that begins with a
character without the property. -/
theorem Text.append_inj_of_all {p : Char → Bool} {x y u v : List Char} (hx : x.all p = true)
    (hy : y.all p = true) (hu : ∀ c ∈ u.head?, ¬ p c = true) (hv : ∀ c ∈ v.head?, ¬ p c = true)
    (h : x ++ u = y ++ v) : x = y ∧ u = v := by
  have hfollowing : ∀ {w : List Char}, (∀ c ∈ w.head?, ¬ p c = true) → w.takeWhile p = [] := by
    intro w hw
    cases w with
    | nil => rfl
    | cons c w => exact List.takeWhile_cons_of_neg (hw c rfl)
  have htake := congrArg (List.takeWhile p) h
  rw [List.takeWhile_append_of_pos (List.all_eq_true.mp hx),
    List.takeWhile_append_of_pos (List.all_eq_true.mp hy), hfollowing hu, hfollowing hv,
    List.append_nil, List.append_nil] at htake
  subst htake
  exact ⟨rfl, List.append_cancel_left h⟩

theorem Category.name_injective {a b : Category} (h : a.name = b.name) : a = b := by
  have hname := Category.ofName?_name a
  rw [h, Category.ofName?_name] at hname
  exact (Option.some.inj hname).symm

@[simp] theorem Category.all_name_ne (category : Category) :
    category.name.toList.all (· != ',') = true := by
  cases category <;> decide

theorem Kind.name_injective {a b : Kind} (h : a.name = b.name) : a = b := by
  revert h
  cases a <;> cases b <;> decide

/-- The token has a category, and there is no line break in its text. -/
def Token.Legible (token : Token) : Prop :=
  ∃ category lexeme, token = .ofCategory category lexeme ∧ '\n' ∉ lexeme.toList

namespace Token.Legible

@[simp] theorem toList_label_ofCategory (category : Category) (lexeme : String) :
    (Token.ofCategory category lexeme).label.toList
      = '[' :: (category.name.toList ++ ',' :: ' ' :: '"' :: (lexeme.toList ++ ['"', ']'])) := by
  simp [label, ofCategory, TokenType.name, Payload.display]

theorem eq_of_label {a b : Token} (ha : a.Legible) (hb : b.Legible) (h : a.label = b.label) :
    a = b := by
  obtain ⟨category, lexeme, rfl, -⟩ := ha
  obtain ⟨category', lexeme', rfl, -⟩ := hb
  have hlist := congrArg String.toList h
  rw [toList_label_ofCategory, toList_label_ofCategory, List.cons.injEq] at hlist
  obtain ⟨hcategory, hrest⟩ := Text.append_inj_of_all category.all_name_ne category'.all_name_ne
    (by simp) (by simp) hlist.2
  simp only [List.cons.injEq, true_and, List.append_left_inj] at hrest
  rw [Category.name_injective (String.toList_inj.mp hcategory), String.toList_inj.mp hrest]

private theorem not_mem_label {token : Token} (h : token.Legible) : '\n' ∉ token.label.toList := by
  obtain ⟨category, lexeme, rfl, hlexeme⟩ := h
  have hname : '\n' ∉ category.name.toList := by cases category <;> decide
  simp [hname, hlexeme]

end Token.Legible

namespace Outline

mutual

/-- Every token in the tree is legible. -/
def Legible : Outline → Prop
  | .node _ anchor children => (∀ token ∈ anchor, token.Legible) ∧ LegibleAll children

/-- Every token in the trees is legible. -/
def LegibleAll : List Outline → Prop
  | [] => True
  | child :: rest => child.Legible ∧ LegibleAll rest

end

section Label

variable {kind kind' : Kind} {anchor anchor' : Option Token} {children children' : List Outline}

@[simp] theorem toList_label (kind : Kind) (anchor : Option Token) (children : List Outline) :
    (node kind anchor children).label.toList
      = kind.name.toList ++ anchor.elim [] fun token ↦ ' ' :: token.label.toList := by
  cases anchor <;> simp [label]

theorem eq_of_label (ha : ∀ token ∈ anchor, token.Legible) (hb : ∀ token ∈ anchor', token.Legible)
    (h : (node kind anchor children).label = (node kind' anchor' children').label) :
    kind = kind' ∧ anchor = anchor' := by
  have hname : ∀ kind : Kind, kind.name.toList.all (· != ' ') = true := by
    intro kind
    cases kind <;> decide
  have hbehind : ∀ anchor : Option Token, ∀ c ∈ (anchor.elim [] fun token ↦
      ' ' :: token.label.toList).head?, ¬ (c != ' ') = true := by
    intro anchor
    cases anchor <;> simp
  have hlist := congrArg String.toList h
  rw [toList_label, toList_label] at hlist
  obtain ⟨hkind, hanchor⟩ := Text.append_inj_of_all (hname kind) (hname kind') (hbehind anchor)
    (hbehind anchor') hlist
  refine ⟨Kind.name_injective (String.toList_inj.mp hkind), ?_⟩
  cases anchor with
  | none =>
    cases anchor' with
    | none => rfl
    | some token => cases hanchor
  | some token =>
    cases anchor' with
    | none => cases hanchor
    | some other =>
      have hlabel := String.toList_inj.mp (List.cons.inj hanchor).2
      rw [(ha token rfl).eq_of_label (hb other rfl) hlabel]

end Label

/-! ## Rows of lines -/

/-- A row of lines begins with one that is less deep, if there is one. -/
def Shallower (depth : ℕ) (lines : List Line) : Prop := ∀ line ∈ lines.head?, line.depth < depth

theorem Shallower.linesAll_append {depth : ℕ} {rest : List Line} (h : Shallower depth rest)
    (trees : List Outline) : Shallower (depth + 1) (linesAll depth trees ++ rest) := by
  cases trees with
  | nil => exact fun line hline ↦ Nat.lt_succ_of_lt (h line hline)
  | cons tree trees =>
    cases tree with
    | node kind anchor children =>
      rintro line ⟨⟩
      exact Nat.lt_succ_self depth

private theorem not_shallower_linesAll_cons {depth : ℕ} (tree : Outline) (trees : List Outline)
    (rest : List Line) : ¬ Shallower depth (linesAll depth (tree :: trees) ++ rest) := by
  cases tree with
  | node kind anchor children => exact fun h ↦ Nat.lt_irrefl depth (h _ rfl)

mutual

/-- A tree is determined by its lines, whatever follows them that is not deeper than its root. -/
theorem lines_append_inj {depth : ℕ} {rest rest' : List Line} : ∀ {a b : Outline}, a.Legible →
    b.Legible → Shallower (depth + 1) rest → Shallower (depth + 1) rest' →
    lines depth a ++ rest = lines depth b ++ rest' → a = b ∧ rest = rest'
  | .node kind anchor children, .node kind' anchor' children', ha, hb, hrest, hrest', h => by
    rw [lines, lines, List.cons_append, List.cons_append, List.cons.injEq, Line.mk.injEq] at h
    obtain ⟨⟨-, hlabel⟩, hbelow⟩ := h
    obtain ⟨rfl, rfl⟩ := eq_of_label ha.1 hb.1 hlabel
    obtain ⟨rfl, rfl⟩ := linesAll_append_inj ha.2 hb.2 hrest hrest' hbelow
    exact ⟨rfl, rfl⟩

/-- A row of trees is determined by its lines, whatever follows them that is less deep. -/
theorem linesAll_append_inj {depth : ℕ} {rest rest' : List Line} : ∀ {as bs : List Outline},
    LegibleAll as → LegibleAll bs → Shallower depth rest → Shallower depth rest' →
    linesAll depth as ++ rest = linesAll depth bs ++ rest' → as = bs ∧ rest = rest'
  | [], [], _, _, _, _, h => ⟨rfl, h⟩
  | [], b :: bs, _, _, hrest, _, h => by
    rw [linesAll, List.nil_append] at h
    exact absurd (h ▸ hrest) (not_shallower_linesAll_cons b bs rest')
  | a :: as, [], _, _, _, hrest', h => by
    rw [linesAll, List.nil_append] at h
    exact absurd (h ▸ hrest') (not_shallower_linesAll_cons a as rest)
  | a :: as, b :: bs, ha, hb, hrest, hrest', h => by
    rw [linesAll, linesAll, List.append_assoc, List.append_assoc] at h
    obtain ⟨rfl, hbehind⟩ := lines_append_inj ha.1 hb.1 (hrest.linesAll_append as)
      (hrest'.linesAll_append bs) h
    obtain ⟨rfl, rfl⟩ := linesAll_append_inj ha.2 hb.2 hrest hrest' hbehind
    exact ⟨rfl, rfl⟩

end

/-! ## The text of a layout -/

/-- The label of the line has no line break, and does not begin with a space. -/
structure Line.Legible (line : Line) : Prop where
  /-- There is no line break. -/
  not_mem : '\n' ∉ line.label.toList
  /-- There is no space in front. -/
  head?_ne : line.label.toList.head? ≠ some ' '

@[simp] theorem Line.toList_text (line : Line) : line.text.toList
    = (List.replicate (2 * line.depth) ' ' ++ line.label.toList) ++ ['\n'] := by
  simp [text]

namespace Line.Legible

variable {a b : Line}

private theorem text_append_inj (ha : a.Legible) (hb : b.Legible) {u v : List Char}
    (h : a.text.toList ++ u = b.text.toList ++ v) : a = b ∧ u = v := by
  have hbody : ∀ {line : Line}, line.Legible →
      (List.replicate (2 * line.depth) ' ' ++ line.label.toList).all (· != '\n') = true := by
    intro line hline
    refine List.all_eq_true.mpr fun c hc ↦ ?_
    rcases List.mem_append.mp hc with hc | hc
    · rw [List.eq_of_mem_replicate hc]
      rfl
    · exact bne_iff_ne.mpr fun heq ↦ hline.not_mem (heq ▸ hc)
  have hlabel : ∀ {line : Line}, line.Legible →
      ∀ c ∈ line.label.toList.head?, ¬ (c == ' ') = true := by
    intro line hline c hc heq
    exact hline.head?_ne (beq_iff_eq.mp heq ▸ hc)
  rw [Line.toList_text, Line.toList_text, List.append_assoc _ ['\n'] u,
    List.append_assoc _ ['\n'] v] at h
  obtain ⟨hline, hrest⟩ := Text.append_inj_of_all (hbody ha) (hbody hb) (by simp) (by simp) h
  obtain ⟨hindent, hlabels⟩ := Text.append_inj_of_all (by simp) (by simp) (hlabel ha) (hlabel hb)
    hline
  have hdepth := congrArg List.length hindent
  rw [List.length_replicate, List.length_replicate] at hdepth
  obtain ⟨depth, label⟩ := a
  obtain ⟨depth', label'⟩ := b
  obtain rfl : depth = depth' := Nat.eq_of_mul_eq_mul_left (by decide) hdepth
  obtain rfl : label = label' := String.toList_inj.mp hlabels
  exact ⟨rfl, (List.cons.inj hrest).2⟩

private theorem count_text (h : a.Legible) : a.text.toList.count '\n' = 1 := by
  rw [Line.toList_text, List.count_append, List.count_append, List.count_eq_zero.mpr h.not_mem,
    List.count_replicate]
  rfl

end Line.Legible

theorem Line.toList_textAll_cons (line : Line) (lines : List Line) :
    (textAll (line :: lines)).toList = line.text.toList ++ (textAll lines).toList := by
  simp

private theorem Line.eq_of_textAll {lines others : List Line} (h : ∀ line ∈ lines, line.Legible)
    (hother : ∀ line ∈ others, line.Legible)
    (htext : (textAll lines).toList = (textAll others).toList) : lines = others := by
  have hne : ∀ (line : Line) (rest : List Line), (textAll (line :: rest)).toList ≠ [] := by
    simp
  induction lines generalizing others with
  | nil =>
    cases others with
    | nil => rfl
    | cons other others => exact absurd htext.symm (hne other others)
  | cons line lines ih =>
    cases others with
    | nil => exact absurd htext (hne line lines)
    | cons other others =>
      rw [List.forall_mem_cons] at h hother
      rw [toList_textAll_cons, toList_textAll_cons] at htext
      obtain ⟨rfl, hrest⟩ := h.1.text_append_inj hother.1 htext
      rw [ih h.2 hother.2 hrest]

private theorem Line.count_textAll {lines : List Line} (h : ∀ line ∈ lines, line.Legible) :
    (textAll lines).toList.count '\n' = lines.length := by
  induction lines with
  | nil => rfl
  | cons line lines ih =>
    rw [List.forall_mem_cons] at h
    rw [toList_textAll_cons, List.count_append, h.1.count_text, ih h.2, List.length_cons,
      Nat.add_comm]

private theorem legible_line {kind : Kind} {anchor : Option Token}
    (h : ∀ token ∈ anchor, token.Legible)
    (depth : ℕ) (children : List Outline) :
    Line.Legible ⟨depth, (node kind anchor children).label⟩ where
  not_mem := by
    have hname : '\n' ∉ kind.name.toList := by cases kind <;> decide
    rw [toList_label, List.mem_append, not_or]
    refine ⟨hname, ?_⟩
    cases anchor with
    | none => exact List.not_mem_nil
    | some token =>
      exact List.not_mem_cons_of_ne_of_not_mem (by decide) (h token rfl).not_mem_label
  head?_ne := by
    rw [toList_label]
    cases kind <;> simp [Kind.name]

mutual

theorem legible_of_mem_lines (depth : ℕ) : ∀ {tree : Outline}, tree.Legible →
    ∀ line ∈ lines depth tree, line.Legible
  | .node kind anchor children, h => by
    rw [lines, List.forall_mem_cons]
    exact ⟨legible_line h.1 depth children, legible_of_mem_linesAll (depth + 1) h.2⟩

private theorem legible_of_mem_linesAll (depth : ℕ) : ∀ {trees : List Outline}, LegibleAll trees →
    ∀ line ∈ linesAll depth trees, line.Legible
  | [], _ => fun line hline ↦ absurd hline List.not_mem_nil
  | child :: rest, h => by
    rw [linesAll, List.forall_mem_append]
    exact ⟨legible_of_mem_lines depth h.1, legible_of_mem_linesAll depth h.2⟩

end

/-- **A layout can be read back.** Trees of legible tokens have the same layout only if they are the
same. -/
theorem layout_eq_iff {a b : Outline} (ha : a.Legible) (hb : b.Legible) :
    a.layout = b.layout ↔ a = b := by
  constructor
  · intro h
    have hlines := Line.eq_of_textAll (legible_of_mem_lines 0 ha) (legible_of_mem_lines 0 hb)
      (congrArg String.toList h)
    have hend : Shallower 1 [] := fun line hline ↦ absurd hline (Option.not_mem_none line)
    refine (lines_append_inj ha hb hend hend ?_).1
    rw [hlines]
  · exact congrArg layout

private theorem count_layout {tree : Outline} (h : tree.Legible) :
    tree.layout.toList.count '\n' = (tree.lines 0).length :=
  Line.count_textAll (legible_of_mem_lines 0 h)

end Outline

/-! ## The dumps of texts -/

namespace Node

variable {body : Node}

private theorem Spelled.legible (h : body.Spelled) : body.outline.Legible := by
  induction h with
  | literal literal =>
    have hfeed : '\n' ∉ literal.lexeme.toList := fun hmem ↦
      absurd (List.all_eq_true.mp literal.all_isDigit '\n' hmem) (by decide)
    refine ⟨?_, trivial⟩
    rintro token ⟨⟩
    exact ⟨.int, literal.lexeme, rfl, hfeed⟩
  | @operation operator left right _ _ ihleft ihright =>
    refine ⟨?_, ihleft, ihright, trivial⟩
    rintro token ⟨⟩
    exact ⟨operator.category, operator.sign, rfl, by cases operator <;> decide⟩

theorem Spelled.legible_prog (h : body.Spelled) : (prog none body).outline.Legible := by
  refine ⟨fun token htoken ↦ absurd htoken (Option.not_mem_none token), h.legible, trivial⟩

private theorem Spelled.length_lines (h : body.Spelled) (depth : ℕ) :
    (body.outline.lines depth).length = body.inorder.length := by
  induction h generalizing depth with
  | literal literal => rfl
  | @operation operator left right _ _ ihleft ihright =>
    rw [inorder_binary, outline, Outline.lines]
    simp only [Outline.linesAll, List.length_cons, List.length_append, List.length_nil, ihleft,
      ihright, Option.toList_some]
    omega

end Node

namespace Expression

theorem answer_dump {text : String} {body : Node}
    (h : Phrase .exp (Scanner.pieces text.toList) body) (log : List Log.Entry) :
    answer (dump (.text text)) log = .ok (Node.prog none body).dump := by
  refine answer_of_tree h (fun log ↦ ?_) log
  rfl

/-- **A dump is the layout of the tree and can be read back.** Whatever a tree is made of, its dump
has one line for each node, indented by its depth, in front of those of its children. The dumps of
two expressions are the same exactly if their trees are equal, and such a dump has a line for the
root and one for each token that is a literal or an operator. -/
theorem dump_read_back {s t : String} {a b : Node} {before after before' after' : List Log.Entry}
    (hs : parse (.text s) before = .ok a after) (ht : parse (.text t) before' = .ok b after') :
    (∀ tree : Node, tree.dump = tree.outline.layout) ∧
    (∀ log log', answer (dump (.text s)) log = answer (dump (.text t)) log' ↔ (a == b) = true) ∧
    ∃ text, (∀ log, answer (dump (.text s)) log = .ok text) ∧ text = a.outline.layout ∧
      text.toList.count '\n'
        = 1 + (Scanner.tokens s).countP (Token.isAmong [.int, .plus, .times, .pow]) := by
  obtain ⟨left, rfl, hleft⟩ := exists_phrase_of_parse hs
  obtain ⟨right, rfl, hright⟩ := exists_phrase_of_parse ht
  have hspelled := Node.Spelled.of_pieces hleft
  have hlayout : ∀ tree : Node, tree.dump = tree.outline.layout :=
    fun tree ↦ tree.outline.dump_eq_layout
  refine ⟨hlayout, fun log log' ↦ ?_, _, answer_dump hleft, hlayout _, ?_⟩
  · rw [answer_dump hleft, answer_dump hright, Except.ok.injEq, hlayout, hlayout,
      Outline.layout_eq_iff hspelled.legible_prog (Node.Spelled.of_pieces hright).legible_prog]
    exact decide_eq_true_iff.symm
  · have hlines : ((Node.prog none left).outline.lines 0).length = left.inorder.length + 1 := by
      rw [← hspelled.length_lines 1, Node.outline, Outline.lines, Outline.linesAll,
        Outline.linesAll, List.append_nil, List.length_cons]
    have hanchors : left.inorder.filter (Token.isAmong Category.anchoring) = left.inorder := by
      rw [hleft.inorder_eq, List.filter_filter]
      simp only [Bool.and_self]
    rw [hlayout, Outline.count_layout hspelled.legible_prog, hlines, List.countP_eq_length_filter,
      Nat.add_comm]
    exact congrArg (1 + List.length ·)
      (hanchors.symm.trans (hleft.filter_tokens (List.Subset.refl _)).symm)

/-- The dump of `(03+2)**2` is not that of `03+2**2`, and has a line for each of five tokens. -/
theorem dump_read_back_powerOfSum :
    (∃ after, parse (.text "(03+2)**2") [] = .ok (.prog none powerOfSum) after) ∧
    (∃ after, parse (.text "03+2**2") [] = .ok (.prog none sumOfPower) after) ∧
    answer (dump (.text "(03+2)**2")) [] ≠ answer (dump (.text "03+2**2")) [] ∧
    answer (dump (.text "(03+2)**2")) []
      = .ok ("Prog\n  Pow [POW, \"**\"]\n    Plus [PLUS, \"+\"]\n      Int [INT, \"03\"]\n"
        ++ "      Int [INT, \"2\"]\n    Int [INT, \"2\"]\n") ∧
    1 + (Scanner.tokens "(03+2)**2").countP (Token.isAmong [.int, .plus, .times, .pow]) = 6 := by
  obtain ⟨after, hs⟩ := (parse_eq_ok_iff []).mpr phrase_powerOfSum
  obtain ⟨after', ht⟩ := (parse_eq_ok_iff []).mpr phrase_sumOfPower
  obtain ⟨-, hsame, text, htext, hlayout, hcount⟩ := dump_read_back hs ht
  have hne : ¬ (Node.prog none powerOfSum == Node.prog none sumOfPower) = true := by decide
  refine ⟨⟨_, hs⟩, ⟨_, ht⟩, by rwa [Ne, hsame [] []], ?_, ?_⟩
  · rw [htext, hlayout]
    exact congrArg Except.ok (by decide +kernel)
  · rw [← hcount, hlayout]
    decide +kernel

end Expression

end ArithLang
