import ArithLang.Proofs.Text.Quoted
import ArithLang.Proofs.Tree.Dump

/-!
# The unambiguous form of a tree

Every node and every token is written as a name and, in parentheses, its parts. A payload may hold
anything, also commas, quotes and parentheses, or the whole form of some other tree. The form can be
read nonetheless, since at each place what comes next says which part is there and where it ends: a
name ends with the parenthesis behind it, a payload is nothing or in quotes, and behind a part there
is either a separator, and then another part, or the closing parenthesis.

So each part is told apart from any text behind it, which is proved for payloads, then for tokens,
and then by induction for trees. In a row of parts the last can be the anchor of the node, and no
kind of node has the name that a token is written with.

Types that are no categories could be given any name, and a number can be the front of another; so
the anchors are restricted to categories with a text or nothing.
-/

namespace ArithLang

variable {u v : List Char}

/-! ## Tokens -/

namespace Payload

theorem inspect_append_inj {p q : Payload} (hp : ∀ value, p ≠ .number value)
    (hq : ∀ value, q ≠ .number value) (h : p.inspect.toList ++ u = q.inspect.toList ++ v) :
    p = q ∧ u = v := by
  have hquoted : ∀ text : String, (inspect (.text text)).toList = Text.Quoted.encode text.toList :=
    fun text ↦ String.toList_ofList
  -- a text begins with a quote, the word for nothing with a letter
  have hne : ∀ (text : String) (x y : List Char),
      (inspect .absent).toList ++ x ≠ (inspect (.text text)).toList ++ y := by
    intro text x y heq
    rw [hquoted] at heq
    have hletter : 'N' = Text.Quoted.quote text.toList := (List.cons.inj heq).1
    rcases Text.Quoted.quote_eq text.toList with hquote | hquote
    · exact absurd (hletter.trans hquote) (by decide)
    · exact absurd (hletter.trans hquote) (by decide)
  cases p with
  | number value => exact absurd rfl (hp value)
  | absent =>
    cases q with
    | number value => exact absurd rfl (hq value)
    | absent => exact ⟨rfl, List.append_cancel_left h⟩
    | text other => exact absurd h (hne other u v)
  | text piece =>
    cases q with
    | number value => exact absurd rfl (hq value)
    | absent => exact absurd h.symm (hne piece v u)
    | text other =>
      rw [hquoted, hquoted] at h
      obtain ⟨htext, hbehind⟩ := Text.Quoted.encode_append_inj h
      exact ⟨congrArg Payload.text (String.toList_inj.mp htext), hbehind⟩

end Payload

/-- The type of the token is a category, and its payload is a text or nothing. -/
structure Token.Ordinary (token : Token) : Prop where
  /-- The type is a category. -/
  exists_category : ∃ category, token.type = .category category
  /-- The payload is no number. -/
  ne_number : ∀ value, token.payload ≠ .number value

namespace Token

variable {s t : Token}

@[simp] theorem toList_inspect (token : Token) :
    token.inspect.toList = "Token".toList
      ++ '(' :: (token.type.inspect ++ ", " ++ token.payload.inspect ++ ")").toList := by
  simp [inspect]

private theorem toList_inspect_category (category : Category) (payload : Payload) :
    (Token.mk (.category category) payload).inspect.toList
      = "Token(TokenCategory.".toList
        ++ (category.name.toList ++ ',' :: ' ' :: (payload.inspect.toList ++ [')'])) := by
  simp [inspect, TokenType.inspect]

theorem inspect_append_inj (hs : s.Ordinary) (ht : t.Ordinary)
    (h : s.inspect.toList ++ u = t.inspect.toList ++ v) : s = t ∧ u = v := by
  obtain ⟨type, payload⟩ := s
  obtain ⟨other, payload'⟩ := t
  obtain ⟨⟨category, rfl⟩, hs⟩ := hs
  obtain ⟨⟨category', rfl⟩, ht⟩ := ht
  rw [toList_inspect_category, toList_inspect_category, List.append_assoc, List.append_assoc,
    List.append_assoc, List.append_assoc] at h
  obtain ⟨hcategory, hbehind⟩ := Text.append_inj_of_all category.all_name_ne
    category'.all_name_ne (by simp) (by simp) (List.append_cancel_left h)
  simp only [List.cons_append, List.cons.injEq, true_and, List.append_assoc, List.nil_append]
    at hbehind
  obtain ⟨rfl, hend⟩ := Payload.inspect_append_inj hs ht hbehind
  rw [Category.name_injective (String.toList_inj.mp hcategory)]
  exact ⟨rfl, (List.cons.inj hend).2⟩

end Token

namespace Outline

mutual

/-- Every token in the tree is ordinary. -/
def Ordinary : Outline → Prop
  | .node _ anchor children => (∀ token ∈ anchor, token.Ordinary) ∧ OrdinaryAll children

/-- Every token in the trees is ordinary. -/
def OrdinaryAll : List Outline → Prop
  | [] => True
  | child :: rest => child.Ordinary ∧ OrdinaryAll rest

end

/-! ## Rows of parts -/

/-- What stands between the parentheses of a node, part by part. -/
def parts (children : List Outline) (anchor : Option Token) : List String :=
  inspectAll children ++ (anchor.map Token.inspect).toList

/-- Some parts with a separator in front of each. -/
def Part.row (parts : List String) : List Char := parts.flatMap fun part ↦ ',' :: ' ' :: part.toList

/-- Some parts with a separator between each two and a parenthesis behind the last. -/
def Part.closed (parts : List String) (behind : List Char) : List Char :=
  (", ".intercalate parts).toList ++ ')' :: behind

namespace Part

@[simp] private theorem closed_cons (part : String) (parts : List String) :
    closed (part :: parts) u = part.toList ++ (row parts ++ ')' :: u) := by
  induction parts generalizing part with
  | nil => simp [closed, row]
  | cons next parts ih =>
    have hrest := ih next
    rw [closed, String.toList_intercalate, List.map_cons] at hrest
    rw [closed, String.toList_intercalate, List.map_cons, List.map_cons,
      List.intercalate_cons_cons, List.append_assoc, List.append_assoc, hrest]
    simp [row]

private theorem row_cons (part : String) (parts : List String) :
    row (part :: parts) ++ ')' :: u = ',' :: ' ' :: closed (part :: parts) u := by
  simp [row]

/-- The part begins with something that does not end a row. -/
def Opens (part : String) : Prop := ∃ first rest, part.toList = first :: rest ∧ first ≠ ')'

private theorem closed_cons_ne {part : String} {parts : List String} (h : Opens part) :
    closed (part :: parts) u ≠ ')' :: v := by
  obtain ⟨first, rest, hpart, hfirst⟩ := h
  rw [closed_cons, hpart]
  exact fun heq ↦ hfirst (List.cons.inj heq).1

/-- Two rows in parentheses are also equal with a separator in front of each part. -/
private theorem row_eq_of_closed {parts others : List String} (hparts : ∀ part ∈ parts, Opens part)
    (hothers : ∀ part ∈ others, Opens part) (h : closed parts u = closed others v) :
    row parts ++ ')' :: u = row others ++ ')' :: v := by
  cases parts with
  | nil =>
    cases others with
    | nil => exact h
    | cons other others =>
      exact absurd h.symm (closed_cons_ne (hothers other List.mem_cons_self))
  | cons part parts =>
    cases others with
    | nil => exact absurd h (closed_cons_ne (hparts part List.mem_cons_self))
    | cons other others =>
      rw [row_cons, row_cons, h]

end Part

/-! ## Trees -/

section Names

variable {kind : Kind} {anchor : Option Token} {children : List Outline} {token : Token}

theorem toList_inspect (kind : Kind) (anchor : Option Token) (children : List Outline) :
    (node kind anchor children).inspect.toList ++ u
      = kind.name.toList ++ '(' :: Part.closed (parts children anchor) u := by
  simp [inspect, parts, Part.closed]

@[simp] theorem all_name_ne (kind : Kind) : kind.name.toList.all (· != '(') = true := by
  cases kind <;> decide

private theorem token_inspect_append_ne (token : Token) (tree : Outline) :
    token.inspect.toList ++ u ≠ tree.inspect.toList ++ v := by
  obtain ⟨kind, anchor, children⟩ := tree
  intro h
  rw [token.toList_inspect, toList_inspect, List.append_assoc] at h
  obtain ⟨hname, -⟩ := Text.append_inj_of_all (by decide) (all_name_ne kind) (by simp) (by simp) h
  revert hname
  cases kind <;> decide

private theorem opens_of_mem_parts {part : String} (h : part ∈ parts children anchor) :
    Part.Opens part := by
  rcases List.mem_append.mp h with hchild | hanchor
  · induction children with
    | nil => exact absurd hchild List.not_mem_nil
    | cons child rest ih =>
      rw [inspectAll, List.mem_cons] at hchild
      rcases hchild with rfl | hrest
      · obtain ⟨kind, anchor, children⟩ := child
        have hform := toList_inspect (u := []) kind anchor children
        rw [List.append_nil] at hform
        rw [Part.Opens, hform]
        cases kind <;> exact ⟨_, _, rfl, by decide⟩
      · exact ih (List.mem_append_left _ hrest) hrest
  · rw [Option.mem_toList, Option.map_eq_some_iff] at hanchor
    obtain ⟨token, -, rfl⟩ := hanchor
    exact ⟨_, _, token.toList_inspect, by decide⟩

end Names

section Rows

variable {anchor anchor' : Option Token}

theorem row_parts_cons (child : Outline) (rest : List Outline) (anchor : Option Token) :
    Part.row (parts (child :: rest) anchor) ++ u
      = ',' :: ' ' :: (child.inspect.toList ++ (Part.row (parts rest anchor) ++ u)) := by
  simp [parts, inspectAll, Part.row]

theorem row_parts_nil (token : Token) :
    Part.row (parts [] (some token)) ++ u = ',' :: ' ' :: (token.inspect.toList ++ u) := by
  simp [parts, inspectAll, Part.row]

/-- Whether there is another child can be told from what comes next. -/
theorem row_parts_nil_ne (anchor anchor' : Option Token) (child : Outline) (rest : List Outline) :
    Part.row (parts [] anchor) ++ ')' :: u ≠ Part.row (parts (child :: rest) anchor') ++ v := by
  rw [row_parts_cons]
  intro h
  cases anchor with
  | none => cases h
  | some token =>
    rw [row_parts_nil, List.cons.injEq, List.cons.injEq] at h
    exact token_inspect_append_ne token child h.2.2

private theorem anchor_append_inj (ha : ∀ token ∈ anchor, token.Ordinary)
    (hb : ∀ token ∈ anchor', token.Ordinary)
    (h : Part.row (parts [] anchor) ++ ')' :: u = Part.row (parts [] anchor') ++ ')' :: v) :
    anchor = anchor' ∧ u = v := by
  cases anchor with
  | none =>
    cases anchor' with
    | none => exact ⟨rfl, (List.cons.inj h).2⟩
    | some other => cases h
  | some token =>
    cases anchor' with
    | none => cases h
    | some other =>
      rw [row_parts_nil, row_parts_nil, List.cons.injEq, List.cons.injEq] at h
      obtain ⟨rfl, hbehind⟩ := Token.inspect_append_inj (ha token rfl) (hb other rfl) h.2.2
      exact ⟨rfl, (List.cons.inj hbehind).2⟩

end Rows

mutual

/-- **A tree is told apart** from what is behind it. -/
theorem inspect_append_inj {u v : List Char} : ∀ {a b : Outline}, a.Ordinary → b.Ordinary →
    a.inspect.toList ++ u = b.inspect.toList ++ v → a = b ∧ u = v
  | .node kind anchor children, .node kind' anchor' children', ha, hb, h => by
    rw [toList_inspect, toList_inspect] at h
    obtain ⟨hkind, hclosed⟩ := Text.append_inj_of_all (all_name_ne kind) (all_name_ne kind')
      (by simp) (by simp) h
    obtain rfl := Kind.name_injective (String.toList_inj.mp hkind)
    have hrow := Part.row_eq_of_closed (fun _ ↦ opens_of_mem_parts) (fun _ ↦ opens_of_mem_parts)
      (List.cons.inj hclosed).2
    obtain ⟨rfl, rfl, rfl⟩ := row_append_inj ha.2 hb.2 ha.1 hb.1 hrow
    exact ⟨rfl, rfl⟩

/-- The children and the anchor of a node are told apart, and so is what is behind the node. -/
theorem row_append_inj {u v : List Char} {anchor anchor' : Option Token} :
    ∀ {as bs : List Outline}, OrdinaryAll as → OrdinaryAll bs →
    (∀ token ∈ anchor, token.Ordinary) → (∀ token ∈ anchor', token.Ordinary) →
    Part.row (parts as anchor) ++ ')' :: u = Part.row (parts bs anchor') ++ ')' :: v →
    as = bs ∧ anchor = anchor' ∧ u = v
  | [], [], _, _, hanchor, hanchor', h => ⟨rfl, anchor_append_inj hanchor hanchor' h⟩
  | [], b :: bs, _, _, _, _, h => absurd h (row_parts_nil_ne anchor anchor' b bs)
  | a :: as, [], _, _, _, _, h => absurd h.symm (row_parts_nil_ne anchor' anchor a as)
  | a :: as, b :: bs, ha, hb, hanchor, hanchor', h => by
    rw [row_parts_cons, row_parts_cons, List.cons.injEq, List.cons.injEq] at h
    obtain ⟨rfl, hbehind⟩ := inspect_append_inj ha.1 hb.1 h.2.2
    obtain ⟨rfl, hanchors, hend⟩ := row_append_inj ha.2 hb.2 hanchor hanchor' hbehind
    exact ⟨rfl, hanchors, hend⟩

end

/-- Trees of ordinary tokens have the same form only if they are the same. -/
private theorem inspect_eq_iff {a b : Outline} (ha : a.Ordinary) (hb : b.Ordinary) :
    a.inspect = b.inspect ↔ a = b := by
  constructor
  · intro h
    exact (inspect_append_inj (u := []) (v := []) ha hb (by rw [h])).1
  · exact congrArg inspect

end Outline

namespace Node

variable {a b : Node}

private theorem outlineAll_eq_iff {as bs : List Node} :
    outlineAll as = outlineAll bs ↔ List.Forall₂ (fun a b ↦ (a == b) = true) as bs := by
  induction as generalizing bs with
  | nil =>
    cases bs with
    | nil => exact iff_of_true rfl .nil
    | cons b bs => exact iff_of_false nofun nofun
  | cons a as ih =>
    cases bs with
    | nil => exact iff_of_false nofun nofun
    | cons b bs =>
      rw [outlineAll, outlineAll, List.cons.injEq, List.forall₂_cons, ih]
      exact and_congr_left' decide_eq_true_iff.symm

@[simp] private theorem outline_children (node : Node) :
    node.outline.children = outlineAll node.children := by
  cases node <;> rfl

/-- Trees are equal if they have the same kind and the same anchor, and equal children. -/
theorem beq_iff : (a == b) = true ↔ a.outline.kind = b.outline.kind ∧ a.anchor = b.anchor ∧
    List.Forall₂ (fun a b ↦ (a == b) = true) a.children b.children := by
  rw [← outlineAll_eq_iff, ← outline_children, ← outline_children]
  refine decide_eq_true_iff.trans ?_
  rw [anchor, anchor]
  obtain ⟨kind, anchor, children⟩ := a.outline
  obtain ⟨kind', anchor', children'⟩ := b.outline
  exact Outline.node.injEq .. ▸ Iff.rfl

/-- **The unambiguous form identifies a tree** whose tokens have categories and carry a text or
nothing: two such trees have the same form exactly if they are equal, which is to say that they have
the same kind and anchor, and equal children. -/
theorem inspect_identifies (ha : a.outline.Ordinary) (hb : b.outline.Ordinary) :
    (a.inspect = b.inspect ↔ (a == b) = true) ∧
    ((a == b) = true ↔ a.outline.kind = b.outline.kind ∧ a.anchor = b.anchor ∧
      List.Forall₂ (fun a b ↦ (a == b) = true) a.children b.children) :=
  ⟨(Outline.inspect_eq_iff ha hb).trans decide_eq_true_iff.symm, beq_iff⟩

/-- A root whose token carries what looks like the end of one token and the start of another. -/
def mimic : Node :=
  .prog (some (.ofCategory .plus "1'), Token(TokenCategory.PLUS, '2")) (.plain none [])

/-- A root whose token carries nothing, above a node with a token of its own. -/
def nested : Node :=
  .prog (some (.marker (.category .plus))) (.plain (some (.ofCategory .plus "1")) [])

/-- A text that looks like two tokens is put in other quotes. -/
theorem inspect_identifies_mimic :
    mimic.outline.Ordinary ∧ nested.outline.Ordinary ∧
    mimic.inspect
      = "Prog(Node(), Token(TokenCategory.PLUS, \"1'), Token(TokenCategory.PLUS, '2\"))" ∧
    nested.inspect
      = "Prog(Node(Token(TokenCategory.PLUS, '1')), Token(TokenCategory.PLUS, None))" ∧
    mimic.inspect ≠ nested.inspect := by
  have htoken : ∀ category payload, (∀ value, payload ≠ .number value) →
      ∀ token ∈ some (Token.mk (.category category) payload), token.Ordinary := by
    rintro category payload hpayload token ⟨⟩
    exact ⟨⟨category, rfl⟩, hpayload⟩
  have hnone : ∀ token ∈ (none : Option Token), token.Ordinary :=
    fun token htoken ↦ absurd htoken (Option.not_mem_none token)
  have hmimic : mimic.outline.Ordinary := ⟨htoken .plus _ nofun, ⟨hnone, trivial⟩, trivial⟩
  have hnested : nested.outline.Ordinary :=
    ⟨htoken .plus _ nofun, ⟨htoken .plus _ nofun, trivial⟩, trivial⟩
  have hne : ¬ (mimic == nested) = true := by decide
  refine ⟨hmimic, hnested, by decide +kernel, by decide +kernel, ?_⟩
  rwa [Ne, (inspect_identifies hmimic hnested).1]

end Node

end ArithLang
