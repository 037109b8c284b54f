import ArithLang.Proofs.Grammar.Conflict
import Mathlib.Data.List.Basic

/-!
# Left recursion

A symbol is left recursive if it derives a row in which it stands first itself. A parser that
expands the first symbol of its row would expand such a symbol for ever. The check for prediction
does not look for left recursion, and yet no grammar with a left recursive nonterminal passes it
(`exists_conflict_of_leftRecursive`), as long as every nonterminal can be reached and derives some
terminals, and the end of the input is marked.

## Where the conflict is

Let `p` be the production by which a left recursive name begins to derive itself, and `q` one by
which it comes to an end. If the two are different, they clash: the name, in front of whatever
follows it, may begin with `p` and come back to itself, or come to an end with `q` at once, and in
both cases go on to the same terminals. The mark at the end makes sure that there is a terminal to
look at, so it makes no difference which parts of the row vanish.

The two may be the same, as the name may come to an end by way of other names. But then one of
these is left recursive as well, and closer to terminals. `Grounded` says how close: the height of a
tree that is needed to get from a symbol to terminals. An induction on that height finds a left
recursive name whose two productions differ (`exists_ne_of_leftRecursive`).
-/

namespace ArithLang.Grammar

variable {g : Grammar} {name start body mark : String}

/-- The symbol derives, by at least one step, a row in which it stands first. -/
def LeftRecursive (g : Grammar) (symbol : String) : Prop :=
  ∃ y, Relation.TransGen g.Rewrites [symbol] (symbol :: y)

/-- Every nonterminal occurs in something that the start derives, and derives some terminals. -/
structure Reduced (g : Grammar) (start : String) : Prop where
  /-- Every nonterminal can be reached. -/
  reachable : ∀ name ∈ g.nonterminals, ∃ u v, g.Derives [start] (u ++ name :: v)
  /-- Every nonterminal can come to an end. -/
  productive : ∀ name ∈ g.nonterminals, ∃ w ⊆ g.terminals, g.Derives [name] w

/-- The only production of the start symbol puts a terminal behind what is to be derived. -/
structure Marked (g : Grammar) (start body mark : String) : Prop where
  /-- It is the start symbol. -/
  start_eq : g.start = some start
  /-- It has one production. -/
  productionsOf_eq : g.productionsOf start = [⟨start, [body, mark]⟩]
  /-- What stands last is a terminal. -/
  mark_mem : mark ∈ g.terminals

/-! ## The first step of a left recursion -/

/-- A symbol in a row stands first in what the row derives, so those in front of it vanish. -/
private theorem exists_first_of_derives {x y : List String} {symbol : String}
    (h : g.Derives x (symbol :: y)) :
    ∃ front first back z, x = front ++ first :: back ∧ g.Derives front [] ∧
      g.Derives [first] (symbol :: z) := by
  induction x with
  | nil => cases eq_nil_of_derives_nil h
  | cons head x ih =>
    obtain ⟨here, there, heq, hhere, hthere⟩ := Derives.split (x := [head]) h
    rcases List.cons_eq_append_iff.mp heq with ⟨rfl, rfl⟩ | ⟨z, rfl, -⟩
    · obtain ⟨front, first, back, z, rfl, hfront, hfirst⟩ := ih hthere
      exact ⟨head :: front, first, back, z, rfl, Derives.append hhere hfront, hfirst⟩
    · exact ⟨[], head, x, z, rfl, .refl [], hhere⟩

/-- A left recursion begins with a production of the name, in which a symbol is left recursive. -/
theorem LeftRecursive.exists_production (h : g.LeftRecursive name) :
    ∃ p ∈ g.productions, p.name = name ∧ (∃ y, g.Derives p.symbols (name :: y)) ∧
      ∃ symbol ∈ p.symbols, g.LeftRecursive symbol := by
  obtain ⟨y, hy⟩ := h
  obtain ⟨row, hstep, hrest⟩ := Relation.TransGen.head'_iff.mp hy
  generalize hrow : [name] = first at hstep
  obtain ⟨hmem, front, back⟩ := hstep
  rcases List.append_eq_singleton_iff.mp hrow.symm with ⟨rfl, hname⟩ | ⟨-, hname⟩
  · obtain ⟨rfl, rfl⟩ := List.cons.inj hname
    rename_i p
    have hsymbols : g.Derives p.symbols (p.name :: y) := by
      have hnil : [] ++ (p.symbols ++ []) = p.symbols := by simp
      rwa [hnil] at hrest
    refine ⟨p, hmem, rfl, ⟨y, hsymbols⟩, ?_⟩
    obtain ⟨front, symbol, back, z, hsplit, hfront, hsymbol⟩ := exists_first_of_derives hsymbols
    have hback : g.Derives (p.symbols ++ z) (symbol :: (back ++ z)) := by
      rw [hsplit, List.append_assoc, List.cons_append]
      exact hfront.append_right (symbol :: (back ++ z))
    refine ⟨symbol, hsplit ▸ List.mem_append_right front List.mem_cons_self, back ++ z, ?_⟩
    exact (Relation.TransGen.tail' hsymbol (rewrites_cons hmem z)).trans_left hback
  · cases hname

/-! ## The way to terminals -/

/-- The symbols from which terminals are derived by a tree of a height. -/
def Grounded (g : Grammar) : ℕ → Set String
  | 0 => {a | a ∈ g.terminals}
  | height + 1 => {symbol | symbol ∈ g.Grounded height ∨
      ∃ p ∈ g.productions, p.name = symbol ∧ ∀ other ∈ p.symbols, other ∈ g.Grounded height}

private theorem grounded_mono {m n : ℕ} (h : m ≤ n) : g.Grounded m ⊆ g.Grounded n :=
  monotone_nat_of_le_succ (fun _ _ hsymbol ↦ Or.inl hsymbol) h

theorem exists_terminals_of_forall {x : List String}
    (h : ∀ symbol ∈ x, ∃ w ⊆ g.terminals, g.Derives [symbol] w) :
    ∃ w ⊆ g.terminals, g.Derives x w := by
  induction x with
  | nil => exact ⟨[], List.nil_subset _, .refl []⟩
  | cons symbol x ih =>
    rw [List.forall_mem_cons] at h
    obtain ⟨w, hw, hsymbol⟩ := h.1
    obtain ⟨v, hv, hx⟩ := ih h.2
    exact ⟨w ++ v, List.append_subset.mpr ⟨hw, hv⟩, Derives.append hsymbol hx⟩

private theorem exists_terminals_of_grounded {height : ℕ} {symbol : String}
    (h : symbol ∈ g.Grounded height) : ∃ w ⊆ g.terminals, g.Derives [symbol] w := by
  induction height generalizing symbol with
  | zero => exact ⟨[symbol], List.cons_subset.mpr ⟨h, List.nil_subset _⟩, .refl _⟩
  | succ height ih =>
    rcases h with h | ⟨p, hmem, rfl, hsymbols⟩
    · exact ih h
    · obtain ⟨w, hw, hderives⟩ := exists_terminals_of_forall fun other hother ↦
        ih (hsymbols other hother)
      exact ⟨w, hw, .of_production hmem hderives⟩

private theorem exists_grounded_of_derives {x w : List String} (hw : w ⊆ g.terminals)
    (h : g.Derives x w) : ∃ height, ∀ symbol ∈ x, symbol ∈ g.Grounded height := by
  have hyields := derives_iff_yields.mp h
  clear h
  induction hyields with
  | nil => exact ⟨0, fun _ hsymbol ↦ absurd hsymbol List.not_mem_nil⟩
  | keep symbol _ ih =>
    obtain ⟨ha, hw⟩ := List.cons_subset.mp hw
    obtain ⟨height, hx⟩ := ih hw
    exact ⟨height, List.forall_mem_cons.mpr ⟨grounded_mono (Nat.zero_le height) ha, hx⟩⟩
  | expand hmem _ ih =>
    obtain ⟨height, hrow⟩ := ih hw
    obtain ⟨hsymbols, hx⟩ := List.forall_mem_append.mp hrow
    refine ⟨height + 1, List.forall_mem_cons.mpr ⟨.inr ⟨_, hmem, rfl, hsymbols⟩, ?_⟩⟩
    exact fun symbol hsymbol ↦ .inl (hx symbol hsymbol)

/-- **Somewhere in a left recursion there is a choice.** If a left recursive symbol is grounded,
then some name has a production by which it derives itself in front and a different one by which it
derives terminals. -/
theorem exists_ne_of_leftRecursive {height : ℕ} {symbol : String}
    (hgrounded : symbol ∈ g.Grounded height) (h : g.LeftRecursive symbol) :
    ∃ p ∈ g.productions, ∃ q ∈ g.productions, p.name = q.name ∧ p ≠ q ∧
      (∃ y, g.Derives p.symbols (p.name :: y)) ∧ ∃ w ⊆ g.terminals, g.Derives q.symbols w := by
  induction height generalizing symbol with
  | zero =>
    obtain ⟨p, hmem, rfl, -, -⟩ := h.exists_production
    exact absurd hgrounded (name_notMem_terminals hmem)
  | succ height ih =>
    rcases hgrounded with hgrounded | ⟨q, hq, rfl, hsymbols⟩
    · exact ih hgrounded h
    · obtain ⟨p, hp, hname, hrecursive, other, hother, hleft⟩ := h.exists_production
      by_cases heq : p = q
      · -- a symbol on the right is left recursive too, and its tree is lower
        exact ih (hsymbols other (heq ▸ hother)) hleft
      · refine ⟨p, hp, q, hq, hname, heq, hname ▸ hrecursive, ?_⟩
        exact exists_terminals_of_forall fun other hother ↦
          exists_terminals_of_grounded (hsymbols other hother)

/-! ## The conflict -/

private theorem Defined.subset_symbols (h : g.Defined) {x y : List String} (hx : x ⊆ g.symbols)
    (hderives : g.Derives x y) : y ⊆ g.symbols := by
  induction hderives with
  | refl => exact hx
  | tail _ hstep ih =>
    obtain ⟨hmem, front, back⟩ := hstep
    obtain ⟨hfront, hback⟩ := List.append_subset.mp ih
    refine List.append_subset.mpr ⟨hfront, List.append_subset.mpr ⟨h _ hmem, ?_⟩⟩
    exact (List.cons_subset.mp hback).2

private theorem Reduced.exists_terminals (h : g.Reduced start) {x : List String}
    (hx : x ⊆ g.symbols) :
    ∃ w ⊆ g.terminals, g.Derives x w := by
  refine exists_terminals_of_forall fun symbol hsymbol ↦ ?_
  rcases List.mem_append.mp (hx hsymbol) with hname | hterminal
  · exact h.productive symbol hname
  · exact ⟨[symbol], List.cons_subset.mpr ⟨hterminal, List.nil_subset _⟩, .refl _⟩

private theorem Reduced.exists_grounded (h : g.Reduced start) (hleft : g.LeftRecursive name) :
    ∃ height, name ∈ g.Grounded height := by
  obtain ⟨p, hmem, rfl, -, -⟩ := hleft.exists_production
  obtain ⟨w, hw, hderives⟩ := h.productive p.name (name_mem_nonterminals hmem)
  obtain ⟨height, hgrounded⟩ := exists_grounded_of_derives hw hderives
  exact ⟨height, hgrounded p.name List.mem_cons_self⟩

theorem Marked.eq_of_name_eq (h : g.Marked start body mark) {p : Production}
    (hmem : p ∈ g.productions) (hname : p.name = start) : p = ⟨start, [body, mark]⟩ := by
  have hp : p ∈ g.productionsOf start := List.mem_filter.mpr ⟨hmem, beq_iff_eq.mpr hname⟩
  rw [h.productionsOf_eq] at hp
  exact List.mem_singleton.mp hp

/-- What stands behind a nonterminal, other than the start, ends with the mark. -/
private theorem Marked.exists_concat (h : g.Marked start body mark) (hname : name ∈ g.nonterminals)
    (hne : name ≠ start) {u v : List String} (hderives : g.Derives [start] (u ++ name :: v)) :
    ∃ z, v = z ++ [mark] := by
  have hyields := derives_iff_yields.mp hderives
  generalize hrow : u ++ name :: v = row at hyields
  cases hyields with
  | keep _ hkeep =>
    cases hkeep
    rcases List.append_eq_singleton_iff.mp hrow with ⟨-, hrow⟩ | ⟨-, hrow⟩
    · exact absurd (List.cons.inj hrow).1 hne
    · cases hrow
  | @expand _ _ p hmem hexpand =>
    rw [h.eq_of_name_eq hmem rfl] at hexpand
    obtain ⟨x, last, rfl, -, hlast⟩ := Yields.split (x := [body]) hexpand
    obtain ⟨y, rfl, hnil⟩ := (derives_iff_yields.mpr hlast).of_terminal h.mark_mem
    cases eq_nil_of_derives_nil hnil
    -- the mark is a terminal, so the nonterminal stands in front of it
    rcases cons_mem_append hrow with ⟨z, -, rfl⟩ | ⟨z, rfl, hlast⟩
    · exact ⟨z, rfl⟩
    · rcases List.singleton_eq_append_iff.mp hlast with ⟨rfl, hlast⟩ | ⟨-, hlast⟩
      · obtain ⟨rfl, -⟩ := List.cons.inj hlast
        obtain ⟨p, hmem, rfl⟩ := mem_nonterminals.mp hname
        exact absurd h.mark_mem (name_notMem_terminals hmem)
      · cases hlast

/-- A terminal calls for two productions of a name that stands in front of the mark, if by one of
them the name derives itself in front, and by the other one it derives terminals. -/
private theorem exists_predicted_of_recursive (hdefined : g.Defined) (hreduced : g.Reduced start)
    (hstart : start ∈ g.nonterminals) (hmark : mark ∈ g.terminals) {p q : Production}
    (hp : p ∈ g.productions) (hq : q ∈ g.productions) (hname : p.name = q.name)
    {u y z here : List String} (hreach : g.Derives [start] (u ++ p.name :: (z ++ [mark])))
    (hback : g.Derives p.symbols (p.name :: y)) (hhere : here ⊆ g.terminals)
    (hend : g.Derives q.symbols here) : ∃ a, g.Predicted p a ∧ g.Predicted q a := by
  have hagain : g.Derives (p.symbols ++ (z ++ [mark])) (q.name :: (y ++ (z ++ [mark]))) :=
    hname ▸ hback.append_right (z ++ [mark])
  have hrow : g.Derives [start] (u ++ q.name :: (y ++ (z ++ [mark]))) :=
    hreach.trans (((rewrites_cons hp _).derives.trans hagain).append_left u)
  -- whatever stands behind the name is brought to terminals, and the mark stays
  have hdefined_row := hdefined.subset_symbols
    (List.cons_subset.mpr ⟨List.mem_append_left _ hstart, List.nil_subset _⟩) hrow
  have hbehind : y ++ z ⊆ g.symbols := by
    have htail := (List.cons_subset.mp (List.append_subset.mp hdefined_row).2).2
    rw [← List.append_assoc] at htail
    exact (List.append_subset.mp htail).1
  obtain ⟨there, hthere, hderives⟩ := hreduced.exists_terminals hbehind
  have hfinish : g.Derives (q.symbols ++ (y ++ (z ++ [mark]))) (here ++ (there ++ [mark])) := by
    rw [← List.append_assoc y]
    exact hend.append (hderives.append_right [mark])
  obtain ⟨a, rest, hcons⟩ : ∃ a rest, here ++ (there ++ [mark]) = a :: rest :=
    List.exists_cons_of_ne_nil (by simp)
  have hterminals : here ++ (there ++ [mark]) ⊆ g.terminals :=
    List.append_subset.mpr ⟨hhere, List.append_subset.mpr
      ⟨hthere, List.cons_subset.mpr ⟨hmark, List.nil_subset _⟩⟩⟩
  have ha : a ∈ g.terminals := hterminals (hcons ▸ List.mem_cons_self)
  rw [hcons] at hfinish
  -- the one is called for in front of the mark, the other one once the name has come back
  refine ⟨a, ⟨ha, start, u, z ++ [mark], rest, hreach, ?_⟩,
    ha, start, u, y ++ (z ++ [mark]), rest, hrow, hfinish⟩
  exact hagain.trans ((rewrites_cons hq _).derives.trans hfinish)

/-- **Left recursion is a conflict.** Of a grammar whose symbols are defined, in which every
nonterminal can be reached and derives terminals, and whose end is marked, the check for prediction
reports a conflict if a symbol is left recursive. Whether the start or the mark occur in further
productions is of no importance. -/
theorem exists_conflict_of_leftRecursive (h : g.checkSymbols = .ok ())
    (hmarked : g.Marked start body mark) (hreduced : g.Reduced start)
    (hleft : g.LeftRecursive name) :
    ∃ terminals p q, g.checkLL1 = .error (.faulty (.conflict terminals p q)) := by
  obtain ⟨⟨first, hfirst, hchosen⟩, hdefined⟩ := checkSymbols_eq_ok_iff.mp h
  obtain rfl : first = start := Option.some.inj (hchosen.symm.trans hmarked.start_eq)
  obtain ⟨height, hgrounded⟩ := hreduced.exists_grounded hleft
  obtain ⟨p, hp, q, hq, hname, hne, ⟨y, hback⟩, here, hhere, hend⟩ :=
    exists_ne_of_leftRecursive hgrounded hleft
  -- the start has one production only, so the name is another one
  have hother : p.name ≠ first := fun hstart ↦ hne
    ((hmarked.eq_of_name_eq hp hstart).trans (hmarked.eq_of_name_eq hq (hname ▸ hstart)).symm)
  have hpname := name_mem_nonterminals hp
  obtain ⟨u, v, hreach⟩ := hreduced.reachable p.name hpname
  obtain ⟨z, rfl⟩ := hmarked.exists_concat hpname hother hreach
  obtain ⟨a, hcalled, hcalled'⟩ := exists_predicted_of_recursive hdefined hreduced hfirst
    hmarked.mark_mem hp hq hname hreach hback hhere hend
  rcases checkLL1_cases h with hok | ⟨terminals, p', q', herror, -⟩
  · obtain ⟨i, hi⟩ := List.mem_iff_getElem?.mp hp
    obtain ⟨j, hj⟩ := List.mem_iff_getElem?.mp hq
    obtain rfl := eq_of_predicted hok hi hj hname hcalled hcalled'
    exact absurd (Option.some.inj (hi.symm.trans hj)) hne
  · exact ⟨terminals, p', q', herror⟩

/-- A list that starts with a list, behind something which may be left out. -/
def hiddenList : Grammar where
  terminals := ["x", ",", "END"]
  productions := [⟨"goal", ["list", "END"]⟩, ⟨"list", ["opt", "list", "x"]⟩, ⟨"list", ["x"]⟩,
    ⟨"opt", []⟩, ⟨"opt", [","]⟩]
  start := some "goal"
  disjoint := by decide

private theorem nonterminals_hiddenList :
    hiddenList.nonterminals = ["goal", "list", "opt"] := by decide

theorem derives_hiddenList :
    hiddenList.Derives ["goal"] ["list", "END"] ∧
      hiddenList.Derives ["list"] ["opt", "list", "x"] ∧ hiddenList.Derives ["list"] ["x"] ∧
      hiddenList.Derives ["opt"] [] := by
  have hgoal : (⟨"goal", ["list", "END"]⟩ : Production) ∈ hiddenList.productions := by decide
  have hlist : (⟨"list", ["opt", "list", "x"]⟩ : Production) ∈ hiddenList.productions := by decide
  have hsingle : (⟨"list", ["x"]⟩ : Production) ∈ hiddenList.productions := by decide
  have hopt : (⟨"opt", []⟩ : Production) ∈ hiddenList.productions := by decide
  exact ⟨derives_of_mem hgoal, derives_of_mem hlist, derives_of_mem hsingle, derives_of_mem hopt⟩

private theorem reduced_hiddenList : hiddenList.Reduced "goal" := by
  obtain ⟨hgoal, hlist, hsingle, hopt⟩ := derives_hiddenList
  constructor
  · rw [nonterminals_hiddenList]
    simp only [List.forall_mem_cons]
    refine ⟨⟨[], [], .refl _⟩, ⟨[], ["END"], hgoal⟩, ⟨[], ["list", "x", "END"], ?_⟩, by simp⟩
    exact hgoal.trans (hlist.append_right ["END"])
  · rw [nonterminals_hiddenList]
    simp only [List.forall_mem_cons]
    refine ⟨⟨["x", "END"], by decide, ?_⟩, ⟨["x"], by decide, hsingle⟩, ⟨[], by decide, hopt⟩,
      by simp⟩
    exact hgoal.trans (hsingle.append_right ["END"])

private theorem leftRecursive_hiddenList : hiddenList.LeftRecursive "list" := by
  obtain ⟨-, -, -, hopt⟩ := derives_hiddenList
  have hlist : (⟨"list", ["opt", "list", "x"]⟩ : Production) ∈ hiddenList.productions := by decide
  have hstep : hiddenList.Rewrites ["list"] ["opt", "list", "x"] := rewrites_cons hlist []
  exact ⟨["x"], (Relation.TransGen.single hstep).trans_left (hopt.append_right ["list", "x"])⟩

/-- The list is left recursive once what stands in front of it has vanished. -/
theorem exists_conflict_hiddenList :
    hiddenList.checkSymbols = .ok () ∧ hiddenList.Marked "goal" "list" "END" ∧
      hiddenList.Reduced "goal" ∧ hiddenList.LeftRecursive "list" ∧
      ∃ terminals p q, hiddenList.checkLL1 = .error (.faulty (.conflict terminals p q)) := by
  have hsymbols : hiddenList.checkSymbols = .ok () := by decide
  have hmarked : hiddenList.Marked "goal" "list" "END" := ⟨rfl, by decide, by decide⟩
  exact ⟨hsymbols, hmarked, reduced_hiddenList, leftRecursive_hiddenList,
    exists_conflict_of_leftRecursive hsymbols hmarked reduced_hiddenList leftRecursive_hiddenList⟩

end ArithLang.Grammar
