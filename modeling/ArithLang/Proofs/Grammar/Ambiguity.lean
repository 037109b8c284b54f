import ArithLang.Proofs.Grammar.Prediction
import Mathlib.Data.List.Basic

/-!
# Leftmost derivations

A derivation is leftmost if every step replaces the first nonterminal of its row. It is given by the
places of the productions that it uses, so two equal productions at different places make two
derivations.

## Where the check falls short

The check for prediction compares what terminals select. While input remains, this leaves no choice:
the next terminal calls for at most one production. At the end of the input there is no terminal to
look at, and the tables of following terminals have no entry for the end either. So a grammar may
pass although two productions of a nonterminal derive the empty row, and if that nonterminal is what
the end of the input is to be derived from, both will do. `Undecided` describes this situation, and
`leftmost_unique_iff` says that it is the only one in which a grammar that passes the check is
ambiguous.
-/

namespace ArithLang.Grammar

variable {g : Grammar}

/-- A leftmost derivation, by the places of the productions that it uses. -/
inductive Leftmost (g : Grammar) : List String → List ℕ → List String → Prop where
  /-- No step is made. -/
  | refl (row : List String) : Leftmost g row [] row
  /-- The first nonterminal is replaced, behind some terminals. -/
  | step {front back row : List String} {place : ℕ} {places : List ℕ} {production : Production}
      (hfront : front ⊆ g.terminals) (hplace : g.productions[place]? = some production)
      (h : Leftmost g (front ++ (production.symbols ++ back)) places row) :
      Leftmost g (front ++ production.name :: back) (place :: places) row

/-- After `w` has been derived from the start, a nonterminal and other symbols remain, of which all
may vanish, and the nonterminal may do so by two productions. -/
def Undecided (g : Grammar) (start : String) (w : List String) : Prop :=
  ∃ (i j : ℕ) (p q : Production) (rest : List String), i ≠ j ∧
    g.productions[i]? = some p ∧ g.productions[j]? = some q ∧ p.name = q.name ∧
    g.Derives p.symbols [] ∧ g.Derives q.symbols [] ∧ g.Derives rest [] ∧
    g.Derives [start] (w ++ p.name :: rest)

/-! ## Leftmost derivations and derivations -/

theorem Leftmost.derives {x y : List String} {places : List ℕ} (h : g.Leftmost x places y) :
    g.Derives x y := by
  induction h with
  | refl row => exact .refl row
  | @step front back _ _ _ _ _ hplace _ ih =>
    have hstep := rewrites_cons (List.mem_of_getElem? hplace) back
    exact (hstep.append_left front).derives.trans ih

theorem Leftmost.trans {x y z : List String} {is js : List ℕ} (h : g.Leftmost x is y)
    (h' : g.Leftmost y js z) : g.Leftmost x (is ++ js) z := by
  induction h with
  | refl row => exact h'
  | step hfront hplace _ ih => exact .step hfront hplace (ih h')

theorem Leftmost.append_left {x y u : List String} {places : List ℕ} (hu : u ⊆ g.terminals)
    (h : g.Leftmost x places y) : g.Leftmost (u ++ x) places (u ++ y) := by
  induction h with
  | refl row => exact .refl (u ++ row)
  | step hfront hplace _ ih =>
    rw [← List.append_assoc] at ih ⊢
    exact .step (List.append_subset.mpr ⟨hu, hfront⟩) hplace ih

private theorem exists_place {production : Production} (hmem : production ∈ g.productions) :
    ∃ place : ℕ, g.productions[place]? = some production :=
  List.mem_iff_getElem?.mp hmem

theorem exists_leftmost {x w : List String} (hw : w ⊆ g.terminals) (h : g.Derives x w) :
    ∃ places, g.Leftmost x places w := by
  have hyields := derives_iff_yields.mp h
  clear h
  induction hyields with
  | nil => exact ⟨[], .refl []⟩
  | keep symbol _ ih =>
    rw [List.cons_subset] at hw
    obtain ⟨places, hplaces⟩ := ih hw.2
    have hsymbol : [symbol] ⊆ g.terminals := List.cons_subset.mpr ⟨hw.1, List.nil_subset _⟩
    exact ⟨places, hplaces.append_left hsymbol⟩
  | expand hmem _ ih =>
    obtain ⟨places, hplaces⟩ := ih hw
    obtain ⟨place, hplace⟩ := exists_place hmem
    exact ⟨place :: places, Leftmost.step (List.nil_subset _) hplace hplaces⟩

/-- A row with a symbol behind some terminals is derived by a leftmost derivation up to what stands
behind that symbol, which remains to be done. -/
private theorem exists_leftmost_cons {x w y : List String} {name : String} (hw : w ⊆ g.terminals)
    (h : g.Derives x (w ++ name :: y)) :
    ∃ places z, g.Leftmost x places (w ++ name :: z) ∧ g.Derives z y := by
  have hyields := derives_iff_yields.mp h
  clear h
  generalize hrow : w ++ name :: y = row at hyields
  induction hyields generalizing w with
  | nil => cases w <;> cases hrow
  | @keep x row symbol hkeep ih =>
    cases w with
    | nil =>
      obtain ⟨rfl, rfl⟩ := List.cons.inj hrow
      exact ⟨[], x, .refl _, derives_iff_yields.mpr hkeep⟩
    | cons a w =>
      obtain ⟨rfl, htail⟩ := List.cons.inj hrow
      rw [List.cons_subset] at hw
      obtain ⟨places, z, hplaces, hz⟩ := ih hw.2 htail
      have ha : [a] ⊆ g.terminals := List.cons_subset.mpr ⟨hw.1, List.nil_subset _⟩
      exact ⟨places, z, hplaces.append_left ha, hz⟩
  | expand hmem _ ih =>
    obtain ⟨places, z, hplaces, hz⟩ := ih hw hrow
    obtain ⟨place, hplace⟩ := exists_place hmem
    exact ⟨place :: places, z, Leftmost.step (List.nil_subset _) hplace hplaces, hz⟩

/-! ## Where two leftmost derivations part -/

private theorem first_nonterminal_unique {u v x y : List String} {name other : String}
    (hu : u ⊆ g.terminals) (hv : v ⊆ g.terminals) (hname : name ∉ g.terminals)
    (hother : other ∉ g.terminals) (h : u ++ name :: x = v ++ other :: y) :
    u = v ∧ name = other ∧ x = y := by
  induction u generalizing v with
  | nil =>
    cases v with
    | nil =>
      obtain ⟨rfl, rfl⟩ := List.cons.inj h
      exact ⟨rfl, rfl, rfl⟩
    | cons b v =>
      obtain ⟨rfl, -⟩ := List.cons.inj h
      exact absurd (hv List.mem_cons_self) hname
  | cons a u ih =>
    cases v with
    | nil =>
      obtain ⟨rfl, -⟩ := List.cons.inj h
      exact absurd (hu List.mem_cons_self) hother
    | cons b v =>
      obtain ⟨rfl, htail⟩ := List.cons.inj h
      obtain ⟨rfl, hrest⟩ := ih (List.cons_subset.mp hu).2 (List.cons_subset.mp hv).2 htail
      exact ⟨rfl, hrest⟩

private theorem Leftmost.eq_nil_of_terminals {w y : List String} {places : List ℕ}
    (h : g.Leftmost w places y) (hw : w ⊆ g.terminals) : places = [] := by
  cases h with
  | refl => rfl
  | @step front back _ _ _ production _ hplace _ =>
    have hname : production.name ∈ g.terminals :=
      hw (List.mem_append_right front List.mem_cons_self)
    exact absurd hname (name_notMem_terminals (List.mem_of_getElem? hplace))

/-- Two productions for the same place in a derivation of `w`, in a grammar that passes the check:
they are one, or the input is at its end and both vanish. -/
private theorem eq_or_undecided (hcheck : g.checkLL1 = .ok ()) {start : String}
    {w front back : List String}
    (hw : w ⊆ g.terminals) (hfront : front ⊆ g.terminals) {i j : ℕ} {p q : Production}
    (hi : g.productions[i]? = some p) (hj : g.productions[j]? = some q) (hname : p.name = q.name)
    (hstart : g.Derives [start] (front ++ p.name :: back))
    (hp : g.Derives (front ++ (p.symbols ++ back)) w)
    (hq : g.Derives (front ++ (q.symbols ++ back)) w) : i = j ∨ g.Undecided start w := by
  obtain ⟨rest, rfl, hleft⟩ := hp.of_terminals hfront
  obtain ⟨rest', heq, hright⟩ := hq.of_terminals hfront
  obtain rfl := List.append_cancel_left heq
  cases rest with
  | cons a rest =>
    -- the next terminal calls for both productions
    have ha : a ∈ g.terminals := hw (List.mem_append_right front List.mem_cons_self)
    refine .inl (eq_of_predicted hcheck hi hj hname ⟨ha, start, front, back, rest, hstart, hleft⟩
      ⟨ha, start, front, back, rest, ?_, hright⟩)
    rwa [← hname]
  | nil =>
    -- there is no terminal to look at, and all that is left has to vanish
    by_cases hij : i = j
    · exact .inl hij
    · obtain ⟨u, v, huv, hpnil, hback⟩ := hleft.split
      obtain ⟨rfl, rfl⟩ := List.append_eq_nil_iff.mp huv.symm
      obtain ⟨u, v, huv, hqnil, -⟩ := hright.split
      obtain ⟨rfl, rfl⟩ := List.append_eq_nil_iff.mp huv.symm
      refine .inr ⟨i, j, p, q, back, hij, hi, hj, hname, hpnil, hqnil, hback, ?_⟩
      rwa [List.append_nil]

/-- In a grammar that passes the check, two leftmost derivations of `w` from a common row are equal,
unless the grammar is undecided at the end of `w`. -/
theorem Leftmost.unique (hcheck : g.checkLL1 = .ok ()) {start : String} {x w : List String}
    {is js : List ℕ} (hw : w ⊆ g.terminals) (hdecided : ¬ g.Undecided start w)
    (hstart : g.Derives [start] x) (h : g.Leftmost x is w) (h' : g.Leftmost x js w) : is = js := by
  induction h generalizing js with
  | refl row => exact (h'.eq_nil_of_terminals hw).symm
  | @step front back w i is p hfront hi h ih =>
    generalize hrow : front ++ p.name :: back = row at h'
    have hp := name_notMem_terminals (List.mem_of_getElem? hi)
    cases h' with
    | refl =>
      subst hrow
      exact absurd (hw (List.mem_append_right front List.mem_cons_self)) hp
    | @step front' back' _ j js q hfront' hj h' =>
      have hq := name_notMem_terminals (List.mem_of_getElem? hj)
      -- both steps replace the same nonterminal, so they can differ in the production only
      obtain ⟨rfl, hname, rfl⟩ := first_nonterminal_unique hfront hfront' hp hq hrow
      rcases eq_or_undecided hcheck hw hfront hi hj hname hstart h.derives h'.derives with
        rfl | hundecided
      · cases hi.symm.trans hj
        have hnext := (rewrites_cons (List.mem_of_getElem? hi) back).append_left front
        rw [ih hw hdecided (hstart.trans hnext.derives) h']
      · exact absurd hundecided hdecided

/-- **A grammar that passes the check is ambiguous at the end of the input only.** From any symbol,
the start symbol or another, the terminals `w` have at most one leftmost derivation exactly if the
grammar is not undecided at the end of `w`. -/
theorem leftmost_unique_iff (hcheck : g.checkLL1 = .ok ()) (start : String) {w : List String}
    (hw : w ⊆ g.terminals) :
    (∀ is js, g.Leftmost [start] is w → g.Leftmost [start] js w → is = js) ↔
      ¬ g.Undecided start w := by
  constructor
  · rintro hunique ⟨i, j, p, q, rest, hij, hi, hj, hname, hp, hq, hrest, hstart⟩
    obtain ⟨places, back, hplaces, hback⟩ := exists_leftmost_cons hw hstart
    -- both productions go on from here to the same end
    have hleft : g.Derives (w ++ (p.symbols ++ back)) (w ++ []) :=
      (hp.append (hback.trans hrest)).append_left w
    have hright : g.Derives (w ++ (q.symbols ++ back)) (w ++ []) :=
      (hq.append (hback.trans hrest)).append_left w
    rw [List.append_nil] at hleft hright
    obtain ⟨is, his⟩ := exists_leftmost hw hleft
    obtain ⟨js, hjs⟩ := exists_leftmost hw hright
    have hfirst := hplaces.trans (.step hw hi his)
    have hsecond : g.Leftmost [start] (places ++ j :: js) w := by
      refine hplaces.trans ?_
      rw [hname]
      exact .step hw hj hjs
    have heq := List.append_cancel_left (hunique _ _ hfirst hsecond)
    exact hij (List.cons.inj heq).1
  · intro hdecided is js his hjs
    exact Leftmost.unique hcheck hw hdecided (.refl [start]) his hjs

/-! ## A grammar that passes the check and is ambiguous -/

/-- A goal which may be left out, of something which may be left out. -/
def optional : Grammar where
  terminals := ["x"]
  productions := [⟨"goal", ["opt"]⟩, ⟨"goal", []⟩, ⟨"opt", ["x"]⟩, ⟨"opt", []⟩]
  start := some "goal"
  disjoint := by decide

theorem checkLL1_optional : optional.checkLL1 = .ok () := by decide

theorem leftmost_optional_outer : optional.Leftmost ["goal"] [0, 3] [] :=
  @Leftmost.step optional [] [] [] 0 [3] ⟨"goal", ["opt"]⟩ (List.nil_subset _) rfl
    (@Leftmost.step optional [] [] [] 3 [] ⟨"opt", []⟩ (List.nil_subset _) rfl (.refl []))

theorem leftmost_optional_inner : optional.Leftmost ["goal"] [1] [] :=
  @Leftmost.step optional [] [] [] 1 [] ⟨"goal", []⟩ (List.nil_subset _) rfl (.refl [])

/-- The empty row has two leftmost derivations, although the grammar passes the check. -/
theorem optional_ambiguous : optional.checkLL1 = .ok () ∧ optional.start = some "goal" ∧
    ¬ ∀ is js, optional.Leftmost ["goal"] is [] → optional.Leftmost ["goal"] js [] → is = js := by
  refine ⟨checkLL1_optional, rfl, fun hunique ↦ ?_⟩
  have heq := hunique _ _ leftmost_optional_outer leftmost_optional_inner
  revert heq
  decide

theorem optional_undecided : optional.checkLL1 = .ok () ∧ [] ⊆ optional.terminals ∧
    optional.Undecided "goal" [] := by
  have hempty : [] ⊆ optional.terminals := List.nil_subset _
  refine ⟨checkLL1_optional, hempty, ?_⟩
  by_contra hdecided
  have heq := (leftmost_unique_iff checkLL1_optional "goal" hempty).mpr hdecided _ _
    leftmost_optional_outer leftmost_optional_inner
  revert heq
  decide

end ArithLang.Grammar
