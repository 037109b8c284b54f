import ArithLang.Grammar.Follow
import ArithLang.Proofs.Grammar.Derivation
import ArithLang.Proofs.Grammar.Table
import Mathlib.Data.List.Basic
import Mathlib.Data.List.ProdSigma

/-!
# What the analyses of a grammar find

Three tables are made of a grammar: the nullable symbols, the first terminals and the following
ones. Each is made by passes over the productions, and of each we show that what it says is true of
derivations, and that it is closed under the rule by which it was made (`nullable_spec`,
`first_spec`, `follow_spec`). The three rules together are `Saturated`. Closed tables have room for
everything that can be derived, which is shown from `Saturated` alone, so nothing about passes is
needed for it.
-/

namespace ArithLang.Grammar

variable {g : Grammar}

/-! ## What the tables should say -/

/-- The symbol derives the empty row. -/
def Vanishes (g : Grammar) (symbol : String) : Prop := g.Derives [symbol] []

/-- A terminal stands first in something that the symbol derives. -/
def Begins (g : Grammar) (symbol a : String) : Prop :=
  a ∈ g.terminals ∧ ∃ y, g.Derives [symbol] (a :: y)

/-- A terminal stands behind the symbol in something that a nonterminal derives. -/
def Follows (g : Grammar) (symbol a : String) : Prop :=
  a ∈ g.terminals ∧ ∃ name ∈ g.nonterminals, ∃ x y, g.Derives [name] (x ++ symbol :: a :: y)

theorem derives_nil_of_vanishes {x : List String} (h : ∀ symbol ∈ x, g.Vanishes symbol) :
    g.Derives x [] := by
  induction x with
  | nil => exact .refl []
  | cons symbol x ih =>
    rw [List.forall_mem_cons] at h
    exact Derives.append h.1 (ih h.2)

theorem name_mem_nonterminals {production : Production} (hmem : production ∈ g.productions) :
    production.name ∈ g.nonterminals :=
  mem_nonterminals.mpr ⟨production, hmem, rfl⟩

/-- By the tables, what the symbols derive may begin with `a`: a symbol begins with it, and those in
front of that symbol vanish. -/
def Opens (nullable : Set String) (first : Set (String × String)) : List String → String → Prop
  | [], _ => False
  | symbol :: rest, a => (symbol, a) ∈ first ∨ symbol ∈ nullable ∧ Opens nullable first rest a

@[simp] private theorem opens_append_iff {nullable : Set String} {first : Set (String × String)}
    {x y : List String} {a : String} :
    Opens nullable first (x ++ y) a ↔
      Opens nullable first x a ∨ (∀ symbol ∈ x, symbol ∈ nullable) ∧ Opens nullable first y a := by
  induction x with
  | nil => simp [Opens]
  | cons symbol x ih =>
    rw [List.cons_append, Opens, Opens, ih, List.forall_mem_cons]
    tauto

theorem derives_of_opens {nullable : Set String} {first : Set (String × String)}
    (hnullable : ∀ symbol ∈ nullable, g.Vanishes symbol)
    (hfirst : ∀ fact ∈ first, g.Begins fact.1 fact.2) {symbols : List String} {a : String}
    (h : Opens nullable first symbols a) : a ∈ g.terminals ∧ ∃ y, g.Derives symbols (a :: y) := by
  induction symbols with
  | nil => exact absurd h not_false
  | cons symbol rest ih =>
    rcases h with h | ⟨hvanishes, h⟩
    · obtain ⟨ha, y, hy⟩ := hfirst _ h
      exact ⟨ha, y ++ rest, hy.append_right rest⟩
    · obtain ⟨ha, y, hy⟩ := ih h
      exact ⟨ha, y, Derives.append (hnullable _ hvanishes) hy⟩

/-! ## Nullable symbols -/

private theorem allNullable_eq_ok {nullable : Table Bool} {symbols : List String} {all : Bool}
    (h : allNullable nullable symbols = .ok all) :
    all = true ↔ ∀ symbol ∈ symbols, symbol ∈ nullable.marked := by
  induction symbols with
  | nil =>
    cases h
    simp
  | cons symbol rest ih =>
    rw [allNullable, bind_eq_ok_iff] at h
    obtain ⟨here, hhere, h⟩ := h
    cases here with
    | false =>
      cases h
      simp [hhere]
    | true => simp [hhere, ih h]

/-- A production is settled: nothing changes, and nothing needs to, or its name is marked. -/
theorem settleNullable_cases {progress next : Progress (Table Bool)} {production : Production}
    (h : settleNullable progress production = .ok next) :
    (next = progress ∧ ((∀ symbol ∈ production.symbols, symbol ∈ progress.found.marked) →
      production.name ∈ progress.found.marked)) ∨
    (progress.found.find production.name = .ok false ∧
      (∀ symbol ∈ production.symbols, symbol ∈ progress.found.marked) ∧
      next = ⟨progress.found.set production.name true, true⟩) := by
  rw [settleNullable, bind_eq_ok_iff] at h
  obtain ⟨known, hknown, h⟩ := h
  cases known with
  | true =>
    cases h
    exact .inl ⟨rfl, fun _ ↦ hknown⟩
  | false =>
    rw [if_neg Bool.false_ne_true, bind_eq_ok_iff] at h
    obtain ⟨all, hall, h⟩ := h
    cases all with
    | true =>
      cases h
      exact .inr ⟨hknown, (allNullable_eq_ok hall).mp rfl, rfl⟩
    | false =>
      cases h
      refine .inl ⟨rfl, fun hsymbols ↦ ?_⟩
      exact absurd ((allNullable_eq_ok hall).mpr hsymbols) Bool.false_ne_true

private theorem settleNullable_advances {production : Production}
    (hmem : production ∈ g.productions)
    {progress next : Progress (Table Bool)}
    (hsound : progress.found.marked ⊆ {symbol | g.Vanishes symbol})
    (h : settleNullable progress production = .ok next) :
    Advances Table.marked {symbol | symbol ∈ g.nonterminals ∧ g.Vanishes symbol} progress next := by
  rcases settleNullable_cases h with ⟨rfl, -⟩ | ⟨hfind, hsymbols, rfl⟩
  · exact .refl next
  · have hvanishes : g.Vanishes production.name :=
      .of_production hmem (derives_nil_of_vanishes fun symbol hsymbol ↦
        hsound (hsymbols symbol hsymbol))
    refine ⟨?_, ?_, fun _ ↦ .inr ⟨production.name, ?_, ?_⟩, fun hchanged ↦ ?_⟩
    · rw [Table.marked_set hfind]
      exact Set.subset_insert _ _
    · rw [Table.marked_set hfind]
      exact Set.insert_subset (.inr ⟨name_mem_nonterminals hmem, hvanishes⟩) Set.subset_union_left
    · rw [Table.marked_set hfind]
      exact Set.mem_insert _ _
    · simp [hfind]
    · cases hchanged

theorem nullable_rests {nullable : Table Bool} (h : g.nullable = .ok nullable) :
    nullable.marked ⊆ {symbol | g.Vanishes symbol} ∧
      ∀ production ∈ g.productions,
        settleNullable ⟨nullable, false⟩ production = .ok ⟨nullable, false⟩ := by
  have hfresh : {symbol | symbol ∈ g.nonterminals ∧ g.Vanishes symbol}
      ⊆ {symbol | g.Vanishes symbol} := fun _ hsymbol ↦ hsymbol.2
  have hpart : ∀ production ∈ g.productions, ∀ progress next,
      Table.marked progress.found ⊆ {symbol | g.Vanishes symbol} →
      settleNullable progress production = .ok next →
      Advances Table.marked {symbol | symbol ∈ g.nonterminals ∧ g.Vanishes symbol} progress next :=
    fun production hmem progress next hsound hnext ↦ settleNullable_advances hmem hsound hnext
  have hempty : (Table.const g.symbols false).marked ⊆ {symbol | g.Vanishes symbol} := by
    intro symbol hsymbol
    cases (Table.find_const_iff.mp hsymbol).2
  obtain ⟨hsound, -, hrests⟩ := untilStable_foldlM_spec hfresh hpart
    (fun symbol hsymbol ↦ hsymbol.1) (Nat.lt_succ_self _) hempty h
  exact ⟨hsound, hrests⟩

/-- The table of nullable symbols is right, and closed under the productions. -/
theorem nullable_spec {nullable : Table Bool} (h : g.nullable = .ok nullable) :
    (∀ symbol ∈ nullable.marked, g.Vanishes symbol) ∧
      ∀ production ∈ g.productions, (∀ symbol ∈ production.symbols, symbol ∈ nullable.marked) →
        production.name ∈ nullable.marked := by
  obtain ⟨hsound, hrests⟩ := nullable_rests h
  refine ⟨hsound, fun production hmem hsymbols ↦ ?_⟩
  rcases settleNullable_cases (hrests production hmem) with ⟨-, hsettled⟩ | ⟨-, -, hchanged⟩
  · exact hsettled hsymbols
  · cases congrArg Progress.changed hchanged

/-! ## Adding to an entry -/

/-- Adds to the entry of a name, which is `known`, the candidates that it lacks. First and following
terminals are both collected by this step. -/
def enter (name : String) (known candidates : List String)
    (progress : Progress (Table (List String))) : Progress (Table (List String)) :=
  if (newMembers known candidates).isEmpty then progress
  else ⟨progress.found.set name (known ++ newMembers known candidates), true⟩

section Enter

variable {name : String} {known candidates : List String}
  {progress : Progress (Table (List String))}

private theorem enter_cases (h : progress.found.find name = .ok known) :
    (enter name known candidates progress = progress ∧
      ∀ a ∈ candidates, (name, a) ∈ progress.found.members) ∨
    (enter name known candidates progress
        = ⟨progress.found.set name (known ++ newMembers known candidates), true⟩ ∧
      ∃ a ∈ newMembers known candidates, (name, a) ∉ progress.found.members) := by
  by_cases hempty : newMembers known candidates = []
  · refine .inl ⟨?_, fun a ha ↦ (Table.mem_members_iff h).mpr ?_⟩
    · rw [enter, hempty]
      rfl
    · by_contra hknown
      have hnew : a ∈ newMembers known candidates := mem_newMembers.mpr ⟨ha, hknown⟩
      rw [hempty] at hnew
      cases hnew
  · obtain ⟨a, ha⟩ := List.exists_mem_of_ne_nil _ hempty
    refine .inr ⟨?_, a, ha, fun hmem ↦ ?_⟩
    · rw [enter, if_neg (by rwa [List.isEmpty_iff])]
    · exact (mem_newMembers.mp ha).2 ((Table.mem_members_iff h).mp hmem)

private theorem enter_advances {fresh : Set (String × String)}
    (h : progress.found.find name = .ok known)
    (hfresh : ∀ a ∈ candidates, (name, a) ∈ fresh) :
    Advances Table.members fresh progress (enter name known candidates progress) := by
  rcases enter_cases h with ⟨heq, -⟩ | ⟨heq, a, ha, hnew⟩
  · rw [heq]
    exact .refl progress
  · rw [heq]
    refine ⟨?_, ?_, fun _ ↦ .inr ⟨(name, a), ?_, hnew⟩, fun hchanged ↦ ?_⟩
    · rintro ⟨other, b⟩ hmem
      exact (Table.mem_members_set_iff h).mpr (.inl hmem)
    · rintro ⟨other, b⟩ hmem
      rcases (Table.mem_members_set_iff h).mp hmem with hmem | ⟨rfl, hb⟩
      · exact .inl hmem
      · exact .inr (hfresh b (mem_newMembers.mp hb).1)
    · exact (Table.mem_members_set_iff h).mpr (.inr ⟨rfl, ha⟩)
    · cases hchanged

theorem mem_members_of_enter_eq (h : progress.found.find name = .ok known)
    (heq : enter name known candidates progress = progress) (hchanged : progress.changed = false) :
    ∀ a ∈ candidates, (name, a) ∈ progress.found.members := by
  rcases enter_cases h with ⟨-, hmem⟩ | ⟨hset, -⟩
  · exact hmem
  · rw [← heq, hset] at hchanged
    cases hchanged

end Enter

/-- Passes that collect terminals in the entries of nonterminals: what they end with is right, has
all that was there at the start, and is left alone by every production. -/
theorem untilStable_members_spec {right : Set (String × String)}
    (hterminal : ∀ fact ∈ right, fact.2 ∈ g.terminals)
    {part : Progress (Table (List String)) → Production →
      Except Undefined (Progress (Table (List String)))} {start result : Table (List String)}
    (hpart : ∀ production ∈ g.productions, ∀ progress next,
      Table.members progress.found ⊆ right → part progress production = .ok next →
      Advances Table.members {fact | fact.1 ∈ g.nonterminals ∧ fact ∈ right} progress next)
    (hstart : start.members ⊆ right)
    (h : untilStable (fun found ↦ g.productions.foldlM part ⟨found, false⟩)
      (g.nonterminals.length * g.terminals.length + 1) start = .ok result) :
    result.members ⊆ right ∧ start.members ⊆ result.members ∧
      ∀ production ∈ g.productions, part ⟨result, false⟩ production = .ok ⟨result, false⟩ := by
  have hfacts : ∀ fact ∈ {fact | fact.1 ∈ g.nonterminals ∧ fact ∈ right},
      fact ∈ g.nonterminals ×ˢ g.terminals :=
    fun fact hfact ↦ List.mem_product.mpr ⟨hfact.1, hterminal fact hfact.2⟩
  have hlimit : (g.nonterminals ×ˢ g.terminals).length
      < g.nonterminals.length * g.terminals.length + 1 :=
    Nat.lt_succ_of_le (Nat.le_of_eq (List.length_product _ _))
  exact untilStable_foldlM_spec (fun _ hfact ↦ hfact.2) hpart hfacts hlimit hstart h

/-! ## First terminals -/

private theorem addFirst_cons_eq_ok {nullable : Table Bool} {name symbol : String}
    {rest : List String}
    {progress next : Progress (Table (List String))}
    (h : addFirst nullable name (symbol :: rest) progress = .ok next) :
    ∃ candidates known empty, progress.found.find symbol = .ok candidates ∧
      progress.found.find name = .ok known ∧ nullable.find symbol = .ok empty ∧
      if empty then addFirst nullable name rest (enter name known candidates progress) = .ok next
      else enter name known candidates progress = next := by
  rw [addFirst, bind_eq_ok_iff] at h
  obtain ⟨candidates, hcandidates, h⟩ := h
  rw [bind_eq_ok_iff] at h
  obtain ⟨known, hknown, h⟩ := h
  rw [bind_eq_ok_iff] at h
  obtain ⟨empty, hempty, h⟩ := h
  refine ⟨candidates, known, empty, hcandidates, hknown, hempty, ?_⟩
  cases empty with
  | true => exact h
  | false =>
    cases h
    rfl

private theorem enter_first_advances {production : Production} (hmem : production ∈ g.productions)
    {x rest candidates known : List String} {symbol : String}
    (hsplit : production.symbols = x ++ symbol :: rest) (hx : g.Derives x [])
    {progress : Progress (Table (List String))}
    (hsound : progress.found.members ⊆ {fact | g.Begins fact.1 fact.2})
    (hcandidates : progress.found.find symbol = .ok candidates)
    (hknown : progress.found.find production.name = .ok known) :
    Advances Table.members {fact | fact.1 ∈ g.nonterminals ∧ g.Begins fact.1 fact.2} progress
      (enter production.name known candidates progress) := by
  apply enter_advances hknown
  intro a ha
  obtain ⟨hterminal, y, hy⟩ := hsound ((Table.mem_members_iff hcandidates).mpr ha)
  refine ⟨name_mem_nonterminals hmem, hterminal, y ++ rest, .of_production hmem ?_⟩
  rw [hsplit]
  exact hx.append (hy.append_right rest)

/-- The symbols of a production, from some place on, are gone through: the table advances, and if
the flag stays down it has all that these symbols can begin with. `x` stands in front of them. -/
theorem addFirst_advances {production : Production} (hmem : production ∈ g.productions)
    {nullable : Table Bool} (hnullable : ∀ symbol ∈ nullable.marked, g.Vanishes symbol)
    {x symbols : List String} (hsplit : production.symbols = x ++ symbols) (hx : g.Derives x [])
    {progress next : Progress (Table (List String))}
    (hsound : progress.found.members ⊆ {fact | g.Begins fact.1 fact.2})
    (h : addFirst nullable production.name symbols progress = .ok next) :
    Advances Table.members {fact | fact.1 ∈ g.nonterminals ∧ g.Begins fact.1 fact.2} progress next ∧
      (next.changed = false → ∀ a, Opens nullable.marked progress.found.members symbols a →
        (production.name, a) ∈ progress.found.members) := by
  induction symbols generalizing x progress with
  | nil =>
    cases h
    exact ⟨.refl _, fun _ a ha ↦ absurd ha not_false⟩
  | cons symbol rest ih =>
    obtain ⟨candidates, known, empty, hcandidates, hknown, hempty, h⟩ := addFirst_cons_eq_ok h
    have henter := enter_first_advances hmem hsplit hx hsound hcandidates hknown
    cases empty with
    | false =>
      rw [if_neg Bool.false_ne_true] at h
      subst h
      refine ⟨henter, fun hchanged a ha ↦ ?_⟩
      have heq := henter.rests hchanged
      rcases ha with ha | ⟨hvanishes, -⟩
      · rw [heq] at hchanged
        exact mem_members_of_enter_eq hknown heq hchanged a
          ((Table.mem_members_iff hcandidates).mp ha)
      · cases hempty.symm.trans hvanishes
    | true =>
      -- the symbol vanishes, so what is behind it counts as well
      rw [if_pos rfl] at h
      have hfront : g.Derives (x ++ [symbol]) [] := hx.append (hnullable symbol hempty)
      obtain ⟨hadvances, hrests⟩ := ih (by rw [hsplit, List.append_assoc]; rfl) hfront
        (henter.sound (fun _ hfact ↦ hfact.2) hsound) h
      refine ⟨henter.trans hadvances, fun hchanged a ha ↦ ?_⟩
      have hnext := hadvances.rests hchanged
      have heq := henter.rests (hnext ▸ hchanged)
      rcases ha with ha | ⟨-, ha⟩
      · rw [hnext, heq] at hchanged
        exact mem_members_of_enter_eq hknown heq hchanged a
          ((Table.mem_members_iff hcandidates).mp ha)
      · rw [heq] at hrests
        exact hrests hchanged a ha

/-- The table that the analysis of first terminals starts with. -/
def firstStart (g : Grammar) : Table (List String) :=
  g.terminals.map (fun name ↦ (name, [name])) ++ .const g.nonterminals []

@[simp] private theorem mem_members_firstStart_iff {fact : String × String} :
    fact ∈ (firstStart g).members ↔ fact.1 ∈ g.terminals ∧ fact.2 = fact.1 := by
  rw [firstStart]
  induction g.terminals with
  | nil => simp
  | cons head terminals ih =>
    rw [List.map_cons, List.cons_append, Table.mem_members_cons_iff, ih]
    by_cases hname : fact.1 = head
    · simp [hname]
    · simp [hname]

theorem first_eq {nullable : Table Bool} (hnullable : g.nullable = .ok nullable) :
    g.first = untilStable (g.firstPass nullable)
      (g.nonterminals.length * g.terminals.length + 1) (firstStart g) := by
  rw [Grammar.first, hnullable]
  rfl

theorem first_rests {nullable : Table Bool} {first : Table (List String)}
    (hnullable : g.nullable = .ok nullable) (h : g.first = .ok first) :
    first.members ⊆ {fact | g.Begins fact.1 fact.2} ∧
      (∀ a ∈ g.terminals, (a, a) ∈ first.members) ∧
      ∀ production ∈ g.productions,
        addFirst nullable production.name production.symbols ⟨first, false⟩
          = .ok ⟨first, false⟩ := by
  rw [first_eq hnullable] at h
  have hvanishes := (nullable_spec hnullable).1
  have hpart : ∀ production ∈ g.productions, ∀ progress next,
      Table.members progress.found ⊆ {fact | g.Begins fact.1 fact.2} →
      addFirst nullable production.name production.symbols progress = .ok next →
      Advances Table.members {fact | fact.1 ∈ g.nonterminals ∧ g.Begins fact.1 fact.2}
        progress next := fun production hmem progress next hsound hnext ↦
    (addFirst_advances hmem hvanishes (List.nil_append _).symm (.refl []) hsound hnext).1
  have hstart : (firstStart g).members ⊆ {fact | g.Begins fact.1 fact.2} := by
    rintro ⟨name, a⟩ hfact
    obtain ⟨hname, heq⟩ := mem_members_firstStart_iff.mp hfact
    simp only at hname heq
    subst heq
    exact ⟨hname, [], .refl _⟩
  obtain ⟨hsound, hkeeps, hrests⟩ :=
    untilStable_members_spec (fun _ hfact ↦ hfact.1) hpart hstart h
  exact ⟨hsound, fun a ha ↦ hkeeps (mem_members_firstStart_iff.mpr ⟨ha, rfl⟩), hrests⟩

/-- The table of first terminals is right, and closed under the productions. -/
theorem first_spec {nullable : Table Bool} {first : Table (List String)}
    (hnullable : g.nullable = .ok nullable) (h : g.first = .ok first) :
    (∀ fact ∈ first.members, g.Begins fact.1 fact.2) ∧
      (∀ a ∈ g.terminals, (a, a) ∈ first.members) ∧
      ∀ production ∈ g.productions, ∀ a,
        Opens nullable.marked first.members production.symbols a →
          (production.name, a) ∈ first.members := by
  obtain ⟨hsound, hself, hrests⟩ := first_rests hnullable h
  refine ⟨hsound, hself, fun production hmem ↦ ?_⟩
  exact (addFirst_advances hmem (nullable_spec hnullable).1 (List.nil_append _).symm (.refl [])
    hsound (hrests production hmem)).2 rfl

theorem firstOfSequence_eq_ok {first : Table (List String)} {nullable : Table Bool}
    {symbols here : List String} {empty : Bool}
    (h : firstOfSequence first nullable symbols = .ok (here, empty)) :
    (∀ a, a ∈ here ↔ Opens nullable.marked first.members symbols a) ∧
      (empty = true ↔ ∀ symbol ∈ symbols, symbol ∈ nullable.marked) := by
  induction symbols generalizing here empty with
  | nil =>
    cases h
    simp [Opens]
  | cons symbol rest ih =>
    rw [firstOfSequence, bind_eq_ok_iff] at h
    obtain ⟨candidates, hcandidates, h⟩ := h
    rw [bind_eq_ok_iff] at h
    obtain ⟨vanishes, hvanishes, h⟩ := h
    simp only [Opens, List.forall_mem_cons, Table.mem_members_iff hcandidates, Table.mem_marked,
      hvanishes]
    cases vanishes with
    | false =>
      cases h
      simp
    | true =>
      rw [if_pos rfl, bind_eq_ok_iff] at h
      obtain ⟨⟨later, empty'⟩, hlater, h⟩ := h
      cases h
      obtain ⟨hopens, hempty⟩ := ih hlater
      simp only [mem_join, hopens, hempty, true_and, Table.mem_marked, implies_true]

/-! ## Following terminals -/

theorem followersAfter_eq_ok {first follow : Table (List String)} {nullable : Table Bool}
    {name : String} {rest candidates : List String}
    (h : followersAfter first nullable name rest follow = .ok candidates) (a : String) :
    a ∈ candidates ↔ Opens nullable.marked first.members rest a ∨
      (∀ symbol ∈ rest, symbol ∈ nullable.marked) ∧ (name, a) ∈ follow.members := by
  rw [followersAfter, bind_eq_ok_iff] at h
  obtain ⟨⟨here, empty⟩, hhere, h⟩ := h
  obtain ⟨hopens, hempty⟩ := firstOfSequence_eq_ok hhere
  rw [← hopens, ← hempty]
  cases empty with
  | false =>
    cases h
    simp
  | true =>
    change (follow.find name >>= fun followers ↦ pure (join here followers)) = _ at h
    rw [bind_eq_ok_iff] at h
    obtain ⟨followers, hfollowers, h⟩ := h
    cases h
    simp [Table.mem_members_iff hfollowers]

private theorem addFollow_cons_eq_ok {first : Table (List String)} {nullable : Table Bool}
    {name symbol : String} {rest : List String} {progress next : Progress (Table (List String))}
    (h : addFollow g first nullable name (symbol :: rest) progress = .ok next) :
    (symbol ∉ g.nonterminals ∧ addFollow g first nullable name rest progress = .ok next) ∨
    (symbol ∈ g.nonterminals ∧ ∃ candidates known,
      followersAfter first nullable name rest progress.found = .ok candidates ∧
      progress.found.find symbol = .ok known ∧
      addFollow g first nullable name rest (enter symbol known candidates progress)
        = .ok next) := by
  rw [addFollow] at h
  by_cases hsymbol : symbol ∈ g.nonterminals
  · rw [if_pos (by rwa [isNonterminal, List.contains_iff_mem]), bind_eq_ok_iff] at h
    obtain ⟨candidates, hcandidates, h⟩ := h
    rw [bind_eq_ok_iff] at h
    obtain ⟨known, hknown, h⟩ := h
    exact .inr ⟨hsymbol, candidates, known, hcandidates, hknown, h⟩
  · rw [if_neg (by rwa [isNonterminal, List.contains_iff_mem])] at h
    exact .inl ⟨hsymbol, h⟩

private theorem enter_follow_advances {production : Production} (hmem : production ∈ g.productions)
    {nullable : Table Bool} {first : Table (List String)}
    (hnullable : ∀ symbol ∈ nullable.marked, g.Vanishes symbol)
    (hfirst : ∀ fact ∈ first.members, g.Begins fact.1 fact.2)
    {x rest candidates known : List String} {symbol : String}
    (hsplit : production.symbols = x ++ symbol :: rest) (hsymbol : symbol ∈ g.nonterminals)
    {progress : Progress (Table (List String))}
    (hsound : progress.found.members ⊆ {fact | g.Follows fact.1 fact.2})
    (hcandidates : followersAfter first nullable production.name rest progress.found
      = .ok candidates)
    (hknown : progress.found.find symbol = .ok known) :
    Advances Table.members {fact | fact.1 ∈ g.nonterminals ∧ g.Follows fact.1 fact.2} progress
      (enter symbol known candidates progress) := by
  apply enter_advances hknown
  intro a ha
  refine ⟨hsymbol, ?_⟩
  rcases (followersAfter_eq_ok hcandidates a).mp ha with hopens | ⟨hvanish, hfollows⟩
  · -- what the rest begins with stands behind the symbol in the production itself
    obtain ⟨hterminal, y, hy⟩ := derives_of_opens hnullable hfirst hopens
    refine ⟨hterminal, production.name, name_mem_nonterminals hmem, x, y, ?_⟩
    apply Derives.of_production hmem
    rw [hsplit]
    exact (hy.append_left [symbol]).append_left x
  · -- where the rest vanishes, what follows the name comes to stand behind the symbol
    obtain ⟨hterminal, name, hname, x', y, hderives⟩ := hsound hfollows
    refine ⟨hterminal, name, hname, x' ++ x, y, hderives.trans ?_⟩
    have hrest := derives_nil_of_vanishes fun s hs ↦ hnullable s (hvanish s hs)
    have hproduction := derives_of_mem hmem
    rw [hsplit] at hproduction
    have hstep := (hproduction.trans
      ((hrest.append_left [symbol]).append_left x)).append_right (a :: y)
    simpa using hstep.append_left x'

/-- The symbols of a production, from some place on, are gone through: the table advances, and if
the flag stays down then every nonterminal among them has all that follows it here. `x` stands in
front of them. -/
theorem addFollow_advances {production : Production} (hmem : production ∈ g.productions)
    {nullable : Table Bool} {first : Table (List String)}
    (hnullable : ∀ symbol ∈ nullable.marked, g.Vanishes symbol)
    (hfirst : ∀ fact ∈ first.members, g.Begins fact.1 fact.2)
    {x symbols : List String} (hsplit : production.symbols = x ++ symbols)
    {progress next : Progress (Table (List String))}
    (hsound : progress.found.members ⊆ {fact | g.Follows fact.1 fact.2})
    (h : addFollow g first nullable production.name symbols progress = .ok next) :
    Advances Table.members {fact | fact.1 ∈ g.nonterminals ∧ g.Follows fact.1 fact.2}
        progress next ∧
      (next.changed = false → ∀ u symbol v, symbols = u ++ symbol :: v →
        symbol ∈ g.nonterminals → ∀ a, (Opens nullable.marked first.members v a ∨
          (∀ s ∈ v, s ∈ nullable.marked) ∧ (production.name, a) ∈ progress.found.members) →
        (symbol, a) ∈ progress.found.members) := by
  induction symbols generalizing x progress with
  | nil =>
    cases h
    refine ⟨.refl _, fun _ u symbol v hrow ↦ ?_⟩
    cases u <;> cases hrow
  | cons symbol rest ih =>
    have hrow : production.symbols = (x ++ [symbol]) ++ rest := by
      rw [hsplit, List.append_assoc]
      rfl
    rcases addFollow_cons_eq_ok h with
      ⟨hterminal, h⟩ | ⟨hname, candidates, known, hcandidates, hknown, h⟩
    · obtain ⟨hadvances, hrests⟩ := ih hrow hsound h
      refine ⟨hadvances, fun hchanged u other v hother hnonterminal ↦ ?_⟩
      cases u with
      | nil =>
        cases hother
        exact absurd hnonterminal hterminal
      | cons head u => exact hrests hchanged u other v (List.cons.inj hother).2 hnonterminal
    · have henter := enter_follow_advances hmem hnullable hfirst hsplit hname hsound hcandidates
        hknown
      obtain ⟨hadvances, hrests⟩ := ih hrow (henter.sound (fun _ hfact ↦ hfact.2) hsound) h
      refine ⟨henter.trans hadvances, fun hchanged u other v hother hnonterminal a ha ↦ ?_⟩
      have hnext := hadvances.rests hchanged
      have heq := henter.rests (hnext ▸ hchanged)
      cases u with
      | nil =>
        cases hother
        rw [hnext, heq] at hchanged
        exact mem_members_of_enter_eq hknown heq hchanged a
          ((followersAfter_eq_ok hcandidates a).mpr ha)
      | cons head u =>
        rw [heq] at hrests
        exact hrests hchanged u other v (List.cons.inj hother).2 hnonterminal a ha

theorem follow_eq {nullable : Table Bool} {first : Table (List String)}
    (hnullable : g.nullable = .ok nullable) (hfirst : g.first = .ok first) :
    g.follow = untilStable (g.followPass first nullable)
      (g.nonterminals.length * g.terminals.length + 1) (.const g.nonterminals []) := by
  rw [Grammar.follow, hnullable, hfirst]
  rfl

theorem follow_rests {nullable : Table Bool} {first follow : Table (List String)}
    (hnullable : g.nullable = .ok nullable) (hfirst : g.first = .ok first)
    (h : g.follow = .ok follow) :
    follow.members ⊆ {fact | g.Follows fact.1 fact.2} ∧
      ∀ production ∈ g.productions,
        addFollow g first nullable production.name production.symbols ⟨follow, false⟩
          = .ok ⟨follow, false⟩ := by
  rw [follow_eq hnullable hfirst] at h
  have hvanishes := (nullable_spec hnullable).1
  have hbegins := (first_spec hnullable hfirst).1
  have hpart : ∀ production ∈ g.productions, ∀ progress next,
      Table.members progress.found ⊆ {fact | g.Follows fact.1 fact.2} →
      addFollow g first nullable production.name production.symbols progress = .ok next →
      Advances Table.members {fact | fact.1 ∈ g.nonterminals ∧ g.Follows fact.1 fact.2}
        progress next := fun production hmem progress next hsound hnext ↦
    (addFollow_advances hmem hvanishes hbegins (List.nil_append _).symm hsound hnext).1
  have hstart : (Table.const g.nonterminals []).members ⊆ {fact | g.Follows fact.1 fact.2} := by
    simp
  obtain ⟨hsound, -, hrests⟩ := untilStable_members_spec (fun _ hfact ↦ hfact.1) hpart hstart h
  exact ⟨hsound, hrests⟩

/-- The table of following terminals is right, and closed under the productions. -/
theorem follow_spec {nullable : Table Bool} {first follow : Table (List String)}
    (hnullable : g.nullable = .ok nullable) (hfirst : g.first = .ok first)
    (h : g.follow = .ok follow) :
    (∀ fact ∈ follow.members, g.Follows fact.1 fact.2) ∧
      ∀ production ∈ g.productions, ∀ u symbol v, production.symbols = u ++ symbol :: v →
        symbol ∈ g.nonterminals → ∀ a, (Opens nullable.marked first.members v a ∨
          (∀ s ∈ v, s ∈ nullable.marked) ∧ (production.name, a) ∈ follow.members) →
        (symbol, a) ∈ follow.members := by
  obtain ⟨hsound, hrests⟩ := follow_rests hnullable hfirst h
  refine ⟨hsound, fun production hmem ↦ ?_⟩
  exact (addFollow_advances hmem (nullable_spec hnullable).1 (first_spec hnullable hfirst).1
    (List.nil_append _).symm hsound (hrests production hmem)).2 rfl

/-! ## Closed tables have room for all derivations -/

/-- The tables are closed under the rules by which they are made. -/
structure Saturated (g : Grammar) (nullable : Set String) (first follow : Set (String × String)) :
    Prop where
  /-- A name is nullable if all symbols of one of its productions are. -/
  nullable_of : ∀ production ∈ g.productions, (∀ symbol ∈ production.symbols, symbol ∈ nullable) →
    production.name ∈ nullable
  /-- A terminal begins with itself. -/
  first_self : ∀ a ∈ g.terminals, (a, a) ∈ first
  /-- A name begins with what one of its productions begins with. -/
  first_of : ∀ production ∈ g.productions, ∀ a, Opens nullable first production.symbols a →
    (production.name, a) ∈ first
  /-- In a production, a nonterminal is followed by what the rest begins with, and if the rest is
  nullable, by what follows the name. -/
  follow_of : ∀ production ∈ g.productions, ∀ u symbol v, production.symbols = u ++ symbol :: v →
    symbol ∈ g.nonterminals → ∀ a, (Opens nullable first v a ∨
      (∀ s ∈ v, s ∈ nullable) ∧ (production.name, a) ∈ follow) → (symbol, a) ∈ follow

theorem saturated {nullable : Table Bool} {first follow : Table (List String)}
    (hnullable : g.nullable = .ok nullable) (hfirst : g.first = .ok first)
    (hfollow : g.follow = .ok follow) :
    g.Saturated nullable.marked first.members follow.members where
  nullable_of := (nullable_spec hnullable).2
  first_self := (first_spec hnullable hfirst).2.1
  first_of := (first_spec hnullable hfirst).2.2
  follow_of := (follow_spec hnullable hfirst hfollow).2

namespace Saturated

variable {nullable : Set String} {first follow : Set (String × String)}

theorem forall_mem_nullable (h : g.Saturated nullable first follow) {x : List String}
    (hx : g.Derives x []) : ∀ symbol ∈ x, symbol ∈ nullable := by
  have hyields := derives_iff_yields.mp hx
  clear hx
  generalize hrow : ([] : List String) = row at hyields
  induction hyields with
  | nil => exact fun symbol hsymbol ↦ absurd hsymbol List.not_mem_nil
  | keep symbol _ _ => cases hrow
  | expand hmem _ ih =>
    obtain ⟨hproduction, hrest⟩ := List.forall_mem_append.mp (ih hrow)
    exact List.forall_mem_cons.mpr ⟨h.nullable_of _ hmem hproduction, hrest⟩

theorem opens (h : g.Saturated nullable first follow) {x z : List String} {a : String}
    (ha : a ∈ g.terminals) (hx : g.Derives x (a :: z)) : Opens nullable first x a := by
  have hyields := derives_iff_yields.mp hx
  clear hx
  generalize hrow : a :: z = row at hyields
  induction hyields with
  | nil => cases hrow
  | keep symbol _ _ =>
    obtain ⟨rfl, -⟩ := List.cons.inj hrow
    exact .inl (h.first_self a ha)
  | expand hmem _ ih =>
    rcases opens_append_iff.mp (ih hrow) with hopens | ⟨hvanish, hopens⟩
    · exact .inl (h.first_of _ hmem a hopens)
    · exact .inr ⟨h.nullable_of _ hmem hvanish, hopens⟩

/-- Every nonterminal in a row that a nonterminal derives is listed with what follows it there. -/
theorem mem_follow (h : g.Saturated nullable first follow) {start symbol a : String}
    {x y z : List String} (hderives : g.Derives [start] (x ++ symbol :: y))
    (hsymbol : symbol ∈ g.nonterminals) (ha : a ∈ g.terminals) (hy : g.Derives y (a :: z)) :
    (symbol, a) ∈ follow := by
  generalize hrow : x ++ symbol :: y = row at hderives
  induction hderives generalizing x symbol y z with
  | refl =>
    rcases List.append_eq_singleton_iff.mp hrow with ⟨-, hrow⟩ | ⟨-, hrow⟩
    · obtain ⟨-, rfl⟩ := List.cons.inj hrow
      cases eq_nil_of_derives_nil hy
    · cases hrow
  | tail _ hstep ih =>
    obtain ⟨hmem, front, back⟩ := hstep
    rcases cons_mem_append hrow with ⟨w, rfl, rfl⟩ | ⟨w, rfl, hback⟩
    · -- in front of the symbols of the production: these stand for their name
      refine ih hsymbol (.trans ?_ hy) (List.append_assoc x (symbol :: w) _).symm
      exact (rewrites_cons hmem back).derives.append_left w
    · rcases cons_mem_append hback.symm with ⟨v, hproduction, rfl⟩ | ⟨v, rfl, rfl⟩
      · -- among these symbols
        obtain ⟨later, rest, heq, hlater, hrest⟩ := hy.split
        refine h.follow_of _ hmem w symbol v hproduction hsymbol a ?_
        cases later with
        | nil =>
          rw [List.nil_append] at heq
          subst heq
          exact .inr ⟨h.forall_mem_nullable hlater, ih (name_mem_nonterminals hmem) hrest rfl⟩
        | cons head later =>
          obtain ⟨rfl, -⟩ := List.cons.inj heq
          exact .inl (h.opens ha hlater)
      · -- behind them
        exact ih hsymbol hy (List.append_assoc front (_ :: v) (symbol :: y))

end Saturated

end ArithLang.Grammar
