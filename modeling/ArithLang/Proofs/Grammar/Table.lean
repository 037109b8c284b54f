import ArithLang.Grammar.Table
import Mathlib.Data.Finset.Card
import Mathlib.Data.Set.Basic

/-!
# Passes over a table

An analysis adds to its table until a pass adds nothing, and the number of passes it may make is
limited. Two things have to be known of the table that it ends with: that all it says is true, and
that no pass would add to it. The second is not a matter of course, as an analysis that reached its
limit would end with a table that is still growing.

## Facts

A table is seen as the set of facts that it knows. A part of a pass *advances* from one state to
another if it forgets no fact, learns none but those that are fit to be learnt, raises its flag only
if it has learnt one, and changes nothing at all if the flag stays down. Advancing composes, so it
is enough to look at the smallest parts of a pass.

Each pass that raises its flag learns a fact, so a limit above the number of facts that can be
learnt at all is never reached.
-/

namespace ArithLang

theorem bind_eq_ok_iff {ε α β : Type} {step : Except ε α} {continue_ : α → Except ε β} {b : β} :
    (step >>= continue_) = .ok b ↔ ∃ a, step = .ok a ∧ continue_ a = .ok b := by
  cases step with
  | error failure =>
    constructor
    · intro h
      cases h
    · rintro ⟨a, h, -⟩
      cases h
  | ok a =>
    constructor
    · intro h
      exact ⟨a, rfl, h⟩
    · rintro ⟨a', h, h'⟩
      cases h
      exact h'

/-! ## Tables -/

namespace Table

variable {α : Type} {table : Table α} {name other : String} {entry old : α}

@[simp] theorem find_cons (row : String × α) :
    Table.find (row :: table) name = if name = row.1 then .ok row.2 else table.find name := by
  rw [find, find, List.lookup_cons]
  by_cases h : name = row.1
  · rw [beq_iff_eq.mpr h, if_pos h]
  · rw [beq_eq_false_iff_ne.mpr h, if_neg h]

@[simp] theorem find_set_of_ne (h : other ≠ name) :
    (table.set name entry).find other = table.find other := by
  induction table with
  | nil => rfl
  | cons row table ih =>
    rw [set] at ih ⊢
    rw [List.map_cons, find_cons, find_cons]
    by_cases hrow : row.1 = name
    · rw [if_pos hrow, if_neg h, if_neg (hrow ▸ h), ih]
    · rw [if_neg hrow, ih]

theorem find_set_self (h : table.find name = .ok old) :
    (table.set name entry).find name = .ok entry := by
  induction table with
  | nil => cases h
  | cons row table ih =>
    rw [find_cons] at h
    rw [set, List.map_cons, find_cons]
    rw [set] at ih
    by_cases hrow : row.1 = name
    · rw [if_pos hrow, if_pos rfl]
    · rw [if_neg (Ne.symm hrow)] at h
      rw [if_neg hrow, if_neg (Ne.symm hrow), ih h]

@[simp] theorem find_const_iff {names : List String} :
    (const names old).find name = .ok entry ↔ name ∈ names ∧ old = entry := by
  induction names with
  | nil =>
    constructor
    · intro h
      cases h
    · rintro ⟨h, -⟩
      cases h
  | cons head names ih =>
    rw [const, List.map_cons, find_cons]
    rw [const] at ih
    by_cases h : name = head
    · simp [h]
    · simp [h, ih]

/-- The names that are listed as true. -/
def marked (table : Table Bool) : Set String := {name | table.find name = .ok true}

@[simp] theorem mem_marked {table : Table Bool} :
    name ∈ table.marked ↔ table.find name = .ok true :=
  Iff.rfl

theorem marked_set {table : Table Bool} {old : Bool} (h : table.find name = .ok old) :
    (table.set name true).marked = insert name table.marked := by
  ext other
  by_cases hother : other = name
  · subst hother
    simp [find_set_self h]
  · simp [hother]

/-- The pairs of a name and a member of its entry. -/
def members (table : Table (List String)) : Set (String × String) :=
  {fact | ∃ entry, table.find fact.1 = .ok entry ∧ fact.2 ∈ entry}

@[simp] theorem mem_members_cons_iff {table : Table (List String)} {row : String × List String}
    {fact : String × String} :
    fact ∈ members (row :: table) ↔
      if fact.1 = row.1 then fact.2 ∈ row.2 else fact ∈ table.members := by
  rw [members, Set.mem_ofPred_eq, find_cons]
  by_cases h : fact.1 = row.1
  · simp [h]
  · simp [h, members]

@[simp] theorem members_const_nil (names : List String) : (const names []).members = ∅ := by
  refine Set.eq_empty_of_forall_notMem ?_
  rintro fact ⟨entry, hentry, ha⟩
  obtain ⟨-, rfl⟩ := find_const_iff.mp hentry
  exact List.not_mem_nil ha

theorem mem_members_iff {table : Table (List String)} {known : List String} {a : String}
    (h : table.find name = .ok known) : (name, a) ∈ table.members ↔ a ∈ known := by
  constructor
  · rintro ⟨entry, hentry, ha⟩
    cases h.symm.trans hentry
    exact ha
  · intro ha
    exact ⟨known, h, ha⟩

theorem mem_members_set_iff {table : Table (List String)} {known new : List String} {a : String}
    (h : table.find name = .ok known) :
    (other, a) ∈ (table.set name (known ++ new)).members ↔
      (other, a) ∈ table.members ∨ other = name ∧ a ∈ new := by
  by_cases hother : other = name
  · subst hother
    rw [mem_members_iff (find_set_self h), mem_members_iff h, List.mem_append]
    simp
  · constructor
    · rintro ⟨entry, hentry, ha⟩
      rw [find_set_of_ne hother] at hentry
      exact .inl ⟨entry, hentry, ha⟩
    · rintro (⟨entry, hentry, ha⟩ | ⟨hname, -⟩)
      · rw [← find_set_of_ne hother] at hentry
        exact ⟨entry, hentry, ha⟩
      · exact absurd hname hother

end Table

@[simp] theorem mem_newMembers {known new : List String} {name : String} :
    name ∈ newMembers known new ↔ name ∈ new ∧ name ∉ known := by
  simp [newMembers]

@[simp] theorem mem_join {first second : List String} {name : String} :
    name ∈ join first second ↔ name ∈ first ∨ name ∈ second := by
  rw [join]
  by_cases h : name ∈ first
  · simp [h]
  · simp [h]

/-! ## Advancing -/

section Passes

variable {ε α β τ : Type} {known : α → Set τ} {fresh : Set τ}

/-- A part of a pass leads from `before` to `after`, and learns facts of `fresh` only. -/
structure Advances (known : α → Set τ) (fresh : Set τ) (before after : Progress α) : Prop where
  /-- No fact is forgotten. -/
  keeps : known before.found ⊆ known after.found
  /-- What is learnt is fit to be learnt. -/
  learns : known after.found ⊆ known before.found ∪ fresh
  /-- If the flag has been raised, something has been learnt. -/
  raises : after.changed = true → before.changed = true ∨
    ∃ fact ∈ known after.found, fact ∉ known before.found
  /-- If the flag is down, nothing has happened. -/
  rests : after.changed = false → after = before

@[simp] theorem Advances.refl (progress : Progress α) : Advances known fresh progress progress where
  keeps := subset_rfl
  learns := Set.subset_union_left
  raises := .inl
  rests _ := rfl

theorem Advances.trans {before middle after : Progress α} (h : Advances known fresh before middle)
    (h' : Advances known fresh middle after) : Advances known fresh before after where
  keeps := h.keeps.trans h'.keeps
  learns := by
    refine h'.learns.trans (Set.union_subset h.learns Set.subset_union_right)
  raises := by
    intro hchanged
    rcases h'.raises hchanged with hmiddle | ⟨fact, hafter, hmiddle⟩
    · rcases h.raises hmiddle with hbefore | ⟨fact, hmiddle, hbefore⟩
      · exact .inl hbefore
      · exact .inr ⟨fact, h'.keeps hmiddle, hbefore⟩
    · exact .inr ⟨fact, hafter, fun hbefore ↦ hmiddle (h.keeps hbefore)⟩
  rests := by
    intro hchanged
    have hafter := h'.rests hchanged
    rw [hafter] at hchanged
    rw [hafter, h.rests hchanged]

theorem Advances.sound {sound : Set τ} {before after : Progress α}
    (h : Advances known fresh before after) (hfresh : fresh ⊆ sound)
    (hsound : known before.found ⊆ sound) : known after.found ⊆ sound :=
  h.learns.trans (Set.union_subset hsound hfresh)

/-- Parts that advance, one after the other, advance. If the flag is down at the end, each of the
parts on its own changes nothing. -/
theorem foldlM_advances {sound : Set τ} (hfresh : fresh ⊆ sound)
    {part : Progress α → β → Except ε (Progress α)} {bs : List β} {before after : Progress α}
    (hpart : ∀ b ∈ bs, ∀ progress next, known progress.found ⊆ sound →
      part progress b = .ok next → Advances known fresh progress next)
    (hsound : known before.found ⊆ sound) (h : bs.foldlM part before = .ok after) :
    Advances known fresh before after ∧
      (after.changed = false → ∀ b ∈ bs, part before b = .ok before) := by
  induction bs generalizing before with
  | nil =>
    cases h
    exact ⟨.refl _, fun _ b hb ↦ absurd hb List.not_mem_nil⟩
  | cons b bs ih =>
    rw [List.foldlM_cons, bind_eq_ok_iff] at h
    obtain ⟨middle, hfirst, hrest⟩ := h
    have hadvance := hpart b List.mem_cons_self before middle hsound hfirst
    obtain ⟨hadvances, hrests⟩ := ih (fun b' hb' ↦ hpart b' (List.mem_cons_of_mem b hb'))
      (hadvance.sound hfresh hsound) hrest
    refine ⟨hadvance.trans hadvances, fun hchanged ↦ ?_⟩
    have hmiddle : middle = before := by
      have hafter := hadvances.rests hchanged
      rw [hafter] at hchanged
      exact hadvance.rests hchanged
    subst hmiddle
    rw [List.forall_mem_cons]
    exact ⟨hfirst, hrests hchanged⟩

/-- What a part of a pass learns is fit to be learnt and was not known, so there is less of that. -/
private theorem Advances.card_lt [DecidableEq τ] {before after : Progress α}
    [DecidablePred (· ∈ known before.found)] [DecidablePred (· ∈ known after.found)]
    (h : Advances known fresh before after) {facts : Finset τ}
    (hfacts : ∀ fact ∈ fresh, fact ∈ facts)
    (hlearnt : ∃ fact ∈ known after.found, fact ∉ known before.found) :
    (facts.filter (· ∉ known after.found)).card < (facts.filter (· ∉ known before.found)).card := by
  obtain ⟨fact, hknown, hunknown⟩ := hlearnt
  have hsubset : facts.filter (· ∉ known after.found) ⊆ facts.filter (· ∉ known before.found) := by
    intro other hother
    obtain ⟨hother, hnot⟩ := Finset.mem_filter.mp hother
    exact Finset.mem_filter.mpr ⟨hother, fun hmem ↦ hnot (h.keeps hmem)⟩
  have hfact : fact ∈ fresh := (h.learns hknown).resolve_left hunknown
  apply Finset.card_lt_card
  rw [Finset.ssubset_iff_of_subset hsubset]
  exact ⟨fact, Finset.mem_filter.mpr ⟨hfacts fact hfact, hunknown⟩,
    fun hmem ↦ (Finset.mem_filter.mp hmem).2 hknown⟩

/-- **The limit is not reached.** If each pass advances, and the facts that can be learnt are fewer
than the limit, then the table at the end holds true facts only, has all that were there at the
start, and is left alone by a further pass. -/
theorem untilStable_spec {sound : Set τ} (hfresh : fresh ⊆ sound)
    {pass : α → Except ε (Progress α)} {facts : List τ} {limit : ℕ} {start result : α}
    (hpass : ∀ found progress, known found ⊆ sound → pass found = .ok progress →
      Advances known fresh ⟨found, false⟩ progress)
    (hfacts : ∀ fact ∈ fresh, fact ∈ facts) (hlimit : facts.length < limit)
    (hsound : known start ⊆ sound) (h : untilStable pass limit start = .ok result) :
    known result ⊆ sound ∧ known start ⊆ known result ∧ pass result = .ok ⟨result, false⟩ := by
  classical
  -- what is left to be learnt is less than the passes that are left
  have hcard : (facts.toFinset.filter (· ∉ known start)).card < limit :=
    ((Finset.card_filter_le _ _).trans facts.toFinset_card_le).trans_lt hlimit
  clear hlimit
  induction limit generalizing start with
  | zero => exact absurd hcard (Nat.not_lt_zero _)
  | succ limit ih =>
    rw [untilStable, bind_eq_ok_iff] at h
    obtain ⟨progress, hprogress, h⟩ := h
    have hadvance := hpass start progress hsound hprogress
    by_cases hchanged : progress.changed = true
    · rw [if_pos hchanged] at h
      have hlearnt := (hadvance.raises hchanged).resolve_left Bool.false_ne_true
      have hlt := hadvance.card_lt (fun fact hfact ↦ List.mem_toFinset.mpr (hfacts fact hfact))
        hlearnt
      obtain ⟨hresult, hkeeps, hstable⟩ := ih (hadvance.sound hfresh hsound) h
        (Nat.lt_of_lt_of_le hlt (Nat.le_of_lt_succ hcard))
      exact ⟨hresult, hadvance.keeps.trans hkeeps, hstable⟩
    · rw [if_neg hchanged] at h
      have hrests := hadvance.rests (Bool.eq_false_iff.mpr hchanged)
      cases h
      subst hrests
      exact ⟨hsound, subset_rfl, hprogress⟩

/-- The same for passes that are made of parts: each of the parts leaves the last table alone. -/
theorem untilStable_foldlM_spec {sound : Set τ} (hfresh : fresh ⊆ sound)
    {part : Progress α → β → Except ε (Progress α)} {bs : List β} {facts : List τ} {limit : ℕ}
    {start result : α}
    (hpart : ∀ b ∈ bs, ∀ progress next, known progress.found ⊆ sound →
      part progress b = .ok next → Advances known fresh progress next)
    (hfacts : ∀ fact ∈ fresh, fact ∈ facts) (hlimit : facts.length < limit)
    (hsound : known start ⊆ sound)
    (h : untilStable (fun found ↦ bs.foldlM part ⟨found, false⟩) limit start = .ok result) :
    known result ⊆ sound ∧ known start ⊆ known result ∧
      ∀ b ∈ bs, part ⟨result, false⟩ b = .ok ⟨result, false⟩ := by
  obtain ⟨hresult, hkeeps, hstable⟩ := untilStable_spec hfresh
    (fun found progress hfound hpass ↦ (foldlM_advances hfresh hpart hfound hpass).1)
    hfacts hlimit hsound h
  exact ⟨hresult, hkeeps, (foldlM_advances hfresh hpart hresult hstable).2 rfl⟩

end Passes

end ArithLang
