import ArithLang.Lexer.Standard
import ArithLang.Proofs.Lexer.Stream
import Mathlib.Data.List.Basic
import Mathlib.Data.List.Forall2
import Mathlib.Data.List.ReduceOption

/-!
# How a lexer cuts a text

A text is cut from its front. At each place the first rule whose pattern applies there takes its
piece, even if a later rule would take more; where no rule applies the cutting stops, and something
may be left. `Lexer.Cutting` says so of a text, its pieces with their rules, and what is left. The
actions have no part in it, so a text is cut to its end even where an action fails.

What a stream hands out follows from the pieces (`Session.drain_start_of_cutting`). The tokens that
the actions make of the pieces come in order, up to the first action that fails. If all succeed, the
marker comes next, or the failure that names the first character left.

## What the rules need

A piece of no characters would be cut off again and again, so no pattern may take one
(`Lexer.Advances`). And there must be a rule. A lexer without rules cuts nothing off, and the
character in front is left, but the failure of its streams does not name that character: it is
another one, which comes also where nothing is left (`Session.drain_start_ruleless`).
-/

namespace ArithLang

variable {ε : Type}

/-- A piece of a text, with the rule that takes it. -/
structure Portion (ε : Type) where
  /-- The rule. -/
  rule : Rule ε
  /-- The characters of the piece. -/
  text : List Char

/-- The rule makes `token` of the piece, or passes the piece over. -/
def Portion.Makes (portion : Portion ε) (token : Option Token) : Prop :=
  portion.rule.apply (String.ofList portion.text) = .ok token

/-- The action of the rule fails on the piece. -/
def Portion.Fails (portion : Portion ε) (error : ε) : Prop :=
  portion.rule.apply (String.ofList portion.text) = .error error

namespace Lexer

variable {lexer : Lexer ε} {text left : List Char} {pieces : List (Portion ε)}

/-- No pattern takes a piece of no characters. -/
def Advances (lexer : Lexer ε) : Prop :=
  ∀ rule ∈ lexer.rules, ∀ text, rule.pattern.matchLength text ≠ some 0

/-- The first rule whose pattern applies to a text, and the number of characters it takes. -/
def Chooses (lexer : Lexer ε) (text : List Char) (rule : Rule ε) (n : ℕ) : Prop :=
  ∃ before behind, lexer.rules = before ++ rule :: behind ∧
    (∀ other ∈ before, other.pattern.matchLength text = none) ∧
    rule.pattern.matchLength text = some n

/-- A text is cut into pieces, and then no rule applies to what is left of it. -/
inductive Cutting (lexer : Lexer ε) : List Char → List (Portion ε) → List Char → Prop where
  /-- The cutting stops. -/
  | stop {left : List Char} (h : ∀ rule ∈ lexer.rules, rule.pattern.matchLength left = none) :
      Cutting lexer left [] left
  /-- A piece is cut off. -/
  | piece {rule : Rule ε} {piece rest left : List Char} {pieces : List (Portion ε)}
      (h : lexer.Chooses (piece ++ rest) rule piece.length)
      (hrest : Cutting lexer rest pieces left) :
      Cutting lexer (piece ++ rest) (⟨rule, piece⟩ :: pieces) left

/-! ## The choice of a rule -/

@[simp] theorem firstMatch?_eq_some_iff {rule : Rule ε} {n : ℕ} :
    lexer.firstMatch? text = some (rule, n) ↔ lexer.Chooses text rule n := by
  simp only [firstMatch?, List.findSome?_eq_some_iff, Option.map_eq_some_iff,
    Option.map_eq_none_iff, Prod.mk.injEq]
  constructor
  · rintro ⟨before, _, behind, hrules, ⟨_, hn, rfl, rfl⟩, hbefore⟩
    exact ⟨before, behind, hrules, hbefore, hn⟩
  · rintro ⟨before, behind, hrules, hbefore, hn⟩
    exact ⟨before, rule, behind, hrules, ⟨n, hn, rfl, rfl⟩, hbefore⟩

@[simp] theorem firstMatch?_eq_none_iff :
    lexer.firstMatch? text = none ↔
      ∀ rule ∈ lexer.rules, rule.pattern.matchLength text = none := by
  simp only [firstMatch?, List.findSome?_eq_none_iff, Option.map_eq_none_iff]

theorem Chooses.unique {rule other : Rule ε} {n m : ℕ} (h : lexer.Chooses text rule n)
    (h' : lexer.Chooses text other m) : rule = other ∧ n = m := by
  rw [← firstMatch?_eq_some_iff] at h h'
  exact Prod.mk.inj (Option.some.inj (h.symm.trans h'))

theorem Chooses.pos (hadvances : lexer.Advances) {rule : Rule ε} {n : ℕ}
    (h : lexer.Chooses text rule n) : 0 < n := by
  obtain ⟨before, behind, hrules, -, hn⟩ := h
  have hmem : rule ∈ lexer.rules := hrules ▸ List.mem_append_right before List.mem_cons_self
  refine Nat.pos_of_ne_zero ?_
  rintro rfl
  exact hadvances rule hmem text hn

private theorem not_chooses {rule : Rule ε} {n : ℕ}
    (hnone : ∀ rule ∈ lexer.rules, rule.pattern.matchLength text = none) :
    ¬ lexer.Chooses text rule n := by
  intro h
  rw [← firstMatch?_eq_some_iff, firstMatch?_eq_none_iff.mpr hnone] at h
  cases h

/-! ## The cutting of a text -/

/-- **Every text is cut** into pieces and something left. -/
theorem exists_cutting (hadvances : lexer.Advances) (text : List Char) :
    ∃ pieces left, lexer.Cutting text pieces left := by
  induction hlength : text.length using Nat.strongRecOn generalizing text with
  | ind length ih =>
    subst hlength
    cases hmatch : lexer.firstMatch? text with
    | none => exact ⟨[], text, .stop (firstMatch?_eq_none_iff.mp hmatch)⟩
    | some choice =>
      obtain ⟨rule, n⟩ := choice
      have hle := length_le_of_firstMatch? hmatch
      rw [firstMatch?_eq_some_iff] at hmatch
      have hpos := hmatch.pos hadvances
      obtain ⟨pieces, left, hrest⟩ := ih (text.drop n).length
        (by rw [List.length_drop]; omega) (text.drop n) rfl
      have hpiece : lexer.Chooses (text.take n ++ text.drop n) rule (text.take n).length := by
        rwa [List.take_append_drop, List.length_take_of_le hle]
      have hcutting := Cutting.piece hpiece hrest
      rw [List.take_append_drop] at hcutting
      exact ⟨_, left, hcutting⟩

/-- **A text is cut in one way.** -/
theorem Cutting.unique {others : List (Portion ε)} {behind : List Char}
    (h : lexer.Cutting text pieces left) (h' : lexer.Cutting text others behind) :
    pieces = others ∧ left = behind := by
  induction h generalizing others behind with
  | stop hnone =>
    cases h' with
    | stop _ => exact ⟨rfl, rfl⟩
    | piece hpiece _ => exact absurd hpiece (not_chooses hnone)
  | @piece rule piece rest left pieces hpiece hrest ih =>
    generalize htext : piece ++ rest = text at hpiece h'
    cases h' with
    | stop hnone => exact absurd hpiece (not_chooses hnone)
    | @piece other piece' rest' _ pieces' hpiece' hrest' =>
      obtain ⟨rfl, hlength⟩ := hpiece.unique hpiece'
      obtain ⟨rfl, rfl⟩ := List.append_inj htext hlength
      obtain ⟨rfl, rfl⟩ := ih hrest'
      exact ⟨rfl, rfl⟩

private theorem Cutting.eq_append (h : lexer.Cutting text pieces left) :
    text = pieces.flatMap Portion.text ++ left := by
  induction h with
  | stop _ => rfl
  | piece _ _ ih => rw [List.flatMap_cons, List.append_assoc, ← ih]

/-! ## The reading of a text that has been cut -/

theorem cut_of_chooses {rule : Rule ε} {piece rest : List Char}
    (h : lexer.Chooses (piece ++ rest) rule piece.length) :
    lexer.cut (piece ++ rest) = match rule.apply (String.ofList piece) with
      | .error error => .failed error
      | .ok none => .skip piece.length
      | .ok (some token) => .token token piece.length := by
  have hmatch := firstMatch?_eq_some_iff.mpr h
  cases houtcome : rule.apply (String.ofList piece) with
  | error error => simp only [cut, hmatch, List.take_left, houtcome]
  | ok token =>
    cases token with
    | none => simp only [cut, hmatch, List.take_left, houtcome]
    | some token => simp only [cut, hmatch, List.take_left, houtcome]

private theorem cut_of_stop (hne : lexer.rules ≠ [])
    (h : ∀ rule ∈ lexer.rules, rule.pattern.matchLength left = none) :
    lexer.cut left = left.head?.elim .finished .unexpected := by
  have hempty : lexer.rules.isEmpty = false := by rwa [List.isEmpty_eq_false_iff]
  simp only [cut, firstMatch?_eq_none_iff.mpr h, hempty, Bool.false_eq_true, if_false]
  cases left with
  | nil => rfl
  | cons c rest => rfl

/-- The reading of a text starts with the tokens of the pieces in front. -/
theorem Cutting.run_append (hadvances : lexer.Advances) (marker : Option TokenType)
    {front behind : List (Portion ε)} {made : List (Option Token)}
    (hmade : List.Forall₂ Portion.Makes front made)
    (h : lexer.Cutting text (front ++ behind) left) :
    ∃ rest, lexer.Cutting rest behind left ∧
      lexer.run marker text = ⟨made.reduceOption ++ (lexer.run marker rest).tokens,
        (lexer.run marker rest).ending⟩ := by
  induction hmade generalizing text with
  | nil => exact ⟨text, h, rfl⟩
  | @cons portion token front made htoken _ ih =>
    rw [List.cons_append] at h
    cases h with
    | @piece rule piece rest _ _ hpiece hrest =>
      obtain ⟨final, hfinal, hrun⟩ := ih hrest
      refine ⟨final, hfinal, ?_⟩
      obtain ⟨n, hn⟩ := Nat.exists_eq_add_one.mpr (hpiece.pos hadvances)
      have hcut := cut_of_chooses hpiece
      have hdrop : (piece ++ rest).drop (n + 1) = rest := by rw [← hn, List.drop_left]
      rw [Portion.Makes] at htoken
      rw [htoken, hn] at hcut
      cases token with
      | none => simp only [run_eq lexer marker (piece ++ rest), hcut, hdrop, hrun,
          List.reduceOption_cons_of_none]
      | some token => simp only [run_eq lexer marker (piece ++ rest), hcut, hdrop, hrun,
          List.reduceOption_cons_of_some, List.cons_append]

private theorem Cutting.run_of_failed (hadvances : lexer.Advances) (marker : Option TokenType)
    {front behind : List (Portion ε)} {portion : Portion ε} {made : List (Option Token)} {error : ε}
    (h : lexer.Cutting text (front ++ portion :: behind) left)
    (hmade : List.Forall₂ Portion.Makes front made) (herror : portion.Fails error) :
    lexer.run marker text = ⟨made.reduceOption, .failed (.action error)⟩ := by
  obtain ⟨rest, hrest, hrun⟩ := h.run_append hadvances marker hmade
  cases hrest with
  | piece hpiece _ =>
    have hcut := cut_of_chooses hpiece
    rw [Portion.Fails] at herror
    rw [herror] at hcut
    rw [run_eq lexer marker (_ ++ _), hcut, List.append_nil] at hrun
    exact hrun

/-- If no action fails, the reading ends with the text or names the first character left. -/
theorem Cutting.run_of_made (hadvances : lexer.Advances) (hne : lexer.rules ≠ [])
    (marker : Option TokenType) {made : List (Option Token)} (h : lexer.Cutting text pieces left)
    (hmade : List.Forall₂ Portion.Makes pieces made) :
    lexer.run marker text = ⟨made.reduceOption, left.head?.elim (.finished (marker.map .marker))
      fun c ↦ .failed (.unexpected c)⟩ := by
  rw [← List.append_nil pieces] at h
  obtain ⟨rest, hrest, hrun⟩ := h.run_append hadvances marker hmade
  cases hrest with
  | stop hnone =>
    rw [hrun, run_eq lexer marker left, cut_of_stop hne hnone]
    cases left with
    | nil => simp only [List.head?_nil, Option.elim_none, List.append_nil]
    | cons c rest => simp only [List.head?_cons, Option.elim_some, List.append_nil]

private theorem run_ruleless (h : lexer.rules = []) (marker : Option TokenType) (text : List Char) :
    lexer.run marker text = ⟨[], .failed .ruleless⟩ := by
  have hcut : lexer.cut text = .ruleless := by
    simp only [cut, firstMatch?, h, List.findSome?_nil, List.isEmpty_nil, if_true]
  rw [run_eq, hcut]

end Lexer

/-! ## Patterns that take something -/

namespace Pattern

private theorem matchLength_literal_ne_zero {expected : List Char} (h : expected ≠ [])
    (text : List Char) : (literal expected).matchLength text ≠ some 0 := by
  intro hzero
  simp only [literal, Option.ite_none_right_eq_some, Option.some.injEq] at hzero
  exact h (List.length_eq_zero_iff.mp hzero.2)

private theorem matchLength_oneOrMore_ne_zero (p : Char → Bool) (text : List Char) :
    (oneOrMore p).matchLength text ≠ some 0 := by
  intro hzero
  obtain ⟨n, hone, hmany⟩ := Option.bind_eq_some_iff.mp hzero
  obtain ⟨m, -, hsum⟩ := Option.map_eq_some_iff.mp hmany
  have hn : n = 0 := by omega
  cases text with
  | nil => cases hone
  | cons c rest => simp [one, hn] at hone

end Pattern

/-! ## What a stream hands out -/

namespace Session

/-- The streams of a lexer without rules fail at once. -/
theorem drain_start_ruleless (session : Session ε) (h : session.lexer.rules = [])
    (id text : String) (marker : Option TokenType) :
    ∃ after, (session.start id text marker).drain id = ([], .failed .ruleless, after) :=
  drain_start_of_failed (Lexer.run_ruleless h marker text.toList)

/-- **What a stream hands out** follows from the pieces into which the rules cut its text. The
tokens that the actions make of them come in order, up to the first action that fails. If none
fails, the stream ends with the marker, or with a complaint that names the first character left.
The streams of a lexer without rules fail at once, and with another failure. -/
theorem drain_start_of_cutting (session : Session ε) (id text : String)
    (marker : Option TokenType) (hadvances : session.lexer.Advances) :
    (∃ pieces left, session.lexer.Cutting text.toList pieces left ∧
      (∀ others behind, session.lexer.Cutting text.toList others behind →
        pieces = others ∧ left = behind) ∧
      text.toList = pieces.flatMap Portion.text ++ left ∧
      (session.lexer.rules ≠ [] →
        (∀ front portion behind made error, pieces = front ++ portion :: behind →
          List.Forall₂ Portion.Makes front made → portion.Fails error →
          ∃ after, (session.start id text marker).drain id
            = (made.reduceOption, .failed (.action error), after)) ∧
        (∀ made c rest, List.Forall₂ Portion.Makes pieces made → left = c :: rest →
          (∃ after, (session.start id text marker).drain id
            = (made.reduceOption, .failed (.unexpected c), after)) ∧
          ∀ words, (Lexer.Error.unexpected c : Lexer.Error ε).message words
            = "Unexpected char: " ++ String.singleton c ++ " (0x"
              ++ String.ofList ((Nat.toDigits 16 c.toNat).map Char.toUpper) ++ ")") ∧
        ∀ made, List.Forall₂ Portion.Makes pieces made → left = [] →
          ∃ after, (session.start id text marker).drain id
            = (made.reduceOption ++ (marker.map .marker).toList, .stop, after))) ∧
    (session.lexer.rules = [] →
      ∃ after, (session.start id text marker).drain id = ([], .failed .ruleless, after)) := by
  obtain ⟨pieces, left, hcutting⟩ := Lexer.exists_cutting hadvances text.toList
  refine ⟨⟨pieces, left, hcutting, fun _ _ ↦ hcutting.unique, hcutting.eq_append, fun hne ↦
    ⟨?_, ?_, ?_⟩⟩, fun hrules ↦ drain_start_ruleless session hrules id text marker⟩
  · rintro front portion behind made error rfl hmade herror
    exact drain_start_of_failed (hcutting.run_of_failed hadvances marker hmade herror)
  · rintro made c rest hmade rfl
    have hrun := hcutting.run_of_made hadvances hne marker hmade
    exact ⟨drain_start_of_failed hrun, fun _ ↦ rfl⟩
  · rintro made hmade rfl
    exact drain_start_of_finished (hcutting.run_of_made hadvances hne marker hmade)

/-- A lexer whose first rule hides the second one from texts that start with `a`. -/
def shadowing : Lexer Empty where
  rules := [⟨"A", .literal ['a'], some .emit⟩, ⟨"WORD", .lowerCase, some .emit⟩,
    ⟨"SKIP", .literal [' '], none⟩]

theorem advances_shadowing : shadowing.Advances := by
  simp only [Lexer.Advances, shadowing, List.forall_mem_cons, List.not_mem_nil, false_imp_iff,
    implies_true, and_true]
  exact ⟨Pattern.matchLength_literal_ne_zero (by decide), Pattern.matchLength_oneOrMore_ne_zero _,
    Pattern.matchLength_literal_ne_zero (by decide)⟩

theorem cutting_shadowing : shadowing.Cutting "ab ?".toList
    [⟨⟨"A", .literal ['a'], some .emit⟩, ['a']⟩, ⟨⟨"WORD", .lowerCase, some .emit⟩, ['b']⟩,
      ⟨⟨"SKIP", .literal [' '], none⟩, [' ']⟩] ['?'] := by
  have hleft : shadowing.Cutting ['?'] [] ['?'] := .stop (Lexer.firstMatch?_eq_none_iff.mp rfl)
  have hblank : shadowing.Cutting ([' '] ++ ['?']) _ ['?'] :=
    .piece (Lexer.firstMatch?_eq_some_iff.mp rfl) hleft
  have hword : shadowing.Cutting (['b'] ++ ([' '] ++ ['?'])) _ ['?'] :=
    .piece (Lexer.firstMatch?_eq_some_iff.mp rfl) hblank
  have hfirst : shadowing.Chooses (['a'] ++ (['b'] ++ ([' '] ++ ['?']))) _ 1 :=
    Lexer.firstMatch?_eq_some_iff.mp rfl
  exact .piece hfirst hword

theorem drain_shadowing :
    shadowing.Advances ∧ ∃ after,
      (({ lexer := shadowing } : Session Empty).start "a" "ab ?" (some (.named "END"))).drain "a"
        = ([⟨.named "A", .text "a"⟩, ⟨.named "WORD", .text "b"⟩], .failed (.unexpected '?'),
          after) := by
  obtain ⟨⟨pieces, left, -, hunique, -, hdrain⟩, -⟩ :=
    drain_start_of_cutting { lexer := shadowing } "a" "ab ?" (some (.named "END"))
      advances_shadowing
  obtain ⟨rfl, rfl⟩ := hunique _ _ cutting_shadowing
  obtain ⟨-, hunexpected, -⟩ := hdrain (List.cons_ne_nil _ _)
  obtain ⟨hfailed, -⟩ := hunexpected
    [some ⟨.named "A", .text "a"⟩, some ⟨.named "WORD", .text "b"⟩, none] '?' []
    (.cons rfl (.cons rfl (.cons rfl .nil))) rfl
  exact ⟨advances_shadowing, hfailed⟩

/-- A lexer without rules cuts nothing off `a`, and its stream does not name the character left. -/
theorem drain_ruleless :
    (⟨[]⟩ : Lexer Empty).Advances ∧ (⟨[]⟩ : Lexer Empty).Cutting "a".toList [] ['a'] ∧
      (∃ after, (({ lexer := ⟨[]⟩ } : Session Empty).start "a" "a" none).drain "a"
        = ([], .failed .ruleless, after)) ∧
      ¬ ∃ after, (({ lexer := ⟨[]⟩ } : Session Empty).start "a" "a" none).drain "a"
        = ([], .failed (.unexpected 'a'), after) := by
  obtain ⟨after, hdrain⟩ :=
    drain_start_ruleless ({ lexer := ⟨[]⟩ } : Session Empty) rfl "a" "a" none
  refine ⟨fun rule hrule ↦ absurd hrule List.not_mem_nil,
    .stop fun rule hrule ↦ absurd hrule List.not_mem_nil, ⟨after, hdrain⟩, ?_⟩
  rintro ⟨other, hother⟩
  cases hdrain.symm.trans hother

end Session

end ArithLang
