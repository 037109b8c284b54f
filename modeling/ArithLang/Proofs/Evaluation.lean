import ArithLang.Evaluation
import ArithLang.Proofs.Phrase
import ArithLang.Proofs.Power
import Mathlib.Data.List.Basic

/-!
# When a tree has no value

The trees of phrases are `Meaningful`: they are made of literals and operations with an operator.
If such a tree has no value, the reason is a literal or a power. Which power it is depends on the
order of evaluation: `Raises` says that everything in front of a power has a value, its operands
included, so that the power is tried.

A power that is tried fails if it is out of range, and the report names its operands. An operand of
more digits than can be written makes the power fail and the report as well; the last theorem says
that nothing else does.
-/

namespace ArithLang

/-! ## Trees with a meaning -/

/-- The tree consists of roots, literals and operations with an operator. -/
def Node.Meaningful : Node → Prop
  | .int _ => True
  | .prog _ body => body.Meaningful
  | .binary operator _ left right => operator.isSome = true ∧ left.Meaningful ∧ right.Meaningful
  | .plain _ _ => False

theorem Phrase.meaningful {level : Level} {w : List Token} {tree : Node}
    (h : Phrase level w tree) : tree.Meaningful := by
  induction h with
  | literal => trivial
  | parenthesised _ _ _ ih => exact ih
  | factor _ ih => exact ih
  | power _ _ _ ihbase ihexponent => exact ⟨rfl, ihbase, ihexponent⟩
  | single _ ih => exact ih
  | product _ _ _ ihleft ihright => exact ⟨rfl, ihleft, ihright⟩
  | summand _ ih => exact ih
  | sum _ _ _ ihleft ihright => exact ⟨rfl, ihleft, ihright⟩

theorem Sentence.meaningful {tokens : List Token} {tree : Node} (h : Sentence tokens tree) :
    tree.Meaningful := by
  obtain ⟨_, _, _, -, -, hphrase⟩ := h
  exact hphrase.meaningful

/-! ## One operation -/

private theorem bind_eq_error_iff {ε α β : Type} {step : Except ε α} {continue_ : α → Except ε β}
    {failure : ε} : (step >>= continue_) = .error failure ↔
      step = .error failure ∨ ∃ a, step = .ok a ∧ continue_ a = .error failure := by
  cases step with
  | error other =>
    constructor
    · intro h
      cases h
      exact .inl rfl
    · rintro (h | ⟨a, h, -⟩)
      · cases h
        rfl
      · cases h
  | ok a =>
    constructor
    · intro h
      exact .inr ⟨a, rfl, h⟩
    · rintro (h | ⟨a', h, h'⟩)
      · cases h
      · cases h
        exact h'

namespace Evaluation

variable {operator : Operator} {base exponent left right : ℕ} {failure : Failure}

theorem power_of_some {value : ℕ} (h : Power.power? base exponent = some value) :
    power base exponent = .ok value := by
  -- opened by `delta`, since every other way tries to compute the power
  delta power
  rw [h]

theorem power_of_none (h : Power.power? base exponent = none) :
    power base exponent
      = if Text.isWritable base && Text.isWritable exponent then .error (.outOfRange base exponent)
        else .error (.unwritable base exponent) := by
  delta power
  rw [h]

private theorem power_eq_error (h : power base exponent = .error failure) :
    failure = .outOfRange base exponent ∨ failure = .unwritable base exponent := by
  cases hpower : Power.power? base exponent with
  | some value =>
    rw [power_of_some hpower] at h
    cases h
  | none =>
    rw [power_of_none hpower] at h
    split at h
    · exact .inl (Except.error.inj h).symm
    · exact .inr (Except.error.inj h).symm

theorem power_eq_unwritable_iff :
    power base exponent = .error (.unwritable left right) ↔
      (base = left ∧ exponent = right) ∧
        ¬ (Text.isWritable left = true ∧ Text.isWritable right = true) := by
  constructor
  · intro h
    rcases power_eq_error h with hfailure | hfailure
    · cases hfailure
    · obtain ⟨rfl, rfl⟩ := Failure.unwritable.inj hfailure
      refine ⟨⟨rfl, rfl⟩, fun hwritable ↦ ?_⟩
      cases hpower : Power.power? left right with
      | some value =>
        rw [power_of_some hpower] at h
        cases h
      | none =>
        rw [power_of_none hpower, hwritable.1, hwritable.2] at h
        cases h
  · rintro ⟨⟨rfl, rfl⟩, hwritable⟩
    -- an operand that is too long is out of range itself
    rw [← Bool.and_eq_true] at hwritable
    rw [power_of_none (Power.power?_eq_none (by rwa [Bool.and_eq_true] at hwritable)),
      if_neg hwritable]

theorem apply_eq_error (h : apply operator left right = .error failure) :
    operator = .pow ∧ power left right = .error failure := by
  cases operator with
  | plus => cases h
  | times => cases h
  | pow => exact ⟨rfl, h⟩

private theorem literal_eq_error {literal : Literal}
    (h : Evaluation.literal literal = .error failure) :
    failure = .literalTooLong literal.length := by
  rw [Evaluation.literal] at h
  split at h
  · cases h
  · cases h
    rfl

end Evaluation

/-! ## Whole trees -/

namespace Node

open Evaluation

/-- In the evaluation of the tree a power of `b` and `e` is tried. -/
inductive Raises (b e : ℕ) : Node → Prop where
  /-- It is tried below the root. -/
  | prog {anchor : Option Token} {body : Node} (h : Raises b e body) :
      Raises b e (.prog anchor body)
  /-- It is tried in the left operand of an operation. -/
  | left {operator : Operator} {anchor : Option Token} {left right : Node} (h : Raises b e left) :
      Raises b e (.binary (some operator) anchor left right)
  /-- It is tried in the right operand, when the left one has a value. -/
  | right {operator : Operator} {anchor : Option Token} {left right : Node} {value : ℕ}
      (hleft : left.evaluate = .ok value) (h : Raises b e right) :
      Raises b e (.binary (some operator) anchor left right)
  /-- It is what is tried when both operands of a power have values. -/
  | power {anchor : Option Token} {base exponent : Node} (hbase : base.evaluate = .ok b)
      (hexponent : exponent.evaluate = .ok e) :
      Raises b e (.binary (some .pow) anchor base exponent)

theorem evaluate_binary_eq_error_iff {operator : Operator} {anchor : Option Token}
    {left right : Node} {failure : Evaluation.Failure} :
    (binary (some operator) anchor left right).evaluate = .error failure ↔
      left.evaluate = .error failure ∨ ∃ x, left.evaluate = .ok x ∧
        (right.evaluate = .error failure ∨ ∃ y, right.evaluate = .ok y ∧
          apply operator x y = .error failure) := by
  rw [evaluate, bind_eq_error_iff]
  simp only [bind_eq_error_iff]

/-- No node of a meaningful tree lacks a meaning, so nothing but literals and powers can fail. -/
theorem evaluate_ne_meaningless : ∀ {tree : Node}, tree.Meaningful →
    tree.evaluate ≠ .error .meaningless
  | .int literal, _, h => by cases literal_eq_error h
  | .prog _ body, hmeaningful, h =>
    evaluate_ne_meaningless (show body.Meaningful from hmeaningful) h
  | .binary (some operator) _ left right, hmeaningful, h => by
    rcases evaluate_binary_eq_error_iff.mp h with hleft | ⟨x, -, hright | ⟨y, -, happly⟩⟩
    · exact evaluate_ne_meaningless hmeaningful.2.1 hleft
    · exact evaluate_ne_meaningless hmeaningful.2.2 hright
    · rcases power_eq_error (apply_eq_error happly).2 with hfailure | hfailure
      · cases hfailure
      · cases hfailure
  | .binary none _ _ _, hmeaningful, _ => absurd hmeaningful.1 Bool.false_ne_true
  | .plain _ _, hmeaningful, _ => hmeaningful.elim

/-- The power that cannot be reported on is one that is tried, with an operand that is too long. -/
theorem raises_of_evaluate {b e : ℕ} : ∀ {tree : Node},
    tree.evaluate = .error (.unwritable b e) →
      tree.Raises b e ∧ ¬ (Text.isWritable b = true ∧ Text.isWritable e = true)
  | .int literal, h => by cases literal_eq_error h
  | .prog _ body, h => by
    have hbody : body.evaluate = .error (.unwritable b e) := h
    obtain ⟨hraises, hwritable⟩ := raises_of_evaluate hbody
    exact ⟨.prog hraises, hwritable⟩
  | .binary (some operator) _ left right, h => by
    rcases evaluate_binary_eq_error_iff.mp h with hleft | ⟨x, hx, hright | ⟨y, hy, happly⟩⟩
    · obtain ⟨hraises, hwritable⟩ := raises_of_evaluate hleft
      exact ⟨.left hraises, hwritable⟩
    · obtain ⟨hraises, hwritable⟩ := raises_of_evaluate hright
      exact ⟨.right hx hraises, hwritable⟩
    · obtain ⟨rfl, hpower⟩ := apply_eq_error happly
      obtain ⟨⟨rfl, rfl⟩, hwritable⟩ := power_eq_unwritable_iff.mp hpower
      exact ⟨.power hx hy, hwritable⟩
  | .binary none _ _ _, h => by cases h
  | .plain _ _, h => by cases h

private theorem evaluate_of_raises {b e : ℕ} {tree : Node} (h : tree.Raises b e)
    (hwritable : ¬ (Text.isWritable b = true ∧ Text.isWritable e = true)) :
    tree.evaluate = .error (.unwritable b e) := by
  induction h with
  | prog _ ih => exact ih
  | left _ ih => exact evaluate_binary_eq_error_iff.mpr (.inl ih)
  | right hleft _ ih => exact evaluate_binary_eq_error_iff.mpr (.inr ⟨_, hleft, .inl ih⟩)
  | power hbase hexponent =>
    have hpower := power_eq_unwritable_iff.mpr ⟨⟨rfl, rfl⟩, hwritable⟩
    exact evaluate_binary_eq_error_iff.mpr (.inr ⟨b, hbase, .inr ⟨e, hexponent, hpower⟩⟩)

/-- **Where the report on a power fails.** It is where a power is tried with an operand that is too
long to be written. -/
theorem evaluate_eq_unwritable_iff {b e : ℕ} {tree : Node} :
    tree.evaluate = .error (.unwritable b e) ↔
      tree.Raises b e ∧ ¬ (Text.isWritable b = true ∧ Text.isWritable e = true) :=
  ⟨raises_of_evaluate, fun h ↦ evaluate_of_raises h.1 h.2⟩

end Node

end ArithLang
