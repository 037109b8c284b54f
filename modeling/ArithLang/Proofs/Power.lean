import ArithLang.Power
import ArithLang.Text.Integer
import Mathlib.Algebra.Group.Nat.Defs

/-!
# Bounds on powers

A number is rounded within the powers of two between which it lies, as these are in binary64
themselves. So an operand that is out of range stays so, and a number that is too long to be written
is far out of range: it makes every power overflow, whatever the other operand is.
-/

namespace ArithLang.Power

theorem div_le_roundDiv (n unit : ℕ) : n / unit ≤ roundDiv n unit := by
  rw [roundDiv]
  split
  · exact Nat.le_succ _
  · exact Nat.le_refl _

theorem two_pow_le_round {k n : ℕ} (h : 2 ^ k ≤ n) : 2 ^ k ≤ round n := by
  by_cases hsmall : n < Nat.pow 2 precision
  · rwa [round, if_pos hsmall]
  · have hn : n ≠ 0 := by
      rintro rfl
      exact hsmall (Nat.pow_pos Nat.zero_lt_two)
    have hprecision : precision ≤ n.log2 := (Nat.le_log2 hn).mpr (Nat.not_lt.mp hsmall)
    have hk : k ≤ n.log2 := (Nat.le_log2 hn).mpr h
    -- the leading digit is a multiple of the unit, so it is kept
    obtain ⟨d, hd⟩ : ∃ d, n.log2 = d + (n.log2 + 1 - precision) :=
      ⟨precision - 1, by simp only [precision] at hprecision ⊢; omega⟩
    have hunit : 0 < Nat.pow 2 (n.log2 + 1 - precision) := Nat.pow_pos Nat.zero_lt_two
    have hleading : 2 ^ d * Nat.pow 2 (n.log2 + 1 - precision) ≤ n := by
      have hself := Nat.log2_self_le hn
      rwa [hd, Nat.pow_add] at hself
    rw [round, if_neg hsmall]
    calc 2 ^ k ≤ 2 ^ n.log2 := Nat.pow_le_pow_right Nat.zero_lt_two hk
      _ = 2 ^ d * Nat.pow 2 (n.log2 + 1 - precision) := by rw [Nat.pow_eq, ← Nat.pow_add, ← hd]
      _ ≤ n / Nat.pow 2 (n.log2 + 1 - precision) * Nat.pow 2 (n.log2 + 1 - precision) :=
        Nat.mul_le_mul_right _ ((Nat.le_div_iff_mul_le hunit).mpr hleading)
      _ ≤ _ := Nat.mul_le_mul_right _ (div_le_roundDiv _ _)

theorem toBinary64?_eq_none {n : ℕ} (h : 2 ^ range ≤ n) : toBinary64? n = none := by
  have hround := two_pow_le_round h
  rw [← Nat.pow_eq, ← Nat.not_lt] at hround
  rw [toBinary64?, if_neg hround]

private theorem two_pow_range_le_of_not_isWritable {n : ℕ} (h : ¬ Text.isWritable n = true) :
    2 ^ range ≤ n := by
  have hlimit : range ≤ Text.digitLimit := by decide
  rw [Text.isWritable, decide_eq_true_eq, Nat.not_lt, Nat.pow_eq] at h
  generalize Text.digitLimit = limit at h hlimit
  calc 2 ^ range ≤ 10 ^ range := Nat.pow_le_pow_left (by decide) range
    _ ≤ 10 ^ limit := Nat.pow_le_pow_right (by decide) hlimit
    _ ≤ n := h

/-- A power with an operand that is too long to be written is out of range. -/
theorem power?_eq_none {base exponent : ℕ}
    (h : ¬ (Text.isWritable base = true ∧ Text.isWritable exponent = true)) :
    power? base exponent = none := by
  by_cases hbase : Text.isWritable base = true
  · have hexponent : ¬ Text.isWritable exponent = true := fun hexponent ↦ h ⟨hbase, hexponent⟩
    have hnone := toBinary64?_eq_none (two_pow_range_le_of_not_isWritable hexponent)
    cases hrounded : toBinary64? base with
    | none => simp [power?, hrounded]
    | some rounded => simp [power?, hrounded, hnone]
  · have hnone := toBinary64?_eq_none (two_pow_range_le_of_not_isWritable hbase)
    simp [power?, hnone]

end ArithLang.Power
