import ArithLang.Proofs.Evaluation
import ArithLang.Proofs.Power
import Mathlib.Algebra.Order.Ring.Nat
import Mathlib.Tactic.SplitIfs

/-!
# Rounding and the order of powers

`RoundsTo` says what it is to round to binary64, without computing it: a number of at most 53
binary digits stays what it is, and any other becomes the nearest multiple of the unit at its size,
of two nearest ones the even one. A power is rounded three times, its operands before it is taken
and itself after it.

Rounding keeps the order of numbers. Between two powers of two this is so because the unit is the
same there; and from one power of two to the next because rounding passes none of them, neither on
the way up nor on the way down. Powers of positive numbers grow with both operands, so what comes of
the three roundings grows with them too.

Numbers up to `2 ^ 53` are kept, and so a power up to there is exact: if its exponent is positive
its base is up to there as well, and if its base is above 1 its exponent is. What remains is rounded
to something with the same power, since nothing positive is rounded to 0.
-/

namespace ArithLang

namespace Power

variable {a b k m n r unit : ℕ}

/-! ## What rounding is -/

/-- `m` units are nearest to `n`, and `m` is even if `n` is halfway between two multiples. -/
structure NearestEven (n unit m : ℕ) : Prop where
  /-- `n` is at most half a unit above. -/
  above : 2 * n ≤ 2 * (m * unit) + unit
  /-- `n` is at most half a unit below. -/
  below : 2 * (m * unit) ≤ 2 * n + unit
  /-- Halfway, `m` is even. -/
  even : 2 * n = 2 * (m * unit) + unit ∨ 2 * (m * unit) = 2 * n + unit → m % 2 = 0

/-- `n` is rounded to `r` in binary64: to the nearest number of at most 53 binary digits, a tie to
the even one, and that number is in range. -/
def RoundsTo (n r : ℕ) : Prop :=
  r < 2 ^ range ∧
    (n < 2 ^ precision ∧ r = n ∨
      ∃ k m, 2 ^ (precision + k) ≤ n ∧ n < 2 ^ (precision + k + 1) ∧
        NearestEven n (2 ^ (k + 1)) m ∧ r = m * 2 ^ (k + 1))

theorem nearestEven_roundDiv (n : ℕ) (h : 0 < unit) : NearestEven n unit (roundDiv n unit) := by
  have hsplit : n / unit * unit + n % unit = n := Nat.div_add_mod' n unit
  have hremainder : n % unit < unit := Nat.mod_lt n h
  have hnext : (n / unit + 1) * unit = n / unit * unit + unit := Nat.succ_mul _ _
  rw [roundDiv]
  split_ifs with hup
  · constructor
    · omega
    · omega
    · rintro (htie | htie)
      · omega
      · omega
  · constructor
    · omega
    · omega
    · rintro (htie | htie)
      · omega
      · omega

/-- The nearest multiple is determined, as of two neighbours one is odd. -/
theorem NearestEven.unique {m' : ℕ} (hunit : 0 < unit) (h : NearestEven n unit m)
    (h' : NearestEven n unit m') : m = m' := by
  wlog hle : m ≤ m' generalizing m m'
  · exact (this h' h (Nat.le_of_not_le hle)).symm
  obtain ⟨d, rfl⟩ := Nat.exists_eq_add_of_le hle
  have hsum : (m + d) * unit = m * unit + d * unit := Nat.add_mul m d unit
  have hbelow := h'.below
  have habove := h.above
  have hfar : d * unit ≤ 1 * unit := by omega
  have hd : d ≤ 1 := Nat.le_of_mul_le_mul_right hfar hunit
  by_contra hne
  obtain rfl : d = 1 := by omega
  rw [Nat.one_mul] at hsum
  have heven := h.even (.inl (by omega))
  have heven' := h'.even (.inr (by omega))
  omega

/-! ## Rounding and order -/

theorem roundDiv_mono (h : a ≤ b) : roundDiv a unit ≤ roundDiv b unit := by
  rcases Nat.lt_or_eq_of_le (Nat.div_le_div_right h : a / unit ≤ b / unit) with hlt | heq
  · calc roundDiv a unit ≤ a / unit + 1 := by
          rw [roundDiv]
          split_ifs
          · exact Nat.le_refl _
          · exact Nat.le_succ _
      _ ≤ b / unit := hlt
      _ ≤ roundDiv b unit := div_le_roundDiv b unit
  · -- between the same two multiples the remainders decide
    have hremainder : a % unit ≤ b % unit := by
      have ha := Nat.div_add_mod a unit
      have hb := Nat.div_add_mod b unit
      rw [heq] at ha
      omega
    rw [roundDiv, roundDiv, heq]
    split_ifs <;> omega

@[simp] private theorem roundDiv_mul_self (m : ℕ) (h : 0 < unit) :
    roundDiv (m * unit) unit = m := by
  apply (nearestEven_roundDiv (m * unit) h).unique h
  exact ⟨by omega, by omega, fun htie ↦ by omega⟩

@[simp] theorem round_of_lt (h : n < 2 ^ precision) : round n = n := by
  rw [← Nat.pow_eq] at h
  rw [round, if_pos h]

theorem round_of_le (h : 2 ^ precision ≤ n) :
    round n = roundDiv n (2 ^ (n.log2 + 1 - precision)) * 2 ^ (n.log2 + 1 - precision) := by
  rw [← Nat.pow_eq, ← Nat.not_lt] at h
  rw [round, if_neg h]
  rfl

theorem ne_zero_of_two_pow_le (h : 2 ^ k ≤ n) : n ≠ 0 :=
  (Nat.lt_of_lt_of_le (Nat.pow_pos Nat.zero_lt_two) h).ne'

theorem round_le_two_pow (h : n ≤ 2 ^ k) : round n ≤ 2 ^ k := by
  by_cases hsmall : n < 2 ^ precision
  · rwa [round_of_lt hsmall]
  · have hlarge : 2 ^ precision ≤ n := Nat.not_lt.mp hsmall
    have hlog : n.log2 ≤ k := (Nat.pow_le_pow_iff_right (by decide)).mp
      ((Nat.log2_self_le (ne_zero_of_two_pow_le hlarge)).trans h)
    have hprecision : 1 ≤ precision := by decide
    obtain ⟨d, hd⟩ : ∃ d, k = d + (n.log2 + 1 - precision) :=
      ⟨k - (n.log2 + 1 - precision), by omega⟩
    have hpower : 2 ^ k = 2 ^ d * 2 ^ (n.log2 + 1 - precision) := by rw [← Nat.pow_add, ← hd]
    rw [hpower] at h
    rw [round_of_le hlarge, hpower]
    apply Nat.mul_le_mul_right
    calc roundDiv n (2 ^ (n.log2 + 1 - precision))
        ≤ roundDiv (2 ^ d * 2 ^ (n.log2 + 1 - precision)) (2 ^ (n.log2 + 1 - precision)) :=
          roundDiv_mono h
      _ = 2 ^ d := roundDiv_mul_self _ (Nat.pow_pos Nat.zero_lt_two)

/-- **Rounding keeps the order.** -/
theorem round_mono (h : a ≤ b) : round a ≤ round b := by
  by_cases hb : b < 2 ^ precision
  · rwa [round_of_lt (Nat.lt_of_le_of_lt h hb), round_of_lt hb]
  have hb : 2 ^ precision ≤ b := Nat.not_lt.mp hb
  by_cases ha : a < 2 ^ precision
  · rw [round_of_lt ha]
    exact ha.le.trans (two_pow_le_round hb)
  have ha : 2 ^ precision ≤ a := Nat.not_lt.mp ha
  have hself := Nat.log2_self_le (ne_zero_of_two_pow_le hb)
  have hlog : a.log2 ≤ b.log2 := (Nat.le_log2 (ne_zero_of_two_pow_le hb)).mpr
    ((Nat.log2_self_le (ne_zero_of_two_pow_le ha)).trans h)
  rcases Nat.lt_or_eq_of_le hlog with hlt | heq
  · calc round a ≤ 2 ^ (a.log2 + 1) := round_le_two_pow Nat.lt_log2_self.le
      _ ≤ 2 ^ b.log2 := Nat.pow_le_pow_right Nat.zero_lt_two hlt
      _ ≤ round b := two_pow_le_round hself
  · rw [round_of_le ha, round_of_le hb, heq]
    exact Nat.mul_le_mul_right _ (roundDiv_mono h)

private theorem round_eq_self (h : n ≤ 2 ^ precision) : round n = n := by
  rcases Nat.lt_or_eq_of_le h with hlt | rfl
  · exact round_of_lt hlt
  · exact Nat.le_antisymm (round_le_two_pow (Nat.le_refl _)) (two_pow_le_round (Nat.le_refl _))

/-! ## Numbers in range -/

theorem toBinary64?_eq_some_iff : toBinary64? n = some r ↔ round n = r ∧ r < 2 ^ range := by
  rw [← Nat.pow_eq, toBinary64?]
  generalize Nat.pow 2 range = bound
  by_cases h : round n < bound
  · rw [if_pos h, Option.some.injEq]
    constructor
    · rintro rfl
      exact ⟨rfl, h⟩
    · exact And.left
  · rw [if_neg h]
    constructor
    · intro hnone
      cases hnone
    · rintro ⟨rfl, hlt⟩
      exact absurd hlt h

/-- **The number computed is the nearest one.** -/
theorem toBinary64?_eq_some_iff_roundsTo : toBinary64? n = some r ↔ RoundsTo n r := by
  rw [toBinary64?_eq_some_iff, RoundsTo, and_comm]
  refine and_congr_right fun _ ↦ ?_
  by_cases h : n < 2 ^ precision
  · rw [round_of_lt h]
    constructor
    · rintro rfl
      exact .inl ⟨h, rfl⟩
    · rintro (⟨-, rfl⟩ | ⟨k, m, hle, -, -⟩)
      · rfl
      · have hpower : 2 ^ precision ≤ 2 ^ (precision + k) :=
          Nat.pow_le_pow_right Nat.zero_lt_two (Nat.le_add_right _ _)
        exact absurd (hpower.trans hle) (Nat.not_le.mpr h)
  · have hlarge : 2 ^ precision ≤ n := Nat.not_lt.mp h
    have hn := ne_zero_of_two_pow_le hlarge
    obtain ⟨k, hk⟩ := Nat.exists_eq_add_of_le ((Nat.le_log2 hn).mpr hlarge)
    have hexponent : n.log2 + 1 - precision = k + 1 := by omega
    have hunit : 0 < 2 ^ (k + 1) := Nat.pow_pos Nat.zero_lt_two
    rw [round_of_le hlarge, hexponent]
    constructor
    · rintro rfl
      obtain ⟨hle, hlt⟩ := (Nat.log2_eq_iff hn).mp hk
      exact .inr ⟨k, _, hle, hlt, nearestEven_roundDiv n hunit, rfl⟩
    · rintro (⟨hlt, -⟩ | ⟨k', m, hle, hlt, hnearest, rfl⟩)
      · exact absurd hlt h
      · obtain rfl : k = k' := by
          have hlog := (Nat.log2_eq_iff hn).mpr ⟨hle, hlt⟩
          omega
        rw [(nearestEven_roundDiv n hunit).unique hunit hnearest]

private theorem toBinary64?_eq_self (h : n ≤ 2 ^ precision) : toBinary64? n = some n := by
  refine toBinary64?_eq_some_iff.mpr ⟨round_eq_self h, Nat.lt_of_le_of_lt h ?_⟩
  exact Nat.pow_lt_pow_right (by decide) (by decide)

/-- Being in range goes down to smaller numbers, and so do the numbers rounded to. -/
theorem exists_toBinary64?_le (h : a ≤ b) (hb : toBinary64? b = some r) :
    ∃ r' ≤ r, toBinary64? a = some r' := by
  obtain ⟨rfl, hrange⟩ := toBinary64?_eq_some_iff.mp hb
  have hle := round_mono h
  exact ⟨round a, hle, toBinary64?_eq_some_iff.mpr ⟨rfl, Nat.lt_of_le_of_lt hle hrange⟩⟩

private theorem pos_of_toBinary64? (h : toBinary64? n = some r) (hn : 1 ≤ n) : 1 ≤ r := by
  obtain ⟨rfl, -⟩ := toBinary64?_eq_some_iff.mp h
  exact two_pow_le_round (k := 0) hn

/-! ## Powers -/

/-- To cut an exponent to `range` makes no difference. -/
@[simp] private theorem toBinary64?_pow_min (base exponent : ℕ) :
    toBinary64? (base ^ min exponent range) = toBinary64? (base ^ exponent) := by
  by_cases h : exponent ≤ range
  · rw [Nat.min_eq_left h]
  · have hrange : range < exponent := Nat.not_le.mp h
    have hne : range ≠ 0 := by decide
    rw [Nat.min_eq_right hrange.le]
    match base with
    | 0 => rw [Nat.zero_pow (Nat.pos_of_ne_zero hne), Nat.zero_pow (Nat.zero_lt_of_lt hrange)]
    | 1 => rw [Nat.one_pow, Nat.one_pow]
    | base + 2 =>
      have hlarge : 2 ^ range ≤ (base + 2) ^ range :=
        Nat.pow_le_pow_left (Nat.le_add_left 2 base) range
      have hlarger : (base + 2) ^ range ≤ (base + 2) ^ exponent :=
        Nat.pow_le_pow_right (Nat.succ_pos _) hrange.le
      rw [toBinary64?_eq_none hlarge, toBinary64?_eq_none (hlarge.trans hlarger)]

/-- **A power is rounded three times**: both operands, and the power of the rounded ones. -/
theorem power?_eq_some_iff {base exponent value : ℕ} :
    power? base exponent = some value ↔ ∃ x y, toBinary64? base = some x ∧
      toBinary64? exponent = some y ∧ toBinary64? (x ^ y) = some value := by
  simp only [power?, Option.bind_eq_bind, Option.bind_eq_some_iff, Nat.pow_eq,
    toBinary64?_pow_min]
  constructor
  · rintro ⟨x, hx, y, hy, hvalue⟩
    exact ⟨x, y, hx, hy, hvalue⟩
  · rintro ⟨x, y, hx, hy, hvalue⟩
    exact ⟨x, hx, y, hy, hvalue⟩

private theorem pow_eq_pow_of_le {x y : ℕ} (hx : toBinary64? a = some x)
    (hy : toBinary64? b = some y)
    (h : a ^ b ≤ 2 ^ precision) : x ^ y = a ^ b := by
  have hkept : ∀ {n r : ℕ}, n ≤ 2 ^ precision → toBinary64? n = some r → r = n := fun hle hr ↦
    Option.some.inj (hr.symm.trans (toBinary64?_eq_self hle))
  by_cases hb : b = 0
  · obtain rfl := hkept (hb ▸ Nat.zero_le _) hy
    rw [hb, Nat.pow_zero, Nat.pow_zero]
  have hypos : 1 ≤ y := pos_of_toBinary64? hy (Nat.pos_of_ne_zero hb)
  -- the exponent is positive, so the base is up to `2 ^ 53`
  obtain rfl := hkept ((Nat.le_self_pow hb a).trans h) hx
  rcases Nat.lt_or_ge x 2 with hx2 | hx2
  · rcases Nat.le_one_iff_eq_zero_or_eq_one.mp (Nat.le_of_lt_succ hx2) with rfl | rfl
    · rw [Nat.zero_pow hypos, Nat.zero_pow (Nat.pos_of_ne_zero hb)]
    · rw [Nat.one_pow, Nat.one_pow]
  · have hexponent : b ≤ 2 ^ precision := by
      calc b ≤ 2 ^ b := Nat.lt_two_pow_self.le
        _ ≤ x ^ b := Nat.pow_le_pow_left hx2 b
        _ ≤ 2 ^ precision := h
    rw [hkept hexponent hy]

/-- A power up to `2 ^ 53` of operands in range is exact. -/
private theorem power?_eq_pow {x y : ℕ} (hx : toBinary64? a = some x) (hy : toBinary64? b = some y)
    (h : a ^ b ≤ 2 ^ precision) : power? a b = some (a ^ b) := by
  refine power?_eq_some_iff.mpr ⟨x, y, hx, hy, ?_⟩
  rw [pow_eq_pow_of_le hx hy h]
  exact toBinary64?_eq_self h

/-- **Powers of positive numbers grow with both operands.** -/
theorem exists_power?_le {a' b' value : ℕ} (ha : 1 ≤ a) (haa : a ≤ a') (hbb : b ≤ b')
    (h : power? a' b' = some value) : ∃ value' ≤ value, power? a b = some value' := by
  obtain ⟨x', y', hx', hy', hvalue⟩ := power?_eq_some_iff.mp h
  obtain ⟨x, hxx, hx⟩ := exists_toBinary64?_le haa hx'
  obtain ⟨y, hyy, hy⟩ := exists_toBinary64?_le hbb hy'
  have hpositive : 1 ≤ x := pos_of_toBinary64? hx ha
  have hpower : x ^ y ≤ x' ^ y' := by
    calc x ^ y ≤ x ^ y' := Nat.pow_le_pow_right hpositive hyy
      _ ≤ x' ^ y' := Nat.pow_le_pow_left hxx y'
  obtain ⟨value', hle, hvalue'⟩ := exists_toBinary64?_le hpower hvalue
  exact ⟨value', hle, power?_eq_some_iff.mpr ⟨x, y, hx, hy, hvalue'⟩⟩

end Power

namespace Node

open Evaluation Power

variable {anchor anchor' : Option Token} {left right left' right' : Node} {b e b' e' : ℕ}

private theorem ok_bind {ε α β : Type} (a : α) (step : α → Except ε β) :
    (Except.ok a >>= step) = step a :=
  rfl

theorem evaluate_pow_eq_ok_iff {value : ℕ} (hb : left.evaluate = .ok b)
    (he : right.evaluate = .ok e) :
    (binary (some .pow) anchor left right).evaluate = .ok value ↔ power? b e = some value := by
  have hpower : (binary (some .pow) anchor left right).evaluate = power b e := by
    rw [evaluate, hb, he, ok_bind, ok_bind, apply]
  rw [hpower]
  cases hvalue : power? b e with
  | some computed => rw [power_of_some hvalue, Except.ok.injEq, Option.some.injEq]
  | none =>
    rw [power_of_none hvalue]
    split_ifs <;> simp

/-- **Powers are exact where they are small, and grow with their operands.** What comes of a power
is rounded three times. Operands in range whose power is at most `2 ^ 53` give that power. And where
a power has a value, operands that are no larger have a power with a value that is no larger, if
their base is positive. -/
theorem pow_exact_and_monotone (hb : left.evaluate = .ok b) (he : right.evaluate = .ok e)
    (hb' : left'.evaluate = .ok b') (he' : right'.evaluate = .ok e') :
    (∀ value, (binary (some .pow) anchor left right).evaluate = .ok value ↔
      ∃ x y, RoundsTo b x ∧ RoundsTo e y ∧ RoundsTo (x ^ y) value) ∧
    ((∃ x, RoundsTo b x) → (∃ y, RoundsTo e y) → b ^ e ≤ 2 ^ 53 →
      (binary (some .pow) anchor left right).evaluate = .ok (b ^ e)) ∧
    (1 ≤ b → b ≤ b' → e ≤ e' →
      ∀ value', (binary (some .pow) anchor' left' right').evaluate = .ok value' →
        ∃ value ≤ value', (binary (some .pow) anchor left right).evaluate = .ok value) := by
  simp only [evaluate_pow_eq_ok_iff hb he, evaluate_pow_eq_ok_iff hb' he',
    ← toBinary64?_eq_some_iff_roundsTo]
  refine ⟨fun value ↦ power?_eq_some_iff, ?_, fun hpositive hbase hexponent value' hvalue ↦ ?_⟩
  · rintro ⟨x, hx⟩ ⟨y, hy⟩ hsmall
    exact power?_eq_pow hx hy hsmall
  · exact exists_power?_le hpositive hbase hexponent hvalue

/-- The literal `3`. -/
def three : Node := .int ⟨"3", by decide, by decide⟩

/-- The literal `5`. -/
def five : Node := .int ⟨"5", by decide, by decide⟩

/-- The literal `33`. -/
def thirtyThree : Node := .int ⟨"33", by decide, by decide⟩

/-- `3 ** 33` is exact, and no larger than `5 ** 33`, which is not. -/
theorem pow_exact_and_monotone_three :
    three.evaluate = .ok 3 ∧ five.evaluate = .ok 5 ∧ thirtyThree.evaluate = .ok 33 ∧
    RoundsTo 3 3 ∧ RoundsTo 33 33 ∧ 3 ^ 33 ≤ 2 ^ 53 ∧
    (binary (some .pow) none three thirtyThree).evaluate = .ok (3 ^ 33) ∧
    (binary (some .pow) none five thirtyThree).evaluate = .ok 116415321826934808117248 ∧
    ∃ value ≤ 116415321826934808117248,
      (binary (some .pow) none three thirtyThree).evaluate = .ok value := by
  have hthree : three.evaluate = .ok 3 := by decide +kernel
  have hfive : five.evaluate = .ok 5 := by decide +kernel
  have hexponent : thirtyThree.evaluate = .ok 33 := by decide +kernel
  have hbaseRounds : RoundsTo 3 3 := toBinary64?_eq_some_iff_roundsTo.mp (by decide +kernel)
  have hexponentRounds : RoundsTo 33 33 :=
    toBinary64?_eq_some_iff_roundsTo.mp (by decide +kernel)
  have hsmall : 3 ^ 33 ≤ 2 ^ 53 := by decide +kernel
  have hlarge : (binary (some .pow) none five thirtyThree).evaluate
      = .ok 116415321826934808117248 := by decide +kernel
  obtain ⟨-, hexact, hmonotone⟩ :=
    @pow_exact_and_monotone none none _ _ _ _ _ _ _ _ hthree hexponent hfive hexponent
  exact ⟨hthree, hfive, hexponent, hbaseRounds, hexponentRounds, hsmall,
    hexact ⟨3, hbaseRounds⟩ ⟨33, hexponentRounds⟩ hsmall, hlarge,
    hmonotone (by decide) (by decide) (Nat.le_refl 33) _ hlarge⟩

end Node

end ArithLang
