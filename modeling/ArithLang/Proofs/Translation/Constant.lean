import ArithLang.Tree.Literal
import Mathlib.Data.List.Basic
import Mathlib.Data.List.Induction

/-!
# Literals as constants of C

A literal that is written into a C program is read by the rules of C: ASCII digits only, and in base
eight if the first of them is a zero. What it means there is never more than what the literal writes
(`C.le_value_of_constantOf?`), and it is the same for all rows of ASCII digits without a leading
zero, and for those that write a number below eight anyway (`C.constantOf?_eq_value_iff`).
-/

namespace ArithLang

namespace Text

theorem digitValue?_of_isDigit {c : Char} (h : c.isDigit = true) :
    digitValue? c = some (c.toNat - '0'.toNat) := by
  simp only [Char.isDigit, Bool.and_eq_true, decide_eq_true_eq, ge_iff_le,
    UInt32.le_iff_toNat_le] at h
  have hrange : 48 ≤ c.toNat ∧ c.toNat < 48 + 10 := ⟨h.1, Nat.lt_succ_of_le h.2⟩
  rw [digitValue?, digitZeros, List.findSome?_cons, if_pos hrange]
  rfl

theorem isDigit_of_isDigit {c : Char} (h : c.isDigit = true) : isDigit c = true := by
  rw [isDigit, digitValue?_of_isDigit h]
  rfl

end Text

namespace C

/-! ## Rows of digits -/

/-- The number that a row of ASCII digits writes in a base. -/
def rowValue (base : ℕ) (digits : List Char) : ℕ :=
  digits.foldl (fun value c ↦ base * value + (c.toNat - '0'.toNat)) 0

@[simp] theorem rowValue_concat (base : ℕ) (digits : List Char) (c : Char) :
    rowValue base (digits ++ [c]) = base * rowValue base digits + (c.toNat - '0'.toNat) := by
  rw [rowValue, List.foldl_append]
  rfl

@[simp] theorem digitsValue_concat (digits : List Char) (c : Char) :
    Text.digitsValue (digits ++ [c]) = 10 * Text.digitsValue digits + Text.digitValue c := by
  rw [Text.digitsValue, List.foldl_append]
  rfl

theorem rowValue_ten {digits : List Char} (h : digits.all Char.isDigit = true) :
    rowValue 10 digits = Text.digitsValue digits := by
  induction digits using List.reverseRecOn with
  | nil => rfl
  | append_singleton digits c ih =>
    rw [List.all_append, List.all_cons, Bool.and_eq_true, Bool.and_eq_true] at h
    rw [rowValue_concat, digitsValue_concat, ih h.1, Text.digitValue,
      Text.digitValue?_of_isDigit h.2.1, Option.getD_some]

private theorem rowValue_eight_le (digits : List Char) :
    rowValue 8 digits ≤ rowValue 10 digits := by
  induction digits using List.reverseRecOn with
  | nil => exact Nat.le_refl _
  | append_singleton digits c ih =>
    rw [rowValue_concat, rowValue_concat]
    omega

private theorem le_seven_iff {c : Char} : c ≤ '7' ↔ c.toNat - '0'.toNat < 8 := by
  have hseven : c ≤ '7' ↔ c.toNat ≤ 55 := by
    rw [Char.le_def, UInt32.le_iff_toNat_le]
    rfl
  have hzero : '0'.toNat = 48 := rfl
  rw [hseven, hzero]
  omega

/-- With octal digits, the base makes no difference below eight, and only there. -/
theorem rowValue_eight_eq_iff {digits : List Char} :
    digits.all (· ≤ '7') = true ∧ rowValue 8 digits = rowValue 10 digits ↔
      rowValue 10 digits < 8 := by
  induction digits using List.reverseRecOn with
  | nil => simp [rowValue]
  | append_singleton digits c ih =>
    have hle := rowValue_eight_le digits
    have hdigit : (decide (c ≤ '7')) = true ↔ c.toNat - '0'.toNat < 8 := by
      rw [decide_eq_true_iff, le_seven_iff]
    simp only [List.all_append, List.all_cons, List.all_nil, Bool.and_true, Bool.and_eq_true,
      rowValue_concat, hdigit]
    constructor
    · rintro ⟨⟨-, hc⟩, heq⟩
      omega
    · intro hlt
      have hih := ih.mpr (by omega)
      exact ⟨⟨hih.1, by omega⟩, by omega⟩

/-! ## Constants -/

/-- The value of an integer constant, which is octal if it starts with a zero. -/
def constant? (digits : List Char) : Option ℕ :=
  if digits ≠ [] ∧ digits.all Char.isDigit = true then
    if digits.head? = some '0' then
      if digits.all (· ≤ '7') = true then some (rowValue 8 digits) else none
    else some (rowValue 10 digits)
  else none

theorem constant?_eq_some_iff {digits : List Char} {n : ℕ} :
    constant? digits = some n ↔ digits ≠ [] ∧ digits.all Char.isDigit = true ∧
      (digits.head? = some '0' ∧ digits.all (· ≤ '7') = true ∧ rowValue 8 digits = n ∨
        digits.head? ≠ some '0' ∧ rowValue 10 digits = n) := by
  rw [constant?]
  split_ifs with hrow hzero hoctal
  · simp [hrow, hzero, hoctal]
  · simp [hrow, hzero, hoctal]
  · simp [hrow, hzero]
  · exact ⟨False.elim, fun h ↦ hrow ⟨h.1, h.2.1⟩⟩

/-- The value of a literal that is taken for a constant. -/
def constantOf? (literal : Literal) : Option ℕ := constant? literal.lexeme.toList

/-- A constant is never more than what the literal writes. -/
theorem le_value_of_constantOf? {literal : Literal} {n : ℕ} (h : constantOf? literal = some n) :
    n ≤ literal.value := by
  obtain ⟨-, hall, ⟨-, -, rfl⟩ | ⟨-, rfl⟩⟩ := constant?_eq_some_iff.mp h
  · rw [Literal.value, ← rowValue_ten hall]
    exact rowValue_eight_le _
  · exact Nat.le_of_eq (rowValue_ten hall)

/-- **Where a constant is what the literal writes.** The digits are ASCII digits, and a leading zero
stands only before a number below eight. -/
theorem constantOf?_eq_value_iff {literal : Literal} :
    constantOf? literal = some literal.value ↔ literal.lexeme.toList.all Char.isDigit = true ∧
      (literal.lexeme.toList.head? = some '0' → literal.value < 8) := by
  rw [constantOf?, constant?_eq_some_iff, Literal.value]
  constructor
  · rintro ⟨-, hall, ⟨-, hoctal, heq⟩ | ⟨hzero, -⟩⟩
    · rw [← rowValue_ten hall] at heq ⊢
      exact ⟨hall, fun _ ↦ rowValue_eight_eq_iff.mp ⟨hoctal, heq⟩⟩
    · exact ⟨hall, fun h ↦ absurd h hzero⟩
  · rintro ⟨hall, hsmall⟩
    rw [← rowValue_ten hall] at hsmall ⊢
    refine ⟨literal.ne_nil, hall, ?_⟩
    by_cases hzero : literal.lexeme.toList.head? = some '0'
    · obtain ⟨hoctal, heq⟩ := rowValue_eight_eq_iff.mpr (hsmall hzero)
      exact .inl ⟨hzero, hoctal, heq⟩
    · exact .inr ⟨hzero, rfl⟩

end C

end ArithLang
