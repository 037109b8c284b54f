import ArithLang.Text.Quoted
import Mathlib.Algebra.Group.Nat.Defs
import Mathlib.Data.List.Basic

/-!
# Reading quoted text

A text in quotes can be told apart from whatever is written behind it, and so it determines the text
and where it ends (`Quoted.encode_append_inj`). Characters are read back one at a time: a backslash
and what follows it say which character was escaped (`Quoted.read_escape`). No escape begins with
the quote in use, so the row of escapes ends with the first place where one would have to.
-/

namespace ArithLang.Text

/-! ## Hexadecimal digits -/

/-- The value of a hexadecimal digit in lower case. -/
def hexDigitValue (c : Char) : ℕ :=
  if c.isDigit then c.toNat - '0'.toNat else c.toNat - 'a'.toNat + 10

/-- The number written by a row of hexadecimal digits. -/
def hexValue (digits : List Char) : ℕ :=
  digits.foldl (fun value c ↦ 16 * value + hexDigitValue c) 0

private theorem hexDigitValue_digitChar : ∀ d < 16, hexDigitValue (Nat.digitChar d) = d := by decide

@[simp] private theorem hexValue_hexDigits {width n : ℕ} (h : n < 16 ^ width) :
    hexValue (hexDigits width n) = n := by
  induction width generalizing n with
  | zero =>
    rw [Nat.pow_zero, Nat.lt_one_iff] at h
    rw [h]
    rfl
  | succ width ih =>
    have hfront : n / 16 < 16 ^ width := Nat.div_lt_of_lt_mul (by rwa [← Nat.pow_succ'])
    have hlast := hexDigitValue_digitChar (n % 16) (Nat.mod_lt n (by decide))
    have hvalue : (hexDigits width (n / 16)).foldl
        (fun value c ↦ 16 * value + hexDigitValue c) 0 = n / 16 := ih hfront
    rw [hexDigits, hexValue, List.foldl_append, hvalue, List.foldl_cons, List.foldl_nil, hlast]
    exact Nat.div_add_mod n 16

namespace Quoted

variable {q c d : Char} {s t u v : List Char}

/-! ## One character -/

/-- Reads the character that comes first, escaped or not, and answers also what is behind it. -/
def read : List Char → Option (Char × List Char)
  | [] => none
  | '\\' :: 'n' :: rest => some ('\n', rest)
  | '\\' :: 'r' :: rest => some ('\r', rest)
  | '\\' :: 't' :: rest => some ('\t', rest)
  | '\\' :: 'x' :: rest => some (.ofNat (hexValue (rest.take 2)), rest.drop 2)
  | '\\' :: 'u' :: rest => some (.ofNat (hexValue (rest.take 4)), rest.drop 4)
  | '\\' :: 'U' :: rest => some (.ofNat (hexValue (rest.take 8)), rest.drop 8)
  | '\\' :: c :: rest => some (c, rest)
  | c :: rest => some (c, rest)

private theorem read_of_ne (h : c ≠ '\\') : read (c :: u) = some (c, u) := by
  rw [read] <;> simp [h]

theorem ofNat_hexValue_take (width : ℕ) (h : c.toNat < 16 ^ width) (u : List Char) :
    (Char.ofNat (hexValue ((hexDigits width c.toNat ++ u).take width)),
      (hexDigits width c.toNat ++ u).drop width) = (c, u) := by
  have hlength := length_hexDigits width c.toNat
  rw [List.take_left' hlength, List.drop_left' hlength, hexValue_hexDigits h, Char.ofNat_toNat]

/-- **A character is read back** from what is written for it. -/
theorem read_escape (hq : q = '\x27' ∨ q = '"') (c : Char) (u : List Char) :
    read (escape q c ++ u) = some (c, u) := by
  rw [escape]
  split_ifs with hmark hfeed hreturn htab hprintable hsmall hmiddle
  · rcases hmark with rfl | rfl
    · rcases hq with rfl | rfl
      · rfl
      · rfl
    · rfl
  · rw [hfeed]
    rfl
  · rw [hreturn]
    rfl
  · rw [htab]
    rfl
  · exact read_of_ne fun hbackslash ↦ hmark (.inr hbackslash)
  · exact congrArg some (ofNat_hexValue_take 2 hsmall u)
  · exact congrArg some (ofNat_hexValue_take 4 hmiddle u)
  · -- no code point has more than eight digits
    have hvalid : c.toNat < 16 ^ 8 := by
      rcases c.valid with hlow | ⟨-, hhigh⟩
      · exact Nat.lt_trans hlow (by decide)
      · exact Nat.lt_trans hhigh (by decide)
    exact congrArg some (ofNat_hexValue_take 8 hvalid u)

private theorem escape_append_inj (hq : q = '\x27' ∨ q = '"')
    (h : escape q c ++ u = escape q d ++ v) :
    c = d ∧ u = v := by
  have hread := congrArg read h
  rw [read_escape hq, read_escape hq] at hread
  exact Prod.mk.inj (Option.some.inj hread)

private theorem exists_escape_eq_cons (hq : q = '\x27' ∨ q = '"') (c : Char) :
    ∃ first rest, escape q c = first :: rest ∧ first ≠ q := by
  have hbackslash : '\\' ≠ q := by
    rcases hq with rfl | rfl
    · decide
    · decide
  rw [escape]
  split_ifs with hmark
  · exact ⟨_, _, rfl, hbackslash⟩
  · exact ⟨_, _, rfl, hbackslash⟩
  · exact ⟨_, _, rfl, hbackslash⟩
  · exact ⟨_, _, rfl, hbackslash⟩
  · exact ⟨c, [], rfl, fun hquote ↦ hmark (.inl hquote)⟩
  · exact ⟨_, _, rfl, hbackslash⟩
  · exact ⟨_, _, rfl, hbackslash⟩
  · exact ⟨_, _, rfl, hbackslash⟩

private theorem escape_append_ne_cons (hq : q = '\x27' ∨ q = '"') : escape q c ++ u ≠ q :: v := by
  obtain ⟨first, rest, hescape, hfirst⟩ := exists_escape_eq_cons hq c
  rw [hescape, List.cons_append]
  exact fun h ↦ hfirst (List.cons.inj h).1

/-! ## A whole text -/

private theorem flatMap_escape_append_inj (hq : q = '\x27' ∨ q = '"')
    (h : s.flatMap (escape q) ++ q :: u = t.flatMap (escape q) ++ q :: v) : s = t ∧ u = v := by
  induction s generalizing t with
  | nil =>
    rcases t with _ | ⟨d, t⟩
    · exact ⟨rfl, (List.cons.inj h).2⟩
    · rw [List.flatMap_cons, List.append_assoc] at h
      exact absurd h.symm (escape_append_ne_cons hq)
  | cons c s ih =>
    rw [List.flatMap_cons, List.append_assoc] at h
    rcases t with _ | ⟨d, t⟩
    · exact absurd h (escape_append_ne_cons hq)
    · rw [List.flatMap_cons, List.append_assoc] at h
      obtain ⟨rfl, hrest⟩ := escape_append_inj hq h
      obtain ⟨rfl, rfl⟩ := ih hrest
      exact ⟨rfl, rfl⟩

theorem quote_eq (text : List Char) : quote text = '\x27' ∨ quote text = '"' := by
  rw [quote]
  split_ifs
  · exact .inr rfl
  · exact .inl rfl

/-- **A text in quotes is told apart** from what is behind it. -/
theorem encode_append_inj (h : encode s ++ u = encode t ++ v) : s = t ∧ u = v := by
  rw [encode, encode, List.cons_append, List.cons_append, List.cons.injEq, List.append_assoc,
    List.append_assoc] at h
  obtain ⟨hquote, hrow⟩ := h
  rw [hquote] at hrow
  exact flatMap_escape_append_inj (quote_eq t) hrow

end Quoted

end ArithLang.Text
