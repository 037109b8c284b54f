/-!
# Patterns

A pattern says how many characters it takes off the front of a text, if it takes any at all. It is
a function of the remaining text. So the patterns that look at what stands in front of the reader
are left out: those bound to the start of the text or of a line, to the edge of a word, and those
that look behind. The patterns of the rules of expressions are of none of these kinds.

A pattern never takes more than there is; that bound is part of the type, because the readers of
this library advance by it.

A pattern may take zero characters.
-/

namespace ArithLang

/-- A pattern: how many characters it takes off the front of a text. -/
structure Pattern where
  /-- The number of characters taken, `none` where the pattern does not apply. -/
  matchLength : List Char → Option Nat
  /-- A pattern takes no more than there is. -/
  le_length : ∀ {text n}, matchLength text = some n → n ≤ text.length

namespace Pattern

/-- One character with the property `p`. -/
def one (p : Char → Bool) : Pattern where
  matchLength
    | [] => none
    | c :: _ => if p c then some 1 else none
  le_length {text n} h := by
    cases text with
    | nil => simp at h
    | cons c rest =>
      dsimp only at h
      split at h
      · obtain rfl := Option.some.inj h
        simp
      · simp at h

/-- As many characters with the property `p` as there are. -/
def many (p : Char → Bool) : Pattern where
  matchLength text := some (text.takeWhile p).length
  le_length {text n} h := by
    obtain rfl := Option.some.inj h
    exact (List.takeWhile_prefix p).length_le

/-- The characters of `expected`, as they are. -/
def literal (expected : List Char) : Pattern where
  matchLength text := if expected.isPrefixOf text then some expected.length else none
  le_length {text n} h := by
    split at h
    · next hp =>
      obtain rfl := Option.some.inj h
      exact (List.isPrefixOf_iff_prefix.mp hp).length_le
    · simp at h

/-- `first`, and `second` on what `first` leaves. -/
def andThen (first second : Pattern) : Pattern where
  matchLength text :=
    (first.matchLength text).bind fun n => (second.matchLength (text.drop n)).map (n + ·)
  le_length {text k} h := by
    obtain ⟨n, hn, h⟩ := Option.bind_eq_some_iff.mp h
    obtain ⟨m, hm, rfl⟩ := Option.map_eq_some_iff.mp h
    have hn := first.le_length hn
    have hm := second.le_length hm
    rw [List.length_drop] at hm
    omega

/-- `pattern` where it applies, and nothing elsewhere. -/
def optional (pattern : Pattern) : Pattern where
  matchLength text := some ((pattern.matchLength text).getD 0)
  le_length {text n} h := by
    obtain rfl := Option.some.inj h
    cases hm : pattern.matchLength text with
    | none => simp
    | some m => simpa using pattern.le_length hm

/-- One character with the property `p`, and all such characters that follow. -/
def oneOrMore (p : Char → Bool) : Pattern := (one p).andThen (many p)

end Pattern

end ArithLang
