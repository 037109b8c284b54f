import ArithLang.Lexer.Pattern
import ArithLang.Token

/-!
# Lexers

A lexer is a list of rules in order of priority. A rule has a name, a pattern, and an action that
makes a token of the piece of text its pattern takes; at each place the first rule whose pattern
applies is used, even if a later one would take more. A rule without an action, or whose action
answers nothing, passes its piece over. An action may also fail. A lexer without rules reads no
text at all, not even the empty one.

An action is a function of the name of its rule and of the piece. It has no other effect, and its
failure is an error that the reader hands on as it is; actions that keep a state of their own, or
that end the stream they are called from, are left out.

`Lexer.cut` says what a lexer does at one place of a text. `Lexer.run` follows it through a whole
text and describes everything that comes of it: the tokens, and how the reading ends. A piece of
zero characters leaves the reader where it is, so the reading is stuck there: the same token comes
again and again, or the reader turns in place without a token.

Main statements: a cut takes no more than there is (`length_le_of_cut_skip`,
`length_le_of_cut_token`).
-/

namespace ArithLang

/-- What a rule does with its piece of text: it is given the rule's name and the piece. -/
abbrev Action (ε : Type) := String → String → Except ε (Option Token)

/-- A rule of a lexer, whose action fails with an `ε`. -/
structure Rule (ε : Type) where
  /-- The name of the rule, which is also the usual type of its tokens. -/
  name : String
  /-- The pattern that takes the piece of text. -/
  pattern : Pattern
  /-- What makes a token of the piece; without it the piece is passed over. -/
  action : Option (Action ε)

/-- The outcome of a rule on its piece of text. -/
def Rule.apply {ε : Type} (rule : Rule ε) (piece : String) : Except ε (Option Token) :=
  match rule.action with
  | none => .ok none
  | some action => action rule.name piece

/-- A lexer: its rules, the first of which has priority. -/
structure Lexer (ε : Type) where
  /-- The rules in order of priority. -/
  rules : List (Rule ε)

/-- What a lexer does at one place of a text. -/
inductive Cut (ε : Type) where
  /-- There is no rule that could say what to do. -/
  | ruleless
  /-- The text is at its end. -/
  | finished
  /-- No rule applies to the text, which starts with `c`. -/
  | unexpected (c : Char)
  /-- An action failed. -/
  | failed (error : ε)
  /-- A piece of `length` characters is passed over. -/
  | skip (length : Nat)
  /-- A piece of `length` characters makes a token. -/
  | token (token : Token) (length : Nat)

/-- Why the reading of a text fails. -/
inductive Lexer.Error (ε : Type) where
  /-- The lexer has no rules. -/
  | ruleless
  /-- No rule applies to the text from `c` on. -/
  | unexpected (c : Char)
  /-- An action failed. -/
  | action (error : ε)
deriving DecidableEq, Repr

/-- The text of an error, given the text of the errors of actions. -/
def Lexer.Error.message {ε : Type} (actionMessage : ε → String) : Lexer.Error ε → String
  | .ruleless => "no such group"
  | .unexpected c =>
    "Unexpected char: " ++ String.singleton c ++ " (0x"
      ++ String.ofList ((Nat.toDigits 16 c.toNat).map Char.toUpper) ++ ")"
  | .action error => actionMessage error

/-- How the reading of a text ends, once its tokens have been handed out. -/
inductive Ending (φ : Type) where
  /-- With the text; a marker token follows if one was asked for. -/
  | finished (marker : Option Token)
  /-- With a failure, after which nothing follows. -/
  | failed (error : φ)
  /-- Never: the same token comes for ever, or the reader turns in place without a token. -/
  | stuck (token : Option Token)

/-- All that comes of reading a text. -/
structure Run (φ : Type) where
  /-- The tokens made of pieces of the text, in order. -/
  tokens : List Token
  /-- What comes after them. -/
  ending : Ending φ

namespace Lexer

variable {ε : Type}

/-- The first rule that applies to a text, with the number of characters it takes. -/
def firstMatch? (lexer : Lexer ε) (text : List Char) : Option (Rule ε × Nat) :=
  lexer.rules.findSome? fun rule => (rule.pattern.matchLength text).map fun n => (rule, n)

/-- What the lexer does at the front of a text. -/
def cut (lexer : Lexer ε) (text : List Char) : Cut ε :=
  match lexer.firstMatch? text with
  | none =>
    if lexer.rules.isEmpty then .ruleless
    else
      match text with
      | [] => .finished
      | c :: _ => .unexpected c
  | some (rule, n) =>
    match rule.apply (String.ofList (text.take n)) with
    | .error error => .failed error
    | .ok none => .skip n
    | .ok (some token) => .token token n

theorem length_le_of_firstMatch? {lexer : Lexer ε} {text : List Char} {rule : Rule ε} {n : Nat}
    (h : lexer.firstMatch? text = some (rule, n)) : n ≤ text.length := by
  obtain ⟨candidate, -, h⟩ := List.exists_of_findSome?_eq_some h
  obtain ⟨m, hm, h⟩ := Option.map_eq_some_iff.mp h
  rw [← (Prod.mk.inj h).2]
  exact candidate.pattern.le_length hm

theorem length_le_of_cut_skip {lexer : Lexer ε} {text : List Char} {n : Nat}
    (h : lexer.cut text = .skip n) : n ≤ text.length := by
  unfold cut at h
  split at h
  · split at h
    · cases h
    · split at h <;> cases h
  · next hm => split at h <;> cases h; exact length_le_of_firstMatch? hm

theorem length_le_of_cut_token {lexer : Lexer ε} {text : List Char} {token : Token} {n : Nat}
    (h : lexer.cut text = .token token n) : n ≤ text.length := by
  unfold cut at h
  split at h
  · split at h
    · cases h
    · split at h <;> cases h
  · next hm => split at h <;> cases h; exact length_le_of_firstMatch? hm

/-- All that comes of reading `text`, with a marker of type `marker` at its end. -/
def run (lexer : Lexer ε) (marker : Option TokenType) (text : List Char) : Run (Lexer.Error ε) :=
  match h : lexer.cut text with
  | .ruleless => ⟨[], .failed .ruleless⟩
  | .finished => ⟨[], .finished (marker.map Token.marker)⟩
  | .unexpected c => ⟨[], .failed (.unexpected c)⟩
  | .failed error => ⟨[], .failed (.action error)⟩
  | .skip 0 => ⟨[], .stuck none⟩
  | .skip (n + 1) => run lexer marker (text.drop (n + 1))
  | .token token 0 => ⟨[], .stuck (some token)⟩
  | .token token (n + 1) =>
    let rest := run lexer marker (text.drop (n + 1))
    ⟨token :: rest.tokens, rest.ending⟩
termination_by text.length
decreasing_by
  · have := length_le_of_cut_skip h
    rw [List.length_drop]
    omega
  · have := length_le_of_cut_token h
    rw [List.length_drop]
    omega

end Lexer

end ArithLang
