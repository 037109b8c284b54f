import ArithLang.Lexer.Standard

/-!
# Tokens of an expression

The lexer of the expression language. The sign of exponentiation is tried before that of
multiplication, which it starts with. Blanks separate tokens and are dropped; any other character
becomes a token of its own that no expression contains.

Every character but the line feed is taken by the last rule and the line feed is a blank, so the
reading never fails. It ends with one marker of the category `eof`.
-/

namespace ArithLang.Scanner

/-- The rules of the expression language, in order of priority. -/
def rules {ε : Type} : List (Rule ε) :=
  [⟨"INT", .digits, some (.emitCategory .int)⟩,
    ⟨"PLUS", .literal ['+'], some (.emitCategory .plus)⟩,
    ⟨"POW", .literal ['*', '*'], some (.emitCategory .pow)⟩,
    ⟨"TIMES", .literal ['*'], some (.emitCategory .times)⟩,
    ⟨"OPEN_PAR", .literal ['('], some (.emitCategory .openPar)⟩,
    ⟨"CLOSE_PAR", .literal [')'], some (.emitCategory .closePar)⟩,
    ⟨"SKIP", .blank, none⟩,
    ⟨"BAD_TOKEN", .any, some (.emitCategory .badToken)⟩]

/-- The lexer of the expression language. -/
def lexer {ε : Type} : Lexer ε := ⟨rules⟩

/-- The type of the marker at the end of an expression. -/
def marker : TokenType := .category .eof

/-- All that comes of reading an expression. -/
def run {ε : Type} (text : String) : Run (Lexer.Error ε) := lexer.run (some marker) text.toList

/-- The tokens of an expression, the marker at its end included. -/
def tokens (text : String) : List Token :=
  let run : Run (Lexer.Error Empty) := run text
  match run.ending with
  | .finished marker => run.tokens ++ marker.toList
  | _ => run.tokens

end ArithLang.Scanner
