import ArithLang.Lexer.Basic
import ArithLang.Log.Entry

/-!
# Streams of tokens

A stream reads one text with a lexer, one token at a time, and only when it is asked. All streams
of a lexer share one position, that of the lexer: a stream sets it to the front of its text when
it is first asked, moves it past each piece that it passes over, but past a piece that made a token
only when it is asked again. So just after a token has been handed out, the position is the place
where the token's piece begins.

A stream that has been put aside therefore keeps the place where it will go on, and takes nothing
from the shared position, which other streams may have moved.

The streams of a lexer also share a note of the text that was begun last. Nothing reads that note,
so it is left out of the state.
-/

namespace ArithLang

/-- Where a stream stands between two requests. -/
inductive Stage where
  /-- It has not been asked yet. -/
  | fresh
  /-- It has handed out a token and goes on at `position`. -/
  | suspended (position : Nat)
  /-- It has ended or failed. -/
  | closed
deriving DecidableEq, Repr

/-- The reading of one text. -/
structure TokenStream where
  /-- The text that is read. -/
  text : List Char
  /-- The type of the marker token at the end of the text, if one is wanted. -/
  marker : Option TokenType
  /-- Where the reading stands. -/
  stage : Stage := .fresh

/-- What a stream hands out when it is asked. -/
inductive Answer (ε : Type) where
  /-- A token. -/
  | token (token : Token)
  /-- The stream is at its end. -/
  | stop
  /-- The reading fails here. -/
  | failed (error : Lexer.Error ε)
  /-- The reader turns in place and answers nothing. -/
  | endless
deriving DecidableEq, Repr

namespace Lexer

variable {ε : Type}

/-- Reads on from `position` until there is something to hand out. The result holds the answer,
the stage in which the stream is left, and the position. -/
def readFrom (lexer : Lexer ε) (text : List Char) (marker : Option TokenType) (position : Nat) :
    Answer ε × Stage × Nat :=
  match h : lexer.cut (text.drop position) with
  | .ruleless => (.failed .ruleless, .closed, position)
  | .finished =>
    match marker with
    | none => (.stop, .closed, position)
    | some type => (.token (.marker type), .closed, position)
  | .unexpected c => (.failed (.unexpected c), .closed, position)
  | .failed error => (.failed (.action error), .closed, position)
  | .token token n => (.token token, .suspended (position + n), position)
  | .skip 0 => (.endless, .suspended position, position)
  | .skip (n + 1) => readFrom lexer text marker (position + (n + 1))
termination_by text.length - position
decreasing_by
  have := length_le_of_cut_skip h
  rw [List.length_drop] at this
  omega

/-- Asks a stream for its next token, while the lexer stands at `position`. -/
def next (lexer : Lexer ε) (stream : TokenStream) (position : Nat) : Answer ε × TokenStream × Nat :=
  match stream.stage with
  | .closed => (.stop, stream, position)
  | .fresh =>
    let (answer, stage, position) := lexer.readFrom stream.text stream.marker 0
    (answer, { stream with stage }, position)
  | .suspended start =>
    let (answer, stage, position) := lexer.readFrom stream.text stream.marker start
    (answer, { stream with stage }, position)

end Lexer

/-- A lexer at work: its position, its streams under their names, and what it has reported. -/
structure Session (ε : Type) where
  /-- The lexer. -/
  lexer : Lexer ε
  /-- The position that all streams share. -/
  position : Nat := 0
  /-- The streams that have been started, latest first. -/
  streams : List (String × TokenStream) := []
  /-- What has been reported, latest first. -/
  log : List Log.Entry := []

namespace Session

variable {ε : Type}

/-- Starts a stream over `text` under the name `id`; nothing is read yet. -/
def start (session : Session ε) (id : String) (text : String) (marker : Option TokenType) :
    Session ε :=
  { session with streams := (id, { text := text.toList, marker }) :: session.streams }

/-- The stream with the name `id`. -/
def stream? (session : Session ε) (id : String) : Option TokenStream := session.streams.lookup id

/-- The session after the stream `id` has become `stream` and the position `position`. -/
def update (session : Session ε) (id : String) (stream : TokenStream) (position : Nat) :
    Session ε :=
  { session with
    position
    streams := session.streams.map fun entry => if entry.1 == id then (id, stream) else entry }

/-- Reports a token that was made of a piece of text, which a stream hands out when it is put
aside. A marker, after which the stream is closed, is not reported. -/
def report (session : Session ε) : Answer ε → Stage → Session ε
  | .token token, .suspended _ => { session with log := .token token :: session.log }
  | _, _ => session

/-- Asks the stream `id` for its next token; a name that has not been started has none. -/
def next (session : Session ε) (id : String) : Answer ε × Session ε :=
  match session.stream? id with
  | none => (.stop, session)
  | some stream =>
    let (answer, stream, position) := session.lexer.next stream session.position
    (answer, (session.update id stream position).report answer stream.stage)

/-- Asks the stream `id` for tokens until it ends or fails, but at most `limit` times. The result
holds the tokens and the last answer. -/
def drainUpTo (id : String) : Nat → Session ε → List Token × Answer ε × Session ε
  | 0, session => ([], .endless, session)
  | limit + 1, session =>
    match session.next id with
    | (.token token, session) =>
      let (tokens, rest) := drainUpTo id limit session
      (token :: tokens, rest)
    | (answer, session) => ([], answer, session)

/-- Asks the stream `id` for all its tokens. A stream that moves on hands out at most one token for
each character and a marker; one that has not ended after these is stuck and never ends. -/
def drain (session : Session ε) (id : String) : List Token × Answer ε × Session ε :=
  let length := ((session.stream? id).map fun stream => stream.text.length).getD 0
  drainUpTo id (length + 2) session

end Session

end ArithLang
