import ArithLang.Log.Entry

/-!
# Log records as text

A record is shown on one line: the time, the name of its level in eight columns, the name of its
logger in exactly ten, and its text. On a terminal the line is coloured by its level.

Levels have names, and a level may be chosen by name in any mixture of cases.
-/

namespace ArithLang.Log

/-! ## Levels -/

/-- The names of levels that may be chosen, each with its level. -/
def levelNames : List (String × Level) :=
  [("CRITICAL", 50), ("FATAL", 50), ("ERROR", 40), ("WARNING", 30), ("WARN", 30), ("INFO", 20),
    ("DEBUG", 10), ("NOTSET", 0)]

/-- The name that is shown for a level: the first name of the level, or else its number. -/
def levelName (level : Level) : String :=
  match levelNames.find? fun entry => entry.2 = level with
  | some (name, _) => name
  | none => "Level " ++ toString level

/-- The capital letter of a letter. Besides the letters a to z, only the dotless i and the long s
have one among the letters A to Z. -/
def capital (c : Char) : Char :=
  if c = 'ı' then 'I' else if c = 'ſ' then 'S' else c.toUpper

/-- The level with a name. -/
def level? (name : String) : Option Level :=
  levelNames.lookup (String.ofList (name.toList.map capital))

/-- The fault of a name that no level has. -/
def invalidLevelMessage (name : String) : String := "Invalid log level: " ++ name

/-! ## Records -/

/-- What a log shows of an entry. -/
structure Record where
  /-- How urgent it is. -/
  level : Level
  /-- The logger that it belongs to. -/
  logger : String
  /-- Its text. -/
  message : String
deriving DecidableEq, Repr

/-- The record of an entry. -/
def Entry.record (entry : Entry) : Record := ⟨entry.level, entry.logger, entry.message⟩

/-- A text moved to the right end of `width` columns, if it is shorter. -/
def alignRight (width : Nat) (text : String) : String :=
  String.ofList (List.replicate (width - text.length) ' ') ++ text

/-- The first `width` characters of a text. -/
def cutTo (width : Nat) (text : String) : String := String.ofList (text.toList.take width)

namespace Record

/-- The line of a record. -/
def line (time : String) (record : Record) : String :=
  time ++ " | " ++ alignRight 8 (levelName record.level) ++ " | "
    ++ alignRight 10 (cutTo 10 record.logger) ++ " | " ++ record.message

/-- The colour of a level on a terminal, if it has one. -/
def colour? (level : Level) : Option String :=
  if level = 20 then some "37" else if level = 30 then some "33"
  else if level = 40 then some "31" else none

/-- The line of a record, coloured for a terminal. -/
def colouredLine (time : String) (record : Record) : String :=
  match colour? record.level with
  | some colour => "\x1b[1;" ++ colour ++ "m" ++ record.line time ++ "\x1b[0m"
  | none => record.line time

end Record

/-! ## Messages with places to fill -/

/-- What is wrong between a message and the arguments for its places. -/
inductive FillError where
  /-- There are fewer arguments than places. -/
  | tooFew
  /-- There are more arguments than places. -/
  | tooMany
  /-- The message ends with a percent sign that nothing follows. -/
  | incomplete
deriving DecidableEq, Repr

/-- The text of an error. -/
def FillError.message : FillError → String
  | .tooFew => "not enough arguments for format string"
  | .tooMany => "not all arguments converted during string formatting"
  | .incomplete => "incomplete format"

/-- Fills the places `%s` of a message; a doubled percent sign stands for one. -/
def fillPlaces : List Char → List String → Except FillError (List Char)
  | [], [] => .ok []
  | [], _ :: _ => .error .tooMany
  | ['%'], _ => .error .incomplete
  | '%' :: 's' :: _, [] => .error .tooFew
  | '%' :: 's' :: rest, argument :: arguments =>
    (fillPlaces rest arguments).map (argument.toList ++ ·)
  | '%' :: '%' :: rest, arguments => (fillPlaces rest arguments).map ('%' :: ·)
  | c :: rest, arguments => (fillPlaces rest arguments).map (c :: ·)

/-- A message with its places filled. Without arguments the message stays as it is. -/
def fill (message : String) (arguments : List String) : Except FillError String :=
  if arguments.isEmpty then .ok message
  else (fillPlaces message.toList arguments).map String.ofList

end ArithLang.Log
