import ArithLang.Log.Record
import ArithLang.Text.Digit
import ArithLang.Text.Quoted

/-!
# Options

The options of the commands: their names, whether they take an argument, and how an argument that
begins with a hyphen is recognised as one of them.

A long option may be cut short as long as it stays unambiguous. An argument may follow the name of
an option in the same word after an equals sign, and after a short name also without one; what so
follows a short option that takes no argument names further short options. A word that looks
like a negative number, or that holds a space, is not an option unless it is one of them or begins
like one; any other word with a hyphen is an option that the command does not know.
-/

namespace ArithLang.CommandLine

/-- The commands. -/
inductive Command where
  /-- Evaluates and translates an expression. -/
  | run
  /-- Checks the syntax of an expression. -/
  | check
deriving DecidableEq, Repr

/-- The options. -/
inductive Opt where
  /-- Shows the help text. -/
  | help
  /-- Chooses the level of the log on the terminal. -/
  | log
  /-- Names a file for the log. -/
  | report
  /-- Shows the whole log on the terminal. -/
  | verbose
  /-- Shows the version. -/
  | version
  /-- Shows the tree of the expression. -/
  | ast
  /-- Chooses what is shown of the expression. -/
  | emit
deriving DecidableEq, Repr

namespace Opt

/-- The names of an option. -/
def names : Opt → List String
  | .help => ["-h", "--help"]
  | .log => ["--log"]
  | .report => ["--report"]
  | .verbose => ["--verbose", "-v"]
  | .version => ["--version", "-V"]
  | .ast => ["--ast"]
  | .emit => ["--emit"]

/-- Whether an option takes an argument. -/
def takesArgument : Opt → Bool
  | .log => true
  | .report => true
  | .emit => true
  | _ => false

/-- The name of an option in error texts. -/
def title (opt : Opt) : String := "/".intercalate opt.names

end Opt

/-- The options of a command in their order. -/
def Command.options : Command → List Opt
  | .run => [.help, .log, .report, .verbose, .version, .ast, .emit]
  | .check => [.help, .log, .report, .verbose, .version]

/-- The names of a command's options in their order, each with its option. -/
def Command.optionNames (command : Command) : List (String × Opt) :=
  command.options.flatMap fun opt => opt.names.map fun name => (name, opt)

/-- A word of the command line, once it is known what it is. -/
inductive Word where
  /-- An argument. -/
  | plain
  /-- The two hyphens after which there are only arguments. -/
  | separator
  /-- An option under one of its names, perhaps with an argument in the same word. -/
  | option (opt : Opt) (name : String) (argument : Option String)
  /-- An option that the command does not know. -/
  | unknown
deriving DecidableEq, Repr

/-- The word could be any of several options. -/
structure Ambiguity where
  /-- The word. -/
  word : String
  /-- The names that it could stand for. -/
  candidates : List String
deriving DecidableEq, Repr

/-- A word split at its first equals sign, if it has one. -/
def splitAtEquals (word : List Char) : List Char × Option String :=
  match word.dropWhile (· != '=') with
  | [] => (word, none)
  | _ :: argument => (word.takeWhile (· != '='), some (String.ofList argument))

/-- Whether `text` is a non-empty row of digits. -/
def isNumeral (text : List Char) : Bool := !text.isEmpty && text.all Text.isDigit

/-- Whether a word looks like a negative number, whole or with a fraction. One line feed at its end
does not count. -/
def isNegativeNumber (word : List Char) : Bool :=
  match word with
  | '-' :: rest =>
    let rest := if rest.getLast? = some '\n' then rest.dropLast else rest
    let fraction := rest.dropWhile Text.isDigit
    isNumeral rest ||
      match fraction with
      | '.' :: digits => isNumeral digits
      | _ => false
  | _ => false

/-- A way to read a word as an option that is cut short or followed by more in the same word. -/
structure Candidate where
  /-- The option. -/
  opt : Opt
  /-- The name that the word stands for. -/
  name : String
  /-- What follows the name, if anything does. -/
  argument : Option String
deriving DecidableEq, Repr

/-- All ways to read a word as an option that is cut short or followed by more in the same word. -/
def Command.candidates (command : Command) (word : List Char) : List Candidate :=
  match word with
  | '-' :: '-' :: _ =>
    let (start, argument) := splitAtEquals word
    command.optionNames.filterMap fun (name, opt) =>
      if start.isPrefixOf name.toList then some ⟨opt, name, argument⟩ else none
  | _ =>
    command.optionNames.filterMap fun (name, opt) =>
      if name.toList = word.take 2 then some ⟨opt, name, some (String.ofList (word.drop 2))⟩
      else if word.isPrefixOf name.toList then some ⟨opt, name, none⟩
      else none

/-- What a word is that begins with a hyphen and is not the full name of an option: such a name
with an argument, something else that can be read as one option, or neither. -/
def Command.classifyOther (command : Command) (word : String) : Except Ambiguity Word :=
  let (start, argument) := splitAtEquals word.toList
  match argument, command.optionNames.lookup (String.ofList start) with
  | some argument, some opt => .ok (.option opt (String.ofList start) (some argument))
  | _, _ =>
    match command.candidates word.toList with
    | [candidate] => .ok (.option candidate.opt candidate.name candidate.argument)
    | [] =>
      .ok (if isNegativeNumber word.toList || word.toList.contains ' ' then .plain else .unknown)
    | candidates => .error ⟨word, candidates.map Candidate.name⟩

/-- What a word is, if it stands before any separator. -/
def Command.classify (command : Command) (word : String) : Except Ambiguity Word :=
  if word.toList.head? ≠ some '-' then .ok .plain
  else
    match command.optionNames.lookup word with
    | some opt => .ok (.option opt word none)
    | none => if word.length = 1 then .ok .plain else command.classifyOther word

/-- What the words of a command line are. All words after a separator are arguments. -/
def Command.classifyAll (command : Command) :
    List String → Except Ambiguity (List (String × Word))
  | [] => .ok []
  | word :: rest =>
    if word = "--" then .ok ((word, .separator) :: rest.map fun word => (word, .plain))
    else do
      let kind ← command.classify word
      return (word, kind) :: (← command.classifyAll rest)

end ArithLang.CommandLine
