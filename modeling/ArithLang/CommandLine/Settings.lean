import ArithLang.CommandLine.Help

/-!
# Reading a command line

From the words of a command line to the settings of a run. Options act in the order in which they
stand; help and version end the reading as soon as they are met, and so does a fault. The files for
the log are opened on the way, so those that are named before the end of the reading are listed,
whatever the outcome is.

A command takes one argument, the expression. Further arguments are left over, as are options that
the command does not know; that is found out last of all.

The rules are those of argparse in release 3.11.8, here and in `ArithLang.CommandLine.Option`. From
release 3.11.9 on two of them are different. Two hyphens that an option is given as its argument
(`--log=--`) are kept as the argument, while here they are removed and leave the option without one
(`isSeparator`). And what follows a short option in the same word and names no option (`-vx`) is
left over, while here it is a fault of the option in front of it (`Command.cluster`).
-/

namespace ArithLang.CommandLine

/-- What a run shows of an expression. -/
inductive Emit where
  /-- Its value and its translations. -/
  | all
  /-- Its value. -/
  | eval
  /-- Its translation to Lisp. -/
  | lisp
  /-- Its translation to C. -/
  | c
deriving DecidableEq, Repr

/-- The words for what may be shown, in their order. -/
def Emit.words : List (String × Emit) :=
  [("all", .all), ("eval", .eval), ("lisp", .lisp), ("c", .c)]

/-- Where the log is written, besides the terminal. -/
inductive Report where
  /-- Nowhere. -/
  | nowhere
  /-- To the standard output. -/
  | standardOutput
  /-- To a file. -/
  | file (path : String)
deriving DecidableEq, Repr

/-- The settings of a run. -/
structure Settings where
  /-- The level from which on the log is shown on the terminal; `none` where the option was given
  the separator, which leaves it without a level. -/
  log : Option Log.Level := some 30
  /-- Where the log is written, if that was said. -/
  report : Option Report := none
  /-- How often the whole log was asked for. -/
  verbose : Nat := 0
  /-- Whether the tree is shown. -/
  ast : Bool := false
  /-- What else is shown; `none` where the option was given the separator. -/
  emit : Option Emit := some .all
  /-- The expression, if it is on the command line. -/
  expression : Option String := none
deriving DecidableEq, Repr

/-- Why a file cannot be opened. -/
structure OpenError where
  /-- The number of the error. -/
  number : Nat
  /-- The text of the error. -/
  text : String
deriving DecidableEq, Repr

/-- What is wrong with a command line. -/
inductive Fault where
  /-- A word could be any of several options. -/
  | ambiguous (ambiguity : Ambiguity)
  /-- An option lacks its argument. -/
  | argumentExpected (opt : Opt)
  /-- An option that takes no argument has one. -/
  | argumentIgnored (opt : Opt) (argument : String)
  /-- No level has this name. -/
  | invalidLevel (name : String)
  /-- No file can have this name. -/
  | invalidReport (path : String)
  /-- A file cannot be opened. -/
  | cannotOpen (path : String) (error : OpenError)
  /-- An option is there twice that may be there once. -/
  | repeated (opt : Opt)
  /-- The word is none of those to choose from. -/
  | invalidChoice (word : String)
  /-- Some words are left over. -/
  | leftOver (words : List String)
deriving DecidableEq, Repr

/-- The text of a fault of an option. -/
def Opt.faultText (opt : Opt) (text : String) : String := "argument " ++ opt.title ++ ": " ++ text

/-- The text of a fault. -/
def Fault.message : Fault → String
  | .ambiguous ⟨word, candidates⟩ =>
    "ambiguous option: " ++ word ++ " could match " ++ ", ".intercalate candidates
  | .argumentExpected opt => opt.faultText "expected one argument"
  | .argumentIgnored opt argument =>
    opt.faultText ("ignored explicit argument " ++ Text.quoted argument)
  | .invalidLevel name => Opt.faultText .log ("invalid log_level value: " ++ Text.quoted name)
  | .invalidReport path =>
    Opt.faultText .report ("invalid FileType('w') value: " ++ Text.quoted path)
  | .cannotOpen path error =>
    Opt.faultText .report ("can't open '" ++ path ++ "': [Errno " ++ toString error.number ++ "] "
      ++ error.text ++ ": " ++ Text.quoted path)
  | .repeated opt => opt.faultText "Cannot give multiple"
  | .invalidChoice word =>
    Opt.faultText .emit ("invalid choice: " ++ Text.quoted word ++ " (choose from "
      ++ ", ".intercalate (Emit.words.map fun entry => Text.quoted entry.1) ++ ")")
  | .leftOver words => "unrecognized arguments: " ++ " ".intercalate words

/-- How the reading of a command line ends. -/
inductive Outcome where
  /-- The run can begin. -/
  | ready (settings : Settings)
  /-- The help text is shown. -/
  | help
  /-- The version is shown. -/
  | version
  /-- The command line is faulty. -/
  | faulty (fault : Fault)
deriving DecidableEq, Repr

/-- The state of the reading. -/
structure Gathered where
  /-- The settings so far. -/
  settings : Settings := {}
  /-- Whether the word just before was taken as the expression. -/
  justTaken : Bool := false
  /-- The words that are left over. -/
  leftOver : List String := []
  /-- The files that have been named for the log, in order. -/
  named : List String := []

/-! ## Acting on an option -/

/-- Whether an argument is the separator, which is removed wherever it stands as an argument. -/
def isSeparator (argument : String) : Bool := argument = "--"

/-- Acts on an option with its argument. The result is the state, or how the reading ends. -/
def act (opt : Opt) (argument : String) (gathered : Gathered) : Gathered × Option Outcome :=
  let settings := gathered.settings
  let go (settings : Settings) : Gathered × Option Outcome := ({ gathered with settings }, none)
  match opt with
  | .help => (gathered, some .help)
  | .version => (gathered, some .version)
  | .verbose => go { settings with verbose := settings.verbose + 1 }
  | .ast => go { settings with ast := true }
  | .log =>
    if isSeparator argument then go { settings with log := none }
    else
      match Log.level? argument with
      | some level => go { settings with log := some level }
      | none => (gathered, some (.faulty (.invalidLevel argument)))
  | .emit =>
    if isSeparator argument then go { settings with emit := none }
    else
      match Emit.words.lookup argument with
      | some emit => go { settings with emit := some emit }
      | none => (gathered, some (.faulty (.invalidChoice argument)))
  | .report =>
    if argument.toList.contains '\x00' then (gathered, some (.faulty (.invalidReport argument)))
    else
      let report : Report :=
        if isSeparator argument then .nowhere
        else if argument = "-" then .standardOutput
        else .file argument
      let gathered := match report with
        | .file path => { gathered with named := gathered.named ++ [path] }
        | _ => gathered
      if settings.report.isSome then (gathered, some (.faulty (.repeated .report)))
      else ({ gathered with settings := { settings with report := some report } }, none)

/-- Acts on some options in order, each with its argument. -/
def actAll : List (Opt × String) → Gathered → Gathered × Option Outcome
  | [], gathered => (gathered, none)
  | (opt, argument) :: rest, gathered =>
    match act opt argument gathered with
    | (gathered, none) => actAll rest gathered
    | ended => ended

/-- The short options in one word: the option `opt`, which takes no argument, and those that the
characters after it name. All of these must be options, or none of them acts. -/
def Command.cluster (command : Command) (opt : Opt) : List Char → Except Fault (List Opt)
  | [] => .ok [opt]
  | c :: rest =>
    match command.optionNames.lookup (String.ofList ['-', c]) with
    | some next => (command.cluster next rest).map (opt :: ·)
    | none => .error (.argumentIgnored opt (String.ofList (c :: rest)))

/-- Whether an option name has a single hyphen. -/
def isShort (name : String) : Bool := name.toList.take 2 ≠ ['-', '-']

/-- The options, each with its argument, that one word stands for which holds an argument or further
options. -/
def Command.expand (command : Command) (opt : Opt) (name argument : String) :
    Except Fault (List (Opt × String)) :=
  if opt.takesArgument then .ok [(opt, argument)]
  else if isShort name && argument ≠ "" then
    (command.cluster opt argument.toList).map fun opts => opts.map fun opt => (opt, "")
  else .error (.argumentIgnored opt argument)

/-! ## Reading the words -/

/-- Passes a word that is not taken as the expression. -/
def Gathered.pass (gathered : Gathered) : Gathered := { gathered with justTaken := false }

/-- Leaves a word over. -/
def Gathered.leave (gathered : Gathered) (word : String) : Gathered :=
  { gathered.pass with leftOver := gathered.leftOver ++ [word] }

/-- Takes an argument as the expression, or leaves it over if there is one already. -/
def Gathered.takeArgument (gathered : Gathered) (word : String) : Gathered :=
  match gathered.settings.expression with
  | none =>
    { gathered with
      settings := { gathered.settings with expression := some word }
      justTaken := true }
  | some _ => gathered.leave word

/-- Passes a separator, which is left over only if the expression was taken before the word just in
front of it. -/
def Gathered.passSeparator (gathered : Gathered) (word : String) : Gathered :=
  if gathered.settings.expression.isNone || gathered.justTaken then gathered.pass
  else gathered.leave word

/-- The outcome of a reading that has come to the end of the words. -/
def Gathered.finish (gathered : Gathered) : Outcome :=
  if gathered.leftOver.isEmpty then .ready gathered.settings
  else .faulty (.leftOver gathered.leftOver)

/-- Reads the words one after the other. The result is the outcome, and the files named for the
log. -/
def Command.readWords (command : Command) :
    List (String × Word) → Gathered → Outcome × List String
  | [], gathered => (gathered.finish, gathered.named)
  | (word, .plain) :: rest, gathered => command.readWords rest (gathered.takeArgument word)
  | (word, .separator) :: rest, gathered => command.readWords rest (gathered.passSeparator word)
  | (word, .unknown) :: rest, gathered => command.readWords rest (gathered.leave word)
  | (_, .option opt name (some argument)) :: rest, gathered =>
    match command.expand opt name argument with
    | .error fault => (.faulty fault, gathered.named)
    | .ok acts =>
      match actAll acts gathered.pass with
      | (gathered, some outcome) => (outcome, gathered.named)
      | (gathered, none) => command.readWords rest gathered
  | (_, .option opt _ none) :: rest, gathered =>
    if opt.takesArgument then
      match rest with
      | (argument, .plain) :: rest =>
        match act opt argument gathered.pass with
        | (gathered, some outcome) => (outcome, gathered.named)
        | (gathered, none) => command.readWords rest gathered
      | _ => (.faulty (.argumentExpected opt), gathered.named)
    else
      match act opt "" gathered.pass with
      | (gathered, some outcome) => (outcome, gathered.named)
      | (gathered, none) => command.readWords rest gathered

/-- Reads a command line. The result is the outcome, and the files named for the log, in order. -/
def Command.read (command : Command) (words : List String) : Outcome × List String :=
  match command.classifyAll words with
  | .error ambiguity => (.faulty (.ambiguous ambiguity), [])
  | .ok classified => command.readWords classified {}

end ArithLang.CommandLine
