import ArithLang.CommandLine.Settings
import ArithLang.Expression

/-!
# Runs of the commands

What a command does once its settings are known. A run is a list of events in order, lines for the
log and text for the standard output, and a way to end. The log is shown on the terminal from a
level on, in colours, and written in full wherever else it was asked for.

A fault of the expression ends a run with status 1 and a line in the log. Anything else that fails
breaks the run off.
-/

namespace ArithLang.CommandLine

/-- What happens during a run. -/
inductive Event where
  /-- An entry is reported to the log. -/
  | log (entry : Log.Entry)
  /-- A text is printed. -/
  | print (text : String)
deriving DecidableEq, Repr

/-- What breaks a run off. -/
inductive Crash where
  /-- An operation fails for another reason than a fault of the expression. -/
  | operation (failure : Expression.Failure)
  /-- There is no level for the log. -/
  | noLevel

/-- The text of a crash for want of a level. -/
def noLevelMessage : String := "Level not an integer or a valid string: []"

/-- How a run ends. -/
inductive Exit where
  /-- With a status. -/
  | status (code : Nat)
  /-- It is broken off. -/
  | broken (crash : Crash)

/-- The events for what an operation has reported, given the latest first. -/
def logged (log : List Log.Entry) : List Event := log.reverse.map Event.log

/-- The events and the end of a run that fails. -/
def failed (failure : Expression.Failure) : List Event × Exit :=
  match failure.reason? with
  | some reason => ([.log (.failure reason), .log .detached], .status 1)
  | none => ([.log .detached], .broken (.operation failure))

/-- The events and the end of a run that comes to its end with a status. -/
def ended (code : Nat) : List Event × Exit := ([.log .detached], .status code)

/-- Puts events in front of those of a run. -/
def after (events : List Event) (run : List Event × Exit) : List Event × Exit :=
  (events ++ run.1, run.2)

/-! ## Checking -/

/-- Checks the syntax of an expression. -/
def checkText (text : String) : List Event × Exit :=
  match Expression.checkSyntax (.text text) [] with
  | .error failure log => after (logged log) (failed failure)
  | .ok true log => after (logged log ++ [.print "Syntax OK!\n"]) (ended 0)
  | .ok false log => after (logged log ++ [.print "Bad syntax!\n"]) (ended 1)

/-! ## Evaluating and translating -/

/-- What is printed of a tree, without the line feed at its end. -/
def shown (tree : Value) : Emit → Expression.Logged String
  | .eval => Expression.valueText tree
  | .lisp => Expression.toLisp tree
  | .c => Expression.toC tree
  | .all => do
    let value ← Expression.valueText tree
    let lisp ← Expression.toLisp tree
    let c ← Expression.toC tree
    return "\n\n".intercalate
      ["Result of evaluation:\n\n" ++ value, "Translation to Lisp:\n\n" ++ lisp,
        "Translation to C:\n\n" ++ c]

/-- Prints what is asked for of a tree. -/
def showTree (settings : Settings) (tree : Node) : List Event × Exit :=
  let dump := if settings.ast then [Event.print (tree.dump ++ "\n")] else []
  match settings.emit with
  | none => after dump (ended 0)
  | some emit =>
    match shown (.node tree) emit [] with
    | .error failure log => after (dump ++ logged log) (failed failure)
    | .ok text log => after (dump ++ logged log ++ [.print (text ++ "\n")]) (ended 0)

/-- Evaluates and translates an expression. -/
def runText (settings : Settings) (text : String) : List Event × Exit :=
  match Expression.tryParse (.text text) [] with
  | .error failure log => after (logged log) (failed failure)
  | .ok (.error _) log => after (logged log ++ [.print "Bad syntax!\n"]) (ended 1)
  | .ok (.ok tree) log => after (logged log) (showTree settings tree)

/-! ## The whole run -/

/-- Runs a command on an expression. -/
def Command.execute (command : Command) (platform : Platform) (settings : Settings)
    (text : String) : List Event × Exit :=
  if settings.log.isNone then ([], .broken .noLevel)
  else
    after [.log .attached, .log (.version platform.versionLine)]
      (match command with
        | .run => runText settings text
        | .check => checkText text)

/-- Whether a run has to ask for its expression. -/
def Settings.asks (settings : Settings) : Bool := settings.log.isSome && settings.expression.isNone

/-- The first line of a text, without the end of the line. -/
def firstLine (text : String) : String :=
  String.ofList (text.toList.takeWhile fun c => c != '\n' && c != '\r')

/-! ## Transcripts -/

/-- What a run leaves behind. -/
structure Transcript where
  /-- What was written to the standard output. -/
  output : String := ""
  /-- What was written to the terminal for errors. -/
  errors : String := ""
  /-- What was written to the file for the log. -/
  report : String := ""
deriving DecidableEq, Repr

/-- The level from which on the log is shown on the terminal. -/
def Settings.threshold (settings : Settings) : Log.Level :=
  if 0 < settings.verbose then Log.debug else settings.log.getD Log.debug

/-- Writes down an event, at the time `time`. -/
def Transcript.add (settings : Settings) (time : String) (transcript : Transcript) :
    Event → Transcript
  | .print text => { transcript with output := transcript.output ++ text }
  | .log entry =>
    let record := entry.record
    let line := record.line time ++ "\n"
    let transcript :=
      if settings.threshold ≤ record.level then
        { transcript with errors := transcript.errors ++ record.colouredLine time ++ "\n" }
      else transcript
    match settings.report with
    | some .standardOutput => { transcript with output := transcript.output ++ line }
    | some (.file _) => { transcript with report := transcript.report ++ line }
    | _ => transcript

/-- The transcript of some events. -/
def Transcript.ofEvents (settings : Settings) (time : String) (events : List Event) : Transcript :=
  events.foldl (Transcript.add settings time) {}

/-- What is left behind when a command goes on from the outcome of reading its command line; `text`
is the expression if the command line holds none. -/
def Command.complete (command : Command) (outcome : Outcome) (platform : Platform)
    (time text : String) : Transcript × Exit :=
  match outcome with
  | .ready settings =>
    let (events, exit) := command.execute platform settings (settings.expression.getD text)
    (Transcript.ofEvents settings time events, exit)
  | .help => ({ output := command.help }, .status 0)
  | .version => ({ output := platform.versionLine ++ "\n" }, .status 0)
  | .faulty fault =>
    ({ errors := command.usage ++ command.program ++ ": error: " ++ fault.message ++ "\n" },
      .status 2)

/-- Whether a command goes on to ask for its expression. -/
def Outcome.asks : Outcome → Bool
  | .ready settings => settings.asks
  | _ => false

/-- The file that a command goes on to write its log to. -/
def Outcome.report? : Outcome → Option Report
  | .ready settings => settings.report
  | _ => none

/-- The command that the words after the program's name choose, with its own words. -/
def dispatch? : List String → Option (Command × List String)
  | "check" :: words => some (.check, words)
  | "run" :: words => some (.run, words)
  | _ => none

end ArithLang.CommandLine
