import ArithLang.CommandLine.Option

/-!
# Help texts

What the commands say about themselves.
-/

namespace ArithLang.CommandLine

/-- Lines of text, each with a line feed at its end. -/
def lines (texts : List String) : String := String.join (texts.map (· ++ "\n"))

/-- The name of a command on the command line. -/
def Command.program : Command → String
  | .run => "sel-run"
  | .check => "sel-check"

/-- How a command is called. -/
def Command.usage : Command → String
  | .run => lines
    ["usage: sel-run [-h] [--log log-level] [--report report-file] [--verbose]",
      "               [--version] [--ast] [--emit \x7ball,eval,lisp,c\x7d]",
      "               [expression]"]
  | .check => lines
    ["usage: sel-check [-h] [--log log-level] [--report report-file] [--verbose]",
      "                 [--version]",
      "                 [expression]"]

/-- What a command does. -/
def Command.description : Command → String
  | .run => lines
    [" Expression evaluator and translator.",
      "",
      "Parse an expression, then print its value together with its translations",
      "to Lisp and to C. The expression is read from standard input when it is",
      "not given on the command line.",
      "",
      ".. code::",
      "",
      "    $ sel-run \"(4+8)*15\""]
  | .check => lines
    ["Expression syntax checker. Check whether an expression is valid, without",
      "evaluating it."]

/-- What the argument and the options of every command are for. -/
def commonArguments : String := lines
  ["positional arguments:",
    "  expression            the expression, read from standard input when omitted",
    "",
    "options:",
    "  -h, --help            show this help message and exit",
    "  --log log-level       Log level (debug,info,warning,error)",
    "  --report report-file  Specify a file to write the log to",
    "  --verbose, -v         Increase verbosity of the output",
    "  --version, -V         Display version and exit"]

/-- What the further options of a command are for. -/
def Command.furtherOptions : Command → String
  | .run => lines
    ["  --ast                 Print the syntax tree",
      "  --emit \x7ball,eval,lisp,c\x7d",
      "                        Which results to print"]
  | .check => ""

/-- The help text of a command. -/
def Command.help (command : Command) : String :=
  command.usage ++ "\n" ++ command.description ++ "\n" ++ commonArguments ++ command.furtherOptions

/-- What the program runs on. It is found out at the start of the program. -/
structure Platform where
  /-- The name of the implementation of the language that the program is written in. -/
  implementation : String
  /-- The version of that language. -/
  version : String
  /-- The operating system. -/
  system : String
deriving DecidableEq, Repr

/-- The line that names the program, its version and what it runs on. -/
def Platform.versionLine (platform : Platform) : String :=
  "sel 0.2.0 on " ++ platform.implementation ++ " " ++ platform.version ++ " on " ++ platform.system

/-- What is said when no command is chosen. -/
def welcome : String := lines
  ["Welcome to the simple expression language command line!",
    "",
    "Please use one of the subcommands below:",
    "  $ python -m sel check -h",
    "  $ python -m sel run -h",
    ""]

end ArithLang.CommandLine
