import ArithLang.CommandLine.Run
import Std.Time

/-!
# The command line program

Opens files, asks for the expression, and writes what a run leaves behind. All decisions are made
by the functions it calls.
-/

namespace ArithLang.CommandLine

/-- The error of a file that cannot be opened. -/
def OpenError.ofIO : IO.Error → OpenError
  | .noFileOrDirectory _ _ _ => ⟨2, "No such file or directory"⟩
  | .permissionDenied _ _ _ => ⟨13, "Permission denied"⟩
  | .inappropriateType _ code text => ⟨code.toNat, text⟩
  | .invalidArgument _ code text => ⟨code.toNat, text⟩
  | error => ⟨5, error.toString⟩

/-- Opens some files in order, up to the first that cannot be opened. -/
def openFiles : List String → IO (Option Fault)
  | [] => return none
  | path :: rest => do
    try
      let _ ← IO.FS.Handle.mk path .write
      openFiles rest
    catch error => return some (.cannotOpen path (.ofIO error))

/-- Asks for the expression: with a prompt on a terminal, without one elsewhere. -/
def askExpression : IO String := do
  let input ← IO.getStdin
  if ← input.isTty then
    IO.print "> "
    (← IO.getStdout).flush
  return firstLine (← input.getLine)

/-- The time of a log record. -/
def timeText : IO String := do
  return (← Std.Time.PlainDateTime.now).format "uuuu-MM-dd HH:mm:ss,SSS"

/-- What the program runs on, as far as the surroundings say. -/
def platform : IO Platform := do
  return ⟨"Lean", "4", (← IO.getEnv "OSTYPE").getD "an unknown system"⟩

/-- Runs a command, and answers its exit status. -/
def Command.perform (command : Command) (words : List String) : IO UInt32 := do
  let (outcome, named) := command.read words
  let outcome := match ← openFiles named with
    | some fault => .faulty fault
    | none => outcome
  let text ← if outcome.asks then askExpression else pure ""
  let (transcript, exit) := command.complete outcome (← platform) (← timeText) text
  IO.print transcript.output
  IO.eprint transcript.errors
  if let some (.file path) := outcome.report? then
    IO.FS.writeFile path transcript.report
  match exit with
  | .status code => return code.toUInt32
  | .broken _ =>
    IO.eprintln "The run was broken off."
    return 1

end ArithLang.CommandLine

open ArithLang.CommandLine in
/-- Runs the command that the first word chooses, or says which there are. -/
def main (words : List String) : IO UInt32 := do
  match dispatch? words with
  | some (command, words) => command.perform words
  | none =>
    IO.print welcome
    return 0
