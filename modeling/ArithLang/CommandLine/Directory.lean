import ArithLang.CommandLine.Run

/-!
# The files of a run

A directory without subdirectories in which a run makes its files, and a whole run in it: reading
the command line, opening the files named for the log, and what the command does.

A file is opened by its path, which is followed name by name. Outside the directory only its
ancestors and the null device are known to exist, so a path that leads elsewhere names nothing. A
file that would be made in an ancestor leaves no trace here, nor does what the null device is sent.
Opening a file makes it, or empties it if it is there.
-/

namespace ArithLang.CommandLine

/-- A directory: its files with their texts. -/
structure Directory where
  /-- The names and texts of the files, in the order in which they were made. -/
  files : List (String × String) := []
deriving DecidableEq, Repr

namespace OpenError

/-- A name on the path names nothing. -/
def noEntry : OpenError := ⟨2, "No such file or directory"⟩

/-- A name in the middle of the path names a file. -/
def notDirectory : OpenError := ⟨20, "Not a directory"⟩

/-- The path names a directory. -/
def isDirectory : OpenError := ⟨21, "Is a directory"⟩

/-- A name on the path is longer than 255 bytes, or the whole path longer than 4095. -/
def nameTooLong : OpenError := ⟨36, "File name too long"⟩

end OpenError

namespace Directory

/-- Sets the text of a file, which is made if need be. -/
def write (directory : Directory) (name text : String) : Directory :=
  if directory.files.any fun file => file.1 == name then
    ⟨directory.files.map fun file => if file.1 == name then (name, text) else file⟩
  else ⟨directory.files ++ [(name, text)]⟩

/-- Follows the names of a path from the ancestor `levels` above the directory. The result is the
name of the file in the directory, or `none` for a file outside it. -/
def follow (directory : Directory) : Nat → List String → Except OpenError (Option String)
  | _, [] => .error .isDirectory
  | levels, name :: rest =>
    if name = "" ∨ name = "." then directory.follow levels rest
    else if name = ".." then directory.follow (levels + 1) rest
    else if rest.isEmpty then
      if 255 < name.utf8ByteSize then .error .nameTooLong
      else .ok (if levels = 0 then some name else none)
    else if rest.all (· == "") then .error .isDirectory
    else if 255 < name.utf8ByteSize then .error .nameTooLong
    else if levels = 0 ∧ directory.files.any fun file => file.1 == name then .error .notDirectory
    else .error .noEntry

/-- The file that a path names, `none` if it is outside the directory. -/
def locate (directory : Directory) (path : String) : Except OpenError (Option String) :=
  if 4095 < path.utf8ByteSize then .error .nameTooLong
  else
    match path.splitOn "/" with
    | [""] => .error .noEntry
    | ["", "dev", "null"] => .ok none
    | "" :: names =>
      if names.all fun name => name == "" || name == "." || name == ".." then .error .isDirectory
      else .error .noEntry
    | names => directory.follow 0 names

/-- Opens a file for writing. -/
def openFile (directory : Directory) (path : String) : Except OpenError Directory := do
  match ← directory.locate path with
  | some name => return directory.write name ""
  | none => return directory

/-- Opens some files in order, up to the first that cannot be opened. -/
def openAll (directory : Directory) : List String → Directory × Option Fault
  | [] => (directory, none)
  | path :: rest =>
    match directory.openFile path with
    | .ok directory => directory.openAll rest
    | .error error => (directory, some (.cannotOpen path error))

/-- Writes the text of a report to the file that was opened for it. -/
def writeReport (directory : Directory) (report : Option Report) (text : String) : Directory :=
  match report with
  | some (.file path) =>
    match directory.locate path with
    | .ok (some name) => directory.write name text
    | _ => directory
  | _ => directory

end Directory

/-- The outcome of reading a command line once the files named in it have been opened: a file that
cannot be opened ends the reading where it is named. -/
def Command.readIn (command : Command) (directory : Directory) (words : List String) :
    Outcome × Directory :=
  let (outcome, named) := command.read words
  match directory.openAll named with
  | (directory, some fault) => (.faulty fault, directory)
  | (directory, none) => (outcome, directory)

end ArithLang.CommandLine
