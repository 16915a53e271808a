import RecordStore.Disk
import RecordStore.Text.Basic
import RecordStore.Text.Bytes

/-!
# The history of commands

The commands given in interactive sessions, oldest first, of which a limited number is kept. A
command is added without the white space around it, unless it is blank or the same as the last.
The history is kept in a file with a command on each line; blank lines of the file are passed over.

A line that is no text ends the loading with a fault. What was loaded before it stays, and the
limit is not applied to it.
-/

namespace RecordStore

open RecordStore.Text

/-- The commands given, oldest first, how many may be kept, and the path of the file for them. -/
structure History where
  path : String
  commands : List String
  limit : Nat
  deriving Repr, DecidableEq

namespace History

/-- A history without commands. -/
def new (path : String) (limit : Nat) : History := ⟨path, [], limit⟩

/-- The last `n` elements. -/
def lastOnes {α : Type} (n : Nat) (l : List α) : List α := l.drop (l.length - n)

/-- A line without its line feed and the carriage return before that. -/
def lineText (line : Bytes) : Except Malformed String :=
  (decode line).map fun text =>
    match text.toList.reverse with
    | '\n' :: '\r' :: cs => String.ofList cs.reverse
    | '\n' :: cs => String.ofList cs.reverse
    | _ => text

/-- The commands on lines, up to the first that is no text, and whether there is such a line. -/
def readLines : List Bytes → List String × Except Disk.Fault Unit
  | [] => ([], .ok ())
  | line :: rest =>
    match lineText line with
    | .error _ => ([], .error .notText)
    | .ok text =>
      let (commands, outcome) := readLines rest
      (if isBlankText text then commands else text :: commands, outcome)

/-- Loads the file, if there is one. -/
def load (h : History) (disk : Disk) : History × Except Disk.Fault Unit :=
  if disk.pathExists h.path then
    match disk.openFile h.path with
    | .error fault => (h, .error fault)
    | .ok (.error fault) => ({ h with commands := [] }, .error fault)
    | .ok (.ok handle) =>
      match readLines (lines (disk.read handle)) with
      | (commands, .error fault) => ({ h with commands := commands }, .error fault)
      | (commands, .ok _) => ({ h with commands := lastOnes h.limit commands }, .ok ())
  else (h, .ok ())

/-- The contents of the file for the commands. -/
def contents (h : History) : Bytes := h.commands.flatMap fun command => encode command ++ [lineFeed]

/-- Writes the file. -/
def save (h : History) (disk : Disk) : Except Disk.Fault Disk := disk.write h.path h.contents

/-- Adds a command. Beyond the limit the oldest is given up. -/
def add (h : History) (command : String) : History :=
  let command := trim command
  if command.isEmpty || h.commands.getLast? == some command then h
  else
    let commands := h.commands ++ [command]
    { h with commands := if h.limit < commands.length then commands.tail else commands }

/-- Whether a list occurs in another without a gap. -/
def occursIn (part : List Char) : List Char → Bool
  | [] => part.isEmpty
  | c :: cs => part.isPrefixOf (c :: cs) || occursIn part cs

/-- The commands that contain a text. -/
def search (h : History) (pattern : String) : List String :=
  h.commands.filter fun command => occursIn pattern.toList command.toList

end History

end RecordStore
