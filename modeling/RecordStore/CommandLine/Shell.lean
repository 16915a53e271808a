import RecordStore.CommandLine.Client
import RecordStore.History

/-!
# Interactive sessions

In an interactive session every line of input is carried out when it is read. A line that begins
with a point is a command of the session, its name and its argument parted by white space; any
other line that is not blank is a query. A failure is printed, and the session goes on. Every line
also becomes part of the history, which is saved when the session ends.
-/

namespace RecordStore.CommandLine

open RecordStore.Output RecordStore.Text

/-- What a line asks for. -/
inductive Entry where
  | blank
  | help
  | exit
  | perform (command : Command)
  | setFormat (format : Format)
  | showHistory (pattern : Option String)
  deriving Repr, DecidableEq

/-- Why a line asks for nothing. -/
inductive EntryFault where
  | unknownCommand (name : String)
  | usage (form : String)
  | unknownFormat (word : String)
  deriving Repr, DecidableEq

/-- The wording of a fault. -/
def EntryFault.message : EntryFault → String
  | unknownCommand name => "Unknown command: ." ++ name
  | usage form => "Usage: " ++ form
  | unknownFormat word => "Unknown output format: " ++ word

/-! ## Reading lines -/

/-- The name of a command and its argument, if it has one. -/
def splitName (cs : List Char) : String × Option String :=
  match splitAtFirst? isBlank cs with
  | none => (String.ofList cs, none)
  | some (name, rest) =>
    let argument := trimChars rest
    (String.ofList name, if argument.isEmpty then none else some (String.ofList argument))

/-- What a command asks for. -/
def Entry.ofCommand (name : String) (argument : Option String) : Except EntryFault Entry :=
  match name, argument with
  | "help", _ => .ok .help
  | "exit", _ | "quit", _ => .ok .exit
  | "import", some path => .ok (.perform (.importFiles [path]))
  | "import", none => .error (.usage ".import <file>")
  | "get", some key => .ok (.perform (.get key))
  | "get", none => .error (.usage ".get <key>")
  | "delete", some key => .ok (.perform (.delete key))
  | "delete", none => .error (.usage ".delete <key>")
  | "format", some word =>
    match Format.ofWord? word with
    | some format => .ok (.setFormat format)
    | none => .error (.unknownFormat word)
  | "format", none => .error (.usage ".format <text|json|table>")
  | "history", pattern => .ok (.showHistory pattern)
  | name, _ => .error (.unknownCommand name)

/-- What a line asks for. -/
def Entry.ofLine (line : String) : Except EntryFault Entry :=
  match trimChars line.toList with
  | [] => .ok .blank
  | '.' :: cs =>
    let (name, argument) := splitName cs
    Entry.ofCommand name argument
  | cs => .ok (.perform (.query (String.ofList cs)))

/-! ## Carrying lines out -/

/-- An interactive session: its client and its history. -/
structure Shell where
  client : Client
  history : History

namespace Shell

/-- The lines of the help. -/
def helpLines : List String := [
  "Available commands:",
  "  .help                      Show this help",
  "  .exit, .quit               Leave the REPL",
  "  .import <file>             Import delimited records from a file",
  "  .get <key>                 Show the record stored under a composite key",
  "  .delete <key>              Delete the record stored under a composite key",
  "  .format <text|json|table>  Set the output format",
  "  .history [pattern]         Show command history, optionally filtered",
  "",
  "Anything else is run as a query, e.g. -s title,rev:sum -g title -o title"]

/-- The client after printing lines. -/
def sayAll (c : Client) (lines : List String) : Client := lines.foldl Client.say c

/-- Begins a session. What cannot be loaded of the history is missing from it. -/
def start (client : Client) (path : String) (limit : Nat) : Shell where
  client := (client.tell .info "flatstore interactive mode").tell .info
    "Type .help for help or .exit to quit"
  history := ((History.new path limit).load client.disk).1

/-- Prints commands with their numbers, from one. -/
def showCommands (c : Client) (commands : List String) : Client :=
  if commands.isEmpty then c.tell .info "History is empty"
  else sayAll c (commands.zipIdx.map fun (command, i) => toString (i + 1) ++ ": " ++ command)

/-- The client after what a line asks for. -/
def enter (s : Shell) : Entry → Client
  | .blank | .exit => s.client
  | .help => sayAll s.client helpLines
  | .perform command =>
    match s.client.perform command with
    | (c, .ok _) => c
    | (c, .error f) => c.tell .error f.line
  | .setFormat format =>
    let c := { s.client with writer := { s.client.writer with format := format } }
    c.tell .success ("Output format set to " ++ format.name)
  | .showHistory none => showCommands s.client s.history.commands
  | .showHistory (some pattern) => showCommands s.client (s.history.search pattern)

/-- The session after a line, and whether it goes on. -/
def step (s : Shell) (line : String) : Shell × Bool :=
  let s := { s with history := s.history.add line }
  match Entry.ofLine line with
  | .ok entry => ({ s with client := s.enter entry }, entry != .exit)
  | .error fault => ({ s with client := s.client.tell .error fault.message }, true)

/-- The session after lines, up to the one that ends it. -/
def steps (s : Shell) : List String → Shell
  | [] => s
  | line :: lines =>
    match s.step line with
    | (s, true) => s.steps lines
    | (s, false) => s

/-- Ends a session: saves the history, and then closes the datastore. -/
def finish (s : Shell) : Reply :=
  match s.history.save s.client.disk with
  | .error fault => (s.client, .error (.ofFault fault))
  | .ok disk => (s.client.withDisk disk).close

end Shell

end RecordStore.CommandLine
