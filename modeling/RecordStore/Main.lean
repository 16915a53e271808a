import RecordStore.CommandLine.Run

/-!
# The program

The program takes a run of the library to the real files and streams. Files are read when a run
first needs them, and written back when it has changed them. An interactive session is read line
by line, and what a line prints is written before the next is read.
-/

namespace RecordStore.CommandLine

open RecordStore.Text

/-- How the program is called. -/
def usage : String :=
  "Usage: flatstore [OPTIONS] [COMMAND]\n\n" ++
  "Commands:\n" ++
  "  import <FILES>...  Import delimited records from files\n" ++
  "  query <QUERY>      Run a query\n" ++
  "  get <KEY>          Show the record stored under a composite key\n" ++
  "  delete <KEY>       Delete the record stored under a composite key\n\n" ++
  "Options:\n" ++
  "  -v, --verbose\n  -f, --format <text|json|table>\n  -i, --interactive\n" ++
  "  -c, --config <FILE>\n  -d, --datastore <FILE>\n      --schema <FILE>\n" ++
  "      --log-file <FILE>\n      --client-id <ID>\n      --secret <SECRET>\n  -h, --help\n"

/-- The prompt of an interactive session on a terminal. -/
def prompt : String := "flatstore> "

/-! ## Files -/

/-- The names of the places that a path leads through, the last of which is its end. -/
def placesOf (path : String) : List String :=
  let fromRoot := path.toList.head? == some '/'
  let parts := (split '/' path).filter fun part => part != "" && part != "."
  (List.range parts.length).map fun i =>
    Disk.joinName fromRoot ((parts.take (i + 1)).foldl (Disk.enter fromRoot) [])

/-- The disk with the file or directory of a name, if there is one and it is not on it yet. What
    can be opened but not read is a directory. -/
def loadPlace (disk : Disk) (name : String) : IO Disk := do
  if name == Disk.nullDevice || (disk.contents? name).isSome then return disk
  match ← (IO.FS.Handle.mk name .read).toBaseIO with
  | .error _ => return disk
  | .ok _ =>
    match ← (IO.FS.readBinFile name).toBaseIO with
    | .ok bytes => return disk.setContents name bytes.data.toList
    | .error _ => return { disk with directories := disk.directories ++ [name] }

/-- The disk with all that paths lead through. -/
def load (disk : Disk) (paths : List String) : IO Disk :=
  (paths.flatMap placesOf).foldlM loadPlace disk

/-- Writes the files that differ from those of an earlier disk. -/
def store (before after : Disk) : IO Unit :=
  after.files.forM fun (name, contents) =>
    if before.contents? name == some contents then return
    else IO.FS.writeBinFile name ⟨contents.toArray⟩

/-- The paths that a command reads. -/
def Command.paths : Command → List String
  | .importFiles paths => paths
  | .query _ | .get _ | .delete _ => []

/-- The paths that settings name. -/
def pathsOf (config : Config) : List String :=
  config.connection.toOption.toList ++ config.logFile.toList ++ config.schemaPath.toList ++
    [config.historyPath]

/-- The paths that a line of an interactive session reads. -/
def linePaths (line : String) : List String :=
  match Entry.ofLine line with
  | .ok (.perform command) => command.paths
  | _ => []

/-! ## Runs -/

/-- Sixteen random bytes in hexadecimal digits. -/
def drawToken : IO String := do
  let bytes ← IO.getRandomBytes 16
  return String.ofList <| bytes.data.toList.flatMap fun b =>
    [Nat.digitChar (b.toNat / 16), Nat.digitChar (b.toNat % 16)]

/-- Writes what a run leaves, and gives its status. -/
def conclude (before : Disk) (result : Result) : IO UInt32 := do
  IO.print result.output
  IO.eprint result.report
  store before result.disk
  return UInt32.ofNat result.status

/-- Takes an interactive session from line to line until it ends. -/
partial def converse (terminal : Bool) (disk : Disk) (shell : Shell) : IO UInt32 := do
  store disk shell.client.disk
  IO.print shell.client.printed
  if terminal then IO.print prompt
  (← IO.getStdout).flush
  let line ← (← IO.getStdin).getLine
  let disk ← load shell.client.disk (linePaths line)
  let shell := { shell with client := { shell.client.withDisk disk with printed := "" } }
  if line.isEmpty then conclude disk shell.result
  else
    match shell.step line with
    | (shell, true) => converse terminal disk shell
    | (shell, false) => conclude disk shell.result

/-- Carries out a run. -/
def start (o : Options) (command : Option Command) : IO UInt32 := do
  let disk ← load Disk.empty o.config.toList
  let disk ← match settings o disk with
    | .ok config => load disk (pathsOf config)
    | .error _ => pure disk
  let disk ← load disk (command.toList.flatMap Command.paths)
  match begin o command (← (← IO.getStdout).isTty) (← drawToken) disk with
  | .ended printed outcome after => conclude disk (Result.make printed outcome after)
  | .session shell => converse (← (← IO.getStdin).isTty) disk shell

end RecordStore.CommandLine

open RecordStore.CommandLine in
/-- The program, called with its arguments. -/
def main (args : List String) : IO UInt32 := do
  match readArguments args with
  | .ok (o, command) => start o command
  | .error .help => IO.print usage; return 0
  | .error .misuse => IO.eprint usage; return 2
