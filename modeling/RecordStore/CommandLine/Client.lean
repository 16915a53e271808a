import RecordStore.CommandLine.Arguments
import RecordStore.Datastore
import RecordStore.Error
import RecordStore.Store.File
import RecordStore.Text.Basic

/-!
# Clients of the command line

What a client of the command line does with a datastore, and how it reports a failure.
-/

namespace RecordStore.CommandLine

open RecordStore.Output

/-!
## Failures as they are reported

What is reported of a failure is what could not be done and the causes behind it, from the nearest
to the farthest. In a session a failure is one line. At the end of the program it is a report, in
which each cause stands on lines of its own.
-/

/-- What could not be done, and the causes, nearest first. -/
structure Failure where
  what : String
  causes : List String
  deriving Repr, DecidableEq

namespace Failure

/-- The failure of the library. -/
def ofError (e : StoreError) : Failure := ⟨e.message, e.causes⟩

/-- The failure of an operation on a file. -/
def ofFault (fault : Disk.Fault) : Failure := ⟨fault.message, []⟩

/-- The failure behind another one. -/
def within (what : String) (f : Failure) : Failure := ⟨what, f.what :: f.causes⟩

/-- The failure on one line. -/
def line (f : Failure) : String := ": ".intercalate (f.what :: f.causes)

/-- A text behind a margin. Its further lines begin with as many spaces as the margin has
    characters. -/
def indent (margin : String) (s : String) : String :=
  margin ++
    ("\n" ++ String.ofList (List.replicate margin.length ' ')).intercalate (Text.split '\n' s)

/-- The margin of a cause that is not the only one: its number, right-aligned. -/
def margin (i : Nat) : String :=
  let digits := toString i
  String.ofList (List.replicate (5 - digits.length) ' ') ++ digits ++ ": "

/-- The causes of a failure, numbered if there are several. -/
def indentedCauses : List String → List String
  | [cause] => [indent "    " cause]
  | causes => causes.zipIdx.map fun (cause, i) => indent (margin i) cause

/-- The report of a failure. -/
def report (f : Failure) : String :=
  let causes := match f.causes with
    | [] => ""
    | causes => "\n\nCaused by:\n" ++ "\n".intercalate (indentedCauses causes)
  "Error: " ++ f.what ++ causes ++ "\n"

end Failure

/-!
## A client of a datastore in a file

A client has an open datastore, a session with it, and a writer for what it prints. Every command
of the command line and of an interactive session is carried out by a client, which prints what
comes of it or gives back the failure that ended it.
-/

/-- An open datastore with a session, and what has been printed so far. -/
structure Client where
  datastore : Datastore FileStore
  credentials : Credentials
  writer : Writer
  printed : String

/-- A client after a command, and the failure that ended the command, if one did. -/
abbrev Reply := Client × Except Failure Unit

namespace Client

/-- The disk as the client has left it. -/
def disk (c : Client) : Disk := c.datastore.store.disk

/-- The client on another disk. -/
def withDisk (c : Client) (disk : Disk) : Client :=
  { c with datastore := { c.datastore with store := { c.datastore.store with disk := disk } } }

/-- The client after printing a line. -/
def say (c : Client) (s : String) : Client := { c with printed := c.printed ++ s ++ "\n" }

/-- The client after printing a message. -/
def tell (c : Client) (tone : Tone) (s : String) : Client := c.say (c.writer.message tone s)

/-- Imports a file. -/
def importFile (c : Client) (path : String) : Reply :=
  let imported := c.datastore.importFile c.credentials FileStore.disk path
  let c := { c with datastore := imported.datastore }
  match imported.outcome with
  | .ok report =>
    (c.tell .success <|
      "Imported " ++ toString report.imported ++ " records from " ++ path ++ " (" ++
        toString report.skipped ++ " skipped)", .ok ())
  | .error e => (c, .error ((Failure.ofError e).within ("Import of " ++ path ++ " failed")))

/-- Imports files, up to the first that fails. -/
def importFiles (c : Client) : List String → Reply
  | [] => (c, .ok ())
  | path :: paths =>
    match c.importFile path with
    | (c, .ok _) => c.importFiles paths
    | (c, .error f) => (c, .error f)

/-- Runs a query and prints the result. -/
def query (c : Client) (text : String) : Reply :=
  match c.datastore.query c.credentials text with
  | .ok table => (c.say (c.writer.table table), .ok ())
  | .error e => (c, .error (.ofError e))

/-- What is said where there is no record. -/
def noRecord (key : String) : String := "No record with key " ++ key

/-- Prints the record with a key. -/
def get (c : Client) (key : String) : Reply :=
  match c.datastore.get c.credentials key with
  | .ok (some r) => (c.say (c.writer.record r), .ok ())
  | .ok none => (c.tell .info (noRecord key), .ok ())
  | .error e => (c, .error (.ofError e))

/-- Deletes the record with a key. -/
def delete (c : Client) (key : String) : Reply :=
  let (datastore, outcome) := c.datastore.delete c.credentials key
  let c := { c with datastore := datastore }
  match outcome with
  | .ok true => (c.tell .success ("Deleted record " ++ key), .ok ())
  | .ok false => (c.tell .info (noRecord key), .ok ())
  | .error e => (c, .error (.ofError e))

/-- Carries out a command. -/
def perform (c : Client) : Command → Reply
  | .importFiles paths => c.importFiles paths
  | .query text => c.query text
  | .get key => c.get key
  | .delete key => c.delete key

/-- Ends the session and closes the datastore. -/
def close (c : Client) : Reply :=
  let (datastore, outcome) := (c.datastore.disconnect c.credentials).close
  ({ c with datastore := datastore }, outcome.mapError Failure.ofError)

end Client

end RecordStore.CommandLine
