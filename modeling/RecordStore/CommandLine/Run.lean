import RecordStore.CommandLine.Shell
import RecordStore.Config

/-!
# Running the program

A run reads the settings, opens the datastore, carries out the command, and, when there is none or
the options ask for it, goes on with an interactive session. It gives the text printed, the report
of the failure that ended it, if one did, and the disk as it is afterwards. The route:

  * `settings`     the settings of the configuration file, overruled by the options;
  * `prepare`      the log file, the schema, the datastore and the session with it;
  * `begin`        the command, and the interactive session, if there is to be one;
  * `run`          all of it, with the input of the interactive session given as a whole.
-/

namespace RecordStore.CommandLine

open RecordStore.Output RecordStore.Text

/-- The secret where none is given. -/
def defaultSecret : String := "flatstore"

/-- Work on a disk that can fail, and leaves the disk as it is then. -/
abbrev OnDisk := EStateM Failure Disk

/-- The result, or a failure that is reported behind what it kept from being done. -/
def orFail {α : Type} (what : String) : Except StoreError α → OnDisk α
  | .ok a => pure a
  | .error e => throw ((Failure.ofError e).within what)

/-- The settings, where those of the options come first. -/
def Options.overrule (o : Options) (config : Config) : Config :=
  { config with
    datastorePath := (o.datastore.map encode).getD config.datastorePath
    logFile := o.logFile.or config.logFile
    schemaPath := o.schema.or config.schemaPath
    client := o.client.getD config.client }

/-- The settings of a run. -/
def settings (o : Options) (disk : Disk) : Except Failure Config :=
  match o.config with
  | none => .ok (o.overrule Config.default)
  | some path =>
    match Config.load disk path with
    | .ok config => .ok (o.overrule config)
    | .error e => .error ((Failure.ofError e).within ("Unable to load configuration " ++ path))

/-- Makes the log file empty. -/
def createLog (config : Config) : OnDisk Unit := do
  let some path := config.logFile | return
  match (← get).write path [] with
  | .ok disk => set disk
  | .error fault =>
    throw ((Failure.ofFault fault).within ("Unable to create log file " ++ path))

/-- Opens the datastore in the file at a path. -/
def openDatastore (schema : Schema) (path : String) : OnDisk (Datastore FileStore) := do
  let (store, outcome) := Datastore.make (FileStore.new schema (← get)) path
  set store.disk
  match outcome with
  | .ok datastore => return datastore
  | .error e => throw (.ofError e)

/-- Opens a session with the datastore. -/
def prepare (o : Options) (config : Config) (color : Bool) (token : String) :
    OnDisk Client := do
  createLog config
  let schema ← orFail "Unable to load the record schema" (config.schema (← get))
  let path ← match config.connection with
    | .ok path => pure path
    | .error e => throw (.ofError e)
  let datastore ← openDatastore schema path
  let (datastore, outcome) := datastore.connect config.client (o.secret.getD defaultSecret) token
  let credentials ← orFail ("Unable to connect as " ++ config.client) outcome
  return ⟨datastore, credentials, ⟨o.format.getD .text, color⟩, ""⟩

/-- A run after its command: either it is over, or an interactive session has begun. -/
inductive Begun where
  | ended (printed : String) (outcome : Except Failure Unit) (disk : Disk)
  | session (shell : Shell)

namespace Begun

/-- A run that is over when a client gives its last reply. -/
def ofReply : Reply → Begun
  | (c, outcome) => .ended c.printed outcome c.disk

/-- The disk as it is now. -/
def disk : Begun → Disk
  | ended _ _ disk => disk
  | session shell => shell.client.disk

end Begun

/-- The run of a client: its command and, where there is to be one, the beginning of an interactive
    session. A client that carried out its last command closes the datastore; that this fails is
    reported before the failure of the command. -/
def beginWith (o : Options) (config : Config) (command : Option Command) (c : Client) : Begun :=
  let (c, outcome) := match command with
    | some command => c.perform command
    | none => (c, .ok ())
  match outcome, o.interactive || command.isNone with
  | .ok _, true => .session (Shell.start c config.historyPath config.historySize)
  | _, _ =>
    let (c, closed) := c.close
    .ofReply (c, closed >>= fun _ => outcome)

/-- Begins a run. -/
def begin (o : Options) (command : Option Command) (color : Bool) (token : String) (disk : Disk) :
    Begun :=
  match settings o disk with
  | .error f => .ended "" (.error f) disk
  | .ok config =>
    match (prepare o config color token).run disk with
    | .error f disk => .ended "" (.error f) disk
    | .ok c _ => beginWith o config command c

/-- What a run leaves. -/
structure Result where
  status : Nat
  output : String
  report : String
  disk : Disk
  deriving Repr, DecidableEq

/-- What a run leaves that is over. -/
def Result.make (printed : String) (outcome : Except Failure Unit) (disk : Disk) : Result :=
  match outcome with
  | .ok _ => ⟨0, printed, "", disk⟩
  | .error f => ⟨1, printed, f.report, disk⟩

/-- What a session leaves. -/
def Shell.result (s : Shell) : Result :=
  let (c, outcome) := s.finish
  Result.make c.printed outcome c.disk

/-- A run on given input. -/
def run (o : Options) (command : Option Command) (color : Bool) (token : String) (input : String)
    (disk : Disk) : Result :=
  match begin o command color token disk with
  | .ended printed outcome disk => Result.make printed outcome disk
  | .session shell => (shell.steps (split '\n' input)).result

end RecordStore.CommandLine
