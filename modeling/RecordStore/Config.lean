import RecordStore.Disk
import RecordStore.Json
import RecordStore.Schema.Basic

/-!
# Configuration

What a datastore is told by files beforehand: the schema of its records, and where and how they are
kept.
-/

namespace RecordStore.Schema

/-!
## Schemas as they are described in JSON

A schema is described by its `fields` and its `key`. A field has a `name`, a `kind`, which is text
unless it is given, and a `max_len`, which may be missing or null.
-/

open Json

/-- The kind of a field. -/
def kindOfJson? : Json → Option Kind := choice? Kind.ofKeyword?

/-- A field. -/
def fieldOfJson? (value : Json) : Option Field := do
  match ← members? ["name", "kind", "max_len"] value with
  | [name, kind, maxLength] =>
    return {
      name := ← required? text? name
      kind := ← optional? .text kindOfJson? kind
      maxLength := ← optional? none (nullable? word?) maxLength }
  | _ => none

/-- The fields and the key of a schema. -/
def partsOfJson? (value : Json) : Option (List Field × List String) := do
  match ← members? ["fields", "key"] value with
  | [fields, key] =>
    return (← required? (list? fieldOfJson?) fields, ← required? (list? text?) key)
  | _ => none

/-- The schema that a text describes. -/
def parse (s : String) : Except StoreError Schema :=
  match read? s with
  | none => .error (.json .notJson)
  | some value =>
    match partsOfJson? value with
    | none => .error (.json .wrongShape)
    | some (fields, key) => make fields key

end RecordStore.Schema

namespace RecordStore

/-!
## Settings

Where the data, the log, the schema and the history are, who the client is, and how long the
history may become. Settings are read from a JSON file, in which every member may be missing; a
missing member has its value in `Config.default`.

A path is a sequence of bytes that need not be text. Only text can be connected to, so a datastore
path that is none is refused there and shown with replacements.
-/

open RecordStore.Text

/-- The settings. -/
structure Config where
  datastorePath : Bytes
  logFile : Option String
  schemaPath : Option String
  client : String
  historyPath : String
  historySize : Nat
  deriving Repr, DecidableEq

namespace Config

/-- The settings where nothing else is said. -/
def default : Config where
  datastorePath := encode "./datastore.sds"
  logFile := none
  schemaPath := none
  client := "local"
  historyPath := "flatstore_history.txt"
  historySize := 1000

open Json in
/-- The settings of a JSON value. -/
def ofJson? (value : Json) : Option Config := do
  let names :=
    ["datastore_path", "log_file", "schema_path", "client_id", "history_path", "history_size"]
  match ← members? names value with
  | [datastorePath, logFile, schemaPath, client, historyPath, historySize] =>
    let path := fun v => (text? v).map encode
    return {
      datastorePath := ← optional? default.datastorePath path datastorePath
      logFile := ← optional? default.logFile (nullable? text?) logFile
      schemaPath := ← optional? default.schemaPath (nullable? text?) schemaPath
      client := ← optional? default.client text? client
      historyPath := ← optional? default.historyPath text? historyPath
      historySize := ← optional? default.historySize word? historySize }
  | _ => none

/-- The settings that a text describes. -/
def parse (s : String) : Except StoreError Config :=
  match Json.read? s with
  | none => .error (.json .notJson)
  | some value =>
    match ofJson? value with
    | none => .error (.json .wrongShape)
    | some config => .ok config

/-- The settings in the file at a path. -/
def load (disk : Disk) (path : String) : Except StoreError Config :=
  match disk.readText path with
  | .error fault => .error (.config (.unreadableConfig path fault))
  | .ok text => parse text

/-- The schema in the file at a path. -/
def loadSchema (disk : Disk) (path : String) : Except StoreError Schema :=
  match disk.readText path with
  | .error fault => .error (.config (.unreadableSchema path fault))
  | .ok text => Schema.parse text

/-- The schema of the records: that of the schema file, or the one for media views. -/
def schema (config : Config) (disk : Disk) : Except StoreError Schema :=
  match config.schemaPath with
  | some path => loadSchema disk path
  | none => .ok Schema.mediaViews

/-- The datastore path as a text to connect to. -/
def connection (config : Config) : Except StoreError String :=
  match decode config.datastorePath with
  | .ok path => .ok path
  | .error _ => .error (.config (.pathNotText (decodeLossy config.datastorePath)))

end Config

end RecordStore
