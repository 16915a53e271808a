import RecordStore.Disk
import RecordStore.Keyed
import RecordStore.Store.Basic

/-!
# A store in a file

The records live in one file, a line each. The file is the truth: a record is found by scanning
the file from its start for the first line with the key, replaced by putting its new line where
the old one was, appended when there is none, and deleted by taking its line out. Beside the file
only the records written through this store are remembered. The route:

  * `locate`     the place of a key: a line, or the end of the file;
  * `splice`     other bytes in the place of some;
  * `upsert`, `delete`   the two changes, each one `locate` and at most one `splice`.

A file whose last line is not terminated gets its line feed before a record is appended.
-/

namespace RecordStore

open RecordStore.Text

/-- Where a key is in a file. -/
inductive Place where
  /-- In the line of `length` bytes that starts at `offset`. -/
  | line (offset length : Nat)
  /-- In none; the file ends at `offset`, and its last line lacks its line feed if
      `needsTerminator`. -/
  | ending (offset : Nat) (needsTerminator : Bool)
  deriving Repr, DecidableEq

/-- The place of a key in lines that start at `offset`, where the line before was terminated. -/
def locateFrom (schema : Schema) (key : String) (offset : Nat) (terminated : Bool) :
    List Bytes → Except StoreError Place
  | [] => .ok (.ending offset (!terminated))
  | line :: rest => do
    let candidate ← Line.record schema line
    if candidate.hasData && candidate.key == key then return .line offset line.length
    else locateFrom schema key (offset + line.length) (line.getLast? == some lineFeed) rest

/-- The place of a key in a file. -/
def locate (schema : Schema) (key : String) (contents : Bytes) : Except StoreError Place :=
  locateFrom schema key 0 true (lines contents)

/-- The contents after bytes were written from an offset on: over what stands there, and on behind
    the end. -/
def overwrite (contents : Bytes) (offset : Nat) (bytes : Bytes) : Bytes :=
  contents.take offset ++ bytes ++ contents.drop (offset + bytes.length)

/-- The contents with other bytes in the place of `length` bytes at `offset`. When there are not as
    many, what stands behind the place is read before they are written, written again behind them,
    and the file is cut off where that ends. -/
def splice (contents : Bytes) (offset length : Nat) (bytes : Bytes) : Bytes :=
  if bytes.length = length then overwrite contents offset bytes
  else
    let tail := contents.drop (offset + length)
    let written := overwrite (overwrite contents offset bytes) (offset + bytes.length) tail
    written.take (offset + bytes.length + tail.length)

/-- Writing at an offset within the contents leaves the bytes before it alone. -/
theorem take_overwrite {contents : Bytes} {offset : Nat} (within : offset ≤ contents.length)
    (bytes : Bytes) :
    (overwrite contents offset bytes).take (offset + bytes.length)
      = contents.take offset ++ bytes := by
  have hlength : (contents.take offset ++ bytes).length = offset + bytes.length := by
    rw [List.length_append, List.length_take_of_le within]
  rw [overwrite, ← hlength, List.take_left]

/-- Nothing but the bytes in the place is changed, however many others come there. -/
theorem splice_eq {contents : Bytes} {offset length : Nat} (within : offset ≤ contents.length)
    (bytes : Bytes) :
    splice contents offset length bytes
      = contents.take offset ++ bytes ++ contents.drop (offset + length) := by
  rw [splice]
  by_cases same : bytes.length = length
  · rw [if_pos same, overwrite, same]
  · rw [if_neg same]
    dsimp only
    have hwritten : offset + bytes.length ≤ (overwrite contents offset bytes).length := by
      rw [overwrite, List.length_append, List.length_append, List.length_take_of_le within]
      exact Nat.le_add_right _ _
    rw [take_overwrite hwritten, take_overwrite within]

/-- An open file and the path it was opened by. -/
structure Connection where
  path : String
  handle : Disk.Handle
  deriving Repr, DecidableEq

/-- A store that keeps its records in a file of a disk. -/
structure FileStore where
  schema : Schema
  disk : Disk
  connection : Option Connection
  written : Keyed Record

namespace FileStore

/-- A store that is not connected. -/
def new (schema : Schema) (disk : Disk) : FileStore := ⟨schema, disk, none, []⟩

/-- The open file. -/
def handle (s : FileStore) : Except StoreError Disk.Handle :=
  match s.connection with
  | some connection => .ok connection.handle
  | none => .error (.unavailable .notConnected)

/-- The contents of the open file. -/
def contents (s : FileStore) : Except StoreError Bytes := (s.handle).map s.disk.read

/-- Opens the file at a path, making an empty one where there is none. -/
def connect (s : FileStore) (path : String) : Outcome FileStore Unit :=
  match s.connection with
  | some _ => (s, .ok ())
  | none =>
    match s.disk.attach path with
    | .error fault => (s, .error (.unavailable (.cannotOpenStore path fault)))
    | .ok (handle, disk) => ({ s with disk := disk, connection := some ⟨path, handle⟩ }, .ok ())

/-- Closes the file and forgets the records written. -/
def disconnect (s : FileStore) : FileStore := { s with connection := none, written := [] }

/-- Puts other bytes in the place of some in the open file. -/
def edit (s : FileStore) (handle : Disk.Handle) (offset length : Nat) (bytes : Bytes) :
    Except StoreError FileStore :=
  match s.disk.replace (splice (s.disk.read handle) offset length bytes) handle with
  | .ok disk => .ok { s with disk := disk }
  | .error fault => .error (.writeFailed fault)

/-- Writes the line of a record over the line with its key, or after all others. -/
def store (s : FileStore) (r : Record) : Except StoreError FileStore := do
  let handle ← s.handle
  match ← locate s.schema r.key (s.disk.read handle) with
  | .line offset length => s.edit handle offset length r.storedLine
  | .ending offset needsTerminator =>
    s.edit handle offset 0 (if needsTerminator then lineFeed :: r.storedLine else r.storedLine)

/-- A record must be of the store's schema and have storable values. -/
def checkRecord (s : FileStore) (r : Record) : Except StoreError Unit := do
  if r.schema ≠ s.schema then throw (.malformedRecord .otherSchema)
  Store.checkStorable s.schema.fields r.values

/-- Puts a record in the place of the one with its key, or after all others. -/
def upsert (s : FileStore) (r : Record) : Outcome FileStore Unit :=
  if r.hasData then
    match s.checkRecord r >>= fun _ => s.store r with
    | .error e => (s, .error e)
    | .ok s => ({ s with written := s.written.insert r.key r }, .ok ())
  else (s, .ok ())

/-- Takes the line with a key out of the file; tells whether there was one. -/
def remove (s : FileStore) (key : String) : Except StoreError (FileStore × Bool) := do
  let handle ← s.handle
  match ← locate s.schema key (s.disk.read handle) with
  | .line offset length => return (← s.edit handle offset length [], true)
  | .ending _ _ => return (s, false)

/-- Takes the record with a key away. The record remembered under the key is forgotten first, and
    stays forgotten when the file cannot be searched. The empty key is turned away before that, even
    where a record has it. -/
def delete (s : FileStore) (key : String) : Outcome FileStore Bool :=
  if key.isEmpty then (s, .ok false)
  else
    let cached := s.written.contains key
    let s := { s with written := s.written.erase key }
    match s.remove key with
    | .error e => (s, .error e)
    | .ok (s, stored) => (s, .ok (cached || stored))

/-- What reading all records gives. -/
def records (s : FileStore) : Except StoreError (List (Except StoreError Record)) :=
  s.contents.map (stream s.schema)

/-- Makes sure that the file lasts. -/
def flush (s : FileStore) : Except StoreError Unit := do
  match Disk.sync (← s.handle) with
  | .ok _ => return
  | .error fault => throw (.writeFailed fault)

instance : Store FileStore where
  schema := schema
  connect := connect
  disconnect := disconnect
  isConnected s := s.connection.isSome
  find? s key := s.written.get? key
  upsert := upsert
  delete := delete
  records := records
  flush := flush

end FileStore

end RecordStore
