import RecordStore.Keyed
import RecordStore.Store.Basic

/-!
# A store in memory

The records are a list in the order in which their keys were first written. The list outlives a
disconnection; only the records known by key are forgotten. Reading goes through the lines that
the records would have in a file, so it gives what a store in a file would give.
-/

namespace RecordStore

open RecordStore.Text

/-- A store that keeps its records in a list. -/
structure MemoryStore where
  schema : Schema
  connected : Bool
  stored : List Record
  written : Keyed Record

namespace MemoryStore

/-- A store without records, connected. -/
def new (schema : Schema) : MemoryStore := ⟨schema, true, [], []⟩

/-- Fails where the store is not connected. -/
def ensureConnected (s : MemoryStore) : Except StoreError Unit :=
  if s.connected then .ok () else .error (.unavailable .notConnected)

/-- The list with a record in the place of the first with its key, or after all others. -/
def place (r : Record) : List Record → List Record
  | [] => [r]
  | other :: others => if other.key = r.key then r :: others else other :: place r others

/-- Puts a record in the place of the one with its key, or after all others. -/
def upsert (s : MemoryStore) (r : Record) : Outcome MemoryStore Unit :=
  if r.hasData then
    match s.ensureConnected >>= fun _ => Store.checkStorable s.schema.fields r.values with
    | .error e => (s, .error e)
    | .ok _ =>
      ({ s with stored := place r s.stored, written := s.written.insert r.key r }, .ok ())
  else (s, .ok ())

/-- Takes the record with a key away. The empty key is turned away, even where a record has it. -/
def delete (s : MemoryStore) (key : String) : Outcome MemoryStore Bool :=
  if key.isEmpty then (s, .ok false)
  else
    match s.ensureConnected with
    | .error e => (s, .error e)
    | .ok _ =>
      let kept := s.stored.filter fun r => r.key != key
      ({ s with stored := kept, written := s.written.erase key },
        .ok (s.written.contains key || kept.length != s.stored.length))

/-- The lines that the records would have in a file. -/
def contents (s : MemoryStore) : Bytes := s.stored.flatMap Record.storedLine

/-- What reading all records gives. -/
def records (s : MemoryStore) : Except StoreError (List (Except StoreError Record)) := do
  s.ensureConnected
  return stream s.schema s.contents

instance : Store MemoryStore where
  schema := schema
  connect s _ := ({ s with connected := true }, .ok ())
  disconnect s := { s with connected := false, written := [] }
  isConnected := connected
  find? s key := s.written.get? key
  upsert := upsert
  delete := delete
  records := records
  flush _ := .ok ()

end MemoryStore

end RecordStore
