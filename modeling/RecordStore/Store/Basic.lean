import RecordStore.Query.Run
import RecordStore.Query.Text
import RecordStore.Record.Basic
import RecordStore.Text.Bytes

/-!
# Stores

Lines of bytes are read as a stream of records; and a store of whatever kind offers the same
operations, which are listed here with those that are made of others.
-/

namespace RecordStore

open RecordStore.Text

/-!
## Records in a file

A file of records has one per line, in storage form. Reading a line can fail, when its bytes are no
text, and can give nothing, when the line is empty but for its end. `Line.record` is the reading of
one line; both the stream of all records and the search for one of them are made of it.
-/

/-- The record of a line; it has no data when the line is empty but for its end. -/
def Line.record (schema : Schema) (line : Bytes) : Except StoreError Record :=
  match decode line with
  | .ok text => .ok (Record.parse schema (trimLineEnd text))
  | .error _ => .error (.readFailed .notText)

/-- What reading a line gives to one who asks for records: an error, a record with data, or
    nothing. -/
def Line.seen? (schema : Schema) (line : Bytes) : Option (Except StoreError Record) :=
  match Line.record schema line with
  | .ok r => if r.hasData then some (.ok r) else none
  | .error e => some (.error e)

/-- What reading a file gives, record by record, from its beginning. -/
def stream (schema : Schema) (contents : Bytes) : List (Except StoreError Record) :=
  (lines contents).filterMap (Line.seen? schema)

/-- The records before the first error, or that error. -/
def collect : List (Except StoreError Record) → Except StoreError (List Record)
  | [] => .ok []
  | entry :: entries => do
    let r ← entry
    let rs ← collect entries
    return r :: rs

/-- The line that a record is stored in. -/
def Record.storedLine (r : Record) : Bytes := encode r.toLine ++ [lineFeed]

/-!
## Stores

A store keeps at most one record for each key. What can be done with one is a class, so that a
store in memory and a store in a file are used in the same way. Every operation that can change a
store gives the store afterwards and the result, also when the result is an error.

`find?` looks only among the records written through this store since it was last connected;
`records` reads everything that is stored.
-/

/-- A store after an operation, and what the operation gives. -/
abbrev Outcome (σ α : Type) := σ × Except StoreError α

/-- What can be done with a store. -/
class Store (σ : Type) where
  /-- The schema of the records. -/
  schema : σ → Schema
  /-- Opens what lies behind the store; nothing happens if it is open. -/
  connect : σ → String → Outcome σ Unit
  /-- Closes what lies behind the store and forgets the records written. -/
  disconnect : σ → σ
  isConnected : σ → Bool
  /-- The record with a key among those written since the store was connected. -/
  find? : σ → String → Option Record
  /-- Puts a record in the place of the one with its key, or after all others. -/
  upsert : σ → Record → Outcome σ Unit
  /-- Takes the record with a key away; tells whether there was one. -/
  delete : σ → String → Outcome σ Bool
  /-- What reading all records gives, one after the other. -/
  records : σ → Except StoreError (List (Except StoreError Record))
  /-- Makes sure that what was written lasts. -/
  flush : σ → Except StoreError Unit

namespace Store

variable {σ : Type} [Store σ]

/-- Puts a record into the store as a new one; nothing keeps it from being an old one. -/
def create (store : σ) (r : Record) : Outcome σ Unit := upsert store r

/-- Puts a record into the store in the place of an old one; nothing keeps it from being new. -/
def update (store : σ) (r : Record) : Outcome σ Unit := upsert store r

/-- The number of records stored, if all can be read. -/
def count (store : σ) : Except StoreError Nat := do
  return (← collect (← records store)).length

/-- Reads a query, checks it against the schema, and runs it on the records stored. -/
def query (store : σ) (text : String) : Except StoreError Query.Table := do
  let q ← Query.parse text
  let plan ← Query.Plan.make (schema store) q
  plan.run (← records store)

/-- Every value must be storable, as far as the schema has fields. -/
def checkStorable : List Field → List String → Except StoreError Unit
  | field :: fields, value :: values => do
    Schema.checkStorable field.name value
    checkStorable fields values
  | _, _ => .ok ()

end Store

end RecordStore
