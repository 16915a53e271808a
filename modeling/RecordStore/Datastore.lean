import RecordStore.Disk
import RecordStore.Error
import RecordStore.Import
import RecordStore.Keyed

/-!
# Stores and their clients

Clients have sessions, and a store with sessions is a datastore.
-/

namespace RecordStore

open RecordStore.Text

/-!
## Sessions of clients

A client that presents a secret is given a token, and with it a session. The token is drawn by the
caller, who answers for its being new; the client's name and the token together are its
credentials. A session is known by its token alone when it is closed, and by both when it is used.
-/

/-- What a client shows for every operation. -/
structure Credentials where
  client : String
  token : String
  deriving Repr, DecidableEq

/-- The open sessions: the client of each token. -/
structure Sessions where
  clients : Keyed String
  deriving Repr, DecidableEq

namespace Sessions

/-- No open session. -/
def none : Sessions := ⟨[]⟩

/-- The number of open sessions. -/
def count (s : Sessions) : Nat := s.clients.length

/-- Opens a session with a new token. A client without a name or a secret is turned away. -/
def connect (s : Sessions) (client secret token : String) :
    Except StoreError (Sessions × Credentials) :=
  if client.isEmpty || secret.isEmpty then .error (.unauthorized (.noSecret client))
  else .ok (⟨s.clients.insert token client⟩, ⟨client, token⟩)

/-- Closes the session with the token of the credentials, if there is one. -/
def disconnect (s : Sessions) (c : Credentials) : Sessions := ⟨s.clients.erase c.token⟩

/-- Whether the credentials are those of an open session. -/
def authenticate (s : Sessions) (c : Credentials) : Bool :=
  s.clients.get? c.token == some c.client

/-- Fails where the credentials are not those of an open session. -/
def require (s : Sessions) (c : Credentials) : Except StoreError Unit :=
  if s.authenticate c then .ok () else .error (.unauthorized (.unknownToken c.client c.token))

end Sessions

/-!
## A store shared by clients

A datastore is a store with the sessions of its clients. Clients open and close sessions; every
operation on the data first asks whether the credentials are those of an open session, and does
nothing where they are not. A deletion that takes something away flushes the store, and so does an
import.
-/

/-- A store and the open sessions. -/
structure Datastore (σ : Type) where
  store : σ
  sessions : Sessions

namespace Datastore

variable {σ : Type} [Store σ]

/-- A datastore without sessions, whose store is connected to a path. -/
def make (store : σ) (path : String) : Outcome σ (Datastore σ) :=
  match Store.connect store path with
  | (store, .ok _) => (store, .ok ⟨store, Sessions.none⟩)
  | (store, .error e) => (store, .error e)

/-- Opens a session with a new token. -/
def connect (d : Datastore σ) (client secret token : String) :
    Outcome (Datastore σ) Credentials :=
  match d.sessions.connect client secret token with
  | .ok (sessions, c) => ({ d with sessions := sessions }, .ok c)
  | .error e => (d, .error e)

/-- Closes a session. -/
def disconnect (d : Datastore σ) (c : Credentials) : Datastore σ :=
  { d with sessions := d.sessions.disconnect c }

/-- What an import leaves and gives. -/
structure Imported (σ : Type) where
  datastore : Datastore σ
  skips : List Skip
  outcome : Except StoreError Report

/-- An import that an error keeps from beginning. -/
def notImported (d : Datastore σ) (e : StoreError) : Imported σ := ⟨d, [], .error e⟩

/-- Imports the lines of a text. -/
def importData (d : Datastore σ) (c : Credentials) (data : Bytes) : Imported σ :=
  match d.sessions.require c with
  | .error e => notImported d e
  | .ok _ =>
    let result := Import.run d.store data
    ⟨{ d with store := result.store }, result.skips, result.outcome⟩

/-- Imports the lines of the file at a path, where `disk` is the disk as it is while the store
    changes. -/
def importFile (d : Datastore σ) (c : Credentials) (disk : σ → Disk) (path : String) :
    Imported σ :=
  match d.sessions.require c with
  | .error e => notImported d e
  | .ok _ =>
    match (disk d.store).openFile path with
    | .error fault => notImported d (.unavailable (.cannotOpenFile path fault))
    | .ok (.error fault) => notImported d (.readFailed fault)
    | .ok (.ok handle) =>
      let result := Import.runFile d.store fun store => (disk store).read handle
      ⟨{ d with store := result.store }, result.skips, result.outcome⟩

/-- Runs a query. -/
def query (d : Datastore σ) (c : Credentials) (text : String) :
    Except StoreError Query.Table := do
  d.sessions.require c
  Store.query d.store text

/-- The record with a key among those written. -/
def get (d : Datastore σ) (c : Credentials) (key : String) :
    Except StoreError (Option Record) := do
  d.sessions.require c
  return Store.find? d.store key

/-- Takes the record with a key away; tells whether there was one. -/
def delete (d : Datastore σ) (c : Credentials) (key : String) : Outcome (Datastore σ) Bool :=
  match d.sessions.require c with
  | .error e => (d, .error e)
  | .ok _ =>
    match Store.delete d.store key with
    | (store, .error e) => ({ d with store := store }, .error e)
    | (store, .ok false) => ({ d with store := store }, .ok false)
    | (store, .ok true) => ({ d with store := store }, (Store.flush store).map fun _ => true)

/-- Flushes and closes the store, if it is open. -/
def close (d : Datastore σ) : Outcome (Datastore σ) Unit :=
  if Store.isConnected d.store then
    match Store.flush d.store with
    | .error e => (d, .error e)
    | .ok _ => ({ d with store := Store.disconnect d.store }, .ok ())
  else (d, .ok ())

end Datastore

end RecordStore
