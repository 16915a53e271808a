import RecordStore.Datastore

/-! # Requests to a datastore

    Whatever clients do with a datastore, in any order and at the same time, reaches it as a
    sequence of requests: to open a session, to close one, or to do something with the data.  Here
    a request is a value, so that what happens to a datastore is a list of requests.  The five
    things that can be done with the data all begin with the same question, and `act_eq` tells
    what depends on its answer: either the action is performed on the store, with no further look
    at who asked for it, or nothing happens at all.  The route:

    * `Action`, `Request`, `Answer`, `serve`: one request, and what it gives;
    * `run`, `history`: the datastore after a list of requests, and the requests with their
      answers;
    * `Action.perform`, `Action.refused`, `act_eq`: the two ends of an action;
    * `perform_induction`: what upserts of imported records and deletions keep, every action
      keeps. -/

namespace RecordStore

open RecordStore.Text

/-! ## Requests and their answers -/

/-- What a client can do with the data. -/
inductive Action where
  | importData (data : Bytes)
  | importFile (path : String)
  | query (text : String)
  | get (key : String)
  | delete (key : String)

/-- What a client can ask for.  The token of a session is drawn with the request for it. -/
inductive Request where
  | connect (client secret token : String)
  | disconnect (c : Credentials)
  | act (c : Credentials) (action : Action)

/-- What a request gives. -/
inductive Answer where
  | opened (result : Except StoreError Credentials)
  | closed
  | imported (skips : List Skip) (outcome : Except StoreError Report)
  | table (result : Except StoreError Query.Table)
  | found (result : Except StoreError (Option Record))
  | deleted (result : Except StoreError Bool)

/-- The answer to an action that an error keeps from being performed. -/
def Action.refused (e : StoreError) : Action → Answer
  | .importData _ | .importFile _ => .imported [] (.error e)
  | .query _ => .table (.error e)
  | .get _ => .found (.error e)
  | .delete _ => .deleted (.error e)

variable {σ : Type} [Store σ]

/-- What an action does to a store and what it gives, whoever asks for it. -/
def Action.perform (disk : σ → Disk) (store : σ) : Action → σ × Answer
  | .importData data =>
    let result := Import.run store data
    (result.store, .imported result.skips result.outcome)
  | .importFile path =>
    match (disk store).openFile path with
    | .error fault =>
      (store, .imported [] (.error (.unavailable (.cannotOpenFile path fault))))
    | .ok (.error fault) => (store, .imported [] (.error (.readFailed fault)))
    | .ok (.ok handle) =>
      let result := Import.runFile store fun store => (disk store).read handle
      (result.store, .imported result.skips result.outcome)
  | .query text => (store, .table (Store.query store text))
  | .get key => (store, .found (.ok (Store.find? store key)))
  | .delete key =>
    match Store.delete store key with
    | (store, .error e) => (store, .deleted (.error e))
    | (store, .ok false) => (store, .deleted (.ok false))
    | (store, .ok true) => (store, .deleted ((Store.flush store).map fun _ => true))

namespace Datastore

/-- An action of a client on a datastore, where `disk` is the disk as the store has it. -/
def act (disk : σ → Disk) (d : Datastore σ) (c : Credentials) : Action → Datastore σ × Answer
  | .importData data =>
    let result := d.importData c data
    (result.datastore, .imported result.skips result.outcome)
  | .importFile path =>
    let result := d.importFile c disk path
    (result.datastore, .imported result.skips result.outcome)
  | .query text => (d, .table (d.query c text))
  | .get key => (d, .found (d.get c key))
  | .delete key => let (d, result) := d.delete c key; (d, .deleted result)

/-- The datastore after a request, and what the request gives. -/
def serve (disk : σ → Disk) (d : Datastore σ) : Request → Datastore σ × Answer
  | .connect client secret token =>
    let (d, result) := d.connect client secret token
    (d, .opened result)
  | .disconnect c => (d.disconnect c, .closed)
  | .act c action => d.act disk c action

/-- The datastore after a run of requests. -/
def run (disk : σ → Disk) (d : Datastore σ) : List Request → Datastore σ
  | [] => d
  | request :: requests => run disk (d.serve disk request).1 requests

/-- The requests of a run with what they give. -/
def history (disk : σ → Disk) (d : Datastore σ) : List Request → List (Request × Answer)
  | [] => []
  | request :: requests =>
    (request, (d.serve disk request).2) :: history disk (d.serve disk request).1 requests

/-! ## An action is performed or refused -/

variable {disk : σ → Disk} {d : Datastore σ} {c : Credentials}

/-- **An action is performed for the credentials of an open session, and does nothing for any
    others.** -/
theorem act_eq (action : Action) :
    d.act disk c action = match d.sessions.require c with
      | .ok _ =>
        ({ d with store := (action.perform disk d.store).1 }, (action.perform disk d.store).2)
      | .error e => (d, action.refused e) := by
  cases hc : d.sessions.require c with
  | error e =>
      cases action with
      | importData data => simp only [act, importData, hc]; rfl
      | importFile path => simp only [act, importFile, hc]; rfl
      | query text => simp only [act, query, hc]; rfl
      | get key => simp only [act, get, hc]; rfl
      | delete key => simp only [act, delete, hc]; rfl
  | ok u =>
      cases action with
      | importData data => simp only [act, importData, hc]; rfl
      | query text => simp only [act, query, hc]; rfl
      | get key => simp only [act, get, hc]; rfl
      | importFile path =>
          simp only [act, importFile, hc, Action.perform]
          cases (disk d.store).openFile path with
          | error fault => rfl
          | ok opened => cases opened <;> rfl
      | delete key =>
          simp only [act, delete, hc, Action.perform]
          obtain ⟨store, result⟩ := Store.delete d.store key
          cases result with
          | error e => rfl
          | ok deleted => cases deleted <;> rfl

/-- No action opens or closes a session. -/
theorem sessions_act (action : Action) : (d.act disk c action).1.sessions = d.sessions := by
  rw [act_eq]
  cases d.sessions.require c <;> rfl

end Datastore

/-! ## What becomes of the store -/

section Induction

variable {P : σ → Prop}

namespace Import

/-- The only thing that a line does to a store is to put a record into it that it was judged to
    be. -/
theorem step_induction
    (upsert : ∀ s line r, P s → judge (Store.schema s) line = .accept r → P (Store.upsert s r).1)
    {p : Progress σ} (h : P p.store) (line : Bytes) : P (step p line).store := by
  rw [step]
  cases p.stopped with
  | some e => exact h
  | none =>
      dsimp only
      cases hj : judge (Store.schema p.store) line with
      | passOver => exact h
      | skip reason => exact h
      | accept r =>
          have hput := upsert p.store line r h hj
          dsimp only
          generalize Store.upsert p.store r = o at hput ⊢
          obtain ⟨store, result⟩ := o
          cases result <;> exact hput

/-- What every upsert keeps of a store, the import of a file keeps, which may change while it is
    read: by induction on the lines taken from it. -/
theorem linesFrom_induction
    (upsert : ∀ s line r, P s → judge (Store.schema s) line = .accept r → P (Store.upsert s r).1)
    (file : σ → Bytes) (n : Nat) (cursor : Disk.Cursor) {p : Progress σ} (h : P p.store) :
    P (linesFrom file n cursor p).store := by
  induction n generalizing cursor p with
  | zero => exact h
  | succ n ih =>
      rw [linesFrom]
      split
      · exact ih _ (step_induction upsert h _)
      · exact h

/-- So does the import of a text, by induction on its lines. -/
theorem lines_induction
    (upsert : ∀ s line r, P s → judge (Store.schema s) line = .accept r → P (Store.upsert s r).1)
    (ls : List Bytes) {p : Progress σ} (h : P p.store) : P (ls.foldl step p).store := by
  induction ls generalizing p with
  | nil => exact h
  | cons line ls ih => exact ih (step_induction upsert h line)

end Import

/-- What is kept by upserts of records that lines were judged to be and by deletions, every action
    keeps. -/
theorem Action.perform_induction
    (upsert : ∀ s line r, P s → judge (Store.schema s) line = .accept r → P (Store.upsert s r).1)
    (delete : ∀ s key, P s → P (Store.delete s key).1) (disk : σ → Disk) {s : σ} (h : P s)
    (action : Action) : P (action.perform disk s).1 := by
  cases action with
  | importData data => exact Import.lines_induction upsert _ h
  | importFile path =>
      rw [perform]
      split
      · exact h
      · exact h
      · exact Import.linesFrom_induction upsert _ _ _ h
  | query text | get key => exact h
  | delete key =>
      have hdelete := delete s key h
      rw [perform]
      generalize Store.delete s key = o at hdelete ⊢
      obtain ⟨store, result⟩ := o
      cases result with
      | error e => exact hdelete
      | ok deleted => cases deleted <;> exact hdelete

/-- Of all requests, only actions change the store. -/
theorem Datastore.serve_induction
    (upsert : ∀ s line r, P s → judge (Store.schema s) line = .accept r → P (Store.upsert s r).1)
    (delete : ∀ s key, P s → P (Store.delete s key).1) (disk : σ → Disk) {d : Datastore σ}
    (h : P d.store) (request : Request) : P (d.serve disk request).1.store := by
  cases request with
  | connect client secret token =>
      rw [serve, connect]
      cases d.sessions.connect client secret token <;> exact h
  | disconnect c => exact h
  | act c action =>
      rw [serve, act_eq]
      cases d.sessions.require c with
      | error e => exact h
      | ok u => exact action.perform_induction upsert delete disk h

end Induction

end RecordStore
