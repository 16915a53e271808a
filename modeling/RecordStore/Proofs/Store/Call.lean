import RecordStore.Proofs.Sequence
import RecordStore.Store.Basic

/-! # Runs of calls on a store

    A store is used by calling it, one call after the other, and all that its user learns is what
    the calls give.  Here a call is a value, so that a run is a list of calls, and what is said of
    every state that a store can come to is said of the store after every run.  The route:

    * `Call`, `Reply` and `Store.call`: one call, what it gives, and the store after it;
    * `run`, `history`: the store after a list of calls, and the calls with their replies;
    * `run_induction`: what every call preserves holds after every run;
    * `LastPut`: of all that a history did to a key, a successful upsert came last;
    * `find?_run_iff`: what is known under a key after a run, from what each call makes known. -/

namespace RecordStore

/-- A call on a store. -/
inductive Call where
  | connect (path : String)
  | disconnect
  | isConnected
  | find (key : String)
  | upsert (r : Record)
  | create (r : Record)
  | update (r : Record)
  | delete (key : String)
  | records
  | count
  | query (text : String)
  | flush

/-- What a call gives. -/
inductive Reply where
  | done (result : Except StoreError Unit)
  | connected (answer : Bool)
  | found (answer : Option Record)
  | deleted (result : Except StoreError Bool)
  | records (result : Except StoreError (List (Except StoreError Record)))
  | counted (result : Except StoreError Nat)
  | table (result : Except StoreError Query.Table)

/-- The record that a call puts into the store. -/
def Call.put? : Call → Option Record
  | .upsert r | .create r | .update r => some r
  | _ => none

namespace Store

variable {σ : Type} [Store σ]

/-- The store after a call, and what the call gives. -/
def call (s : σ) : Call → σ × Reply
  | .connect path => let (s, result) := connect s path; (s, .done result)
  | .disconnect => (disconnect s, .done (.ok ()))
  | .isConnected => (s, .connected (isConnected s))
  | .find key => (s, .found (find? s key))
  | .upsert r => let (s, result) := upsert s r; (s, .done result)
  | .create r => let (s, result) := create s r; (s, .done result)
  | .update r => let (s, result) := update s r; (s, .done result)
  | .delete key => let (s, result) := delete s key; (s, .deleted result)
  | .records => (s, .records (records s))
  | .count => (s, .counted (count s))
  | .query text => (s, .table (query s text))
  | .flush => (s, .done (flush s))

/-- The store after a run of calls. -/
def run (s : σ) : List Call → σ
  | [] => s
  | c :: calls => run (call s c).1 calls

/-- The calls of a run with what they give. -/
def history (s : σ) : List Call → List (Call × Reply)
  | [] => []
  | c :: calls => (c, (call s c).2) :: history (call s c).1 calls

/-- **What every call preserves holds after every run.** -/
theorem run_induction {P : σ → Prop} (step : ∀ s c, P s → P (call s c).1) {s : σ} (start : P s)
    (calls : List Call) : P (run s calls) := by
  induction calls generalizing s with
  | nil => exact start
  | cons c calls ih => exact ih (step s c start)

/-- Putting a record is one change, whichever of its three names it is called by. -/
theorem call_put (s : σ) {c : Call} {r : Record} (h : c.put? = some r) :
    call s c = ((upsert s r).1, .done (upsert s r).2) := by
  cases c with
  | upsert r' | create r' | update r' =>
      cases h
      rfl
  | _ => exact nomatch h

end Store

/-! ## The last thing done to a key -/

/-- An event of a history that puts a record under a key. -/
def Puts (key : String) (r : Record) (event : Call × Reply) : Prop :=
  event.1.put? = some r ∧ event.2 = .done (.ok ()) ∧ r.hasData = true ∧ r.key = key

/-- A call that puts no record into the store puts none under any key. -/
theorem not_puts {key : String} {c : Call} {reply : Reply} (hc : c.put? = none) (r : Record) :
    ¬ Puts key r (c, reply) := by
  rintro ⟨h, -⟩
  exact nomatch hc.symm.trans h

/-- An event of a history after which nothing is known under a key: all is forgotten, or a
    deletion names the key.  A deletion of the empty key does nothing. -/
def Forgets (key : String) (event : Call × Reply) : Prop :=
  event.1 = .disconnect ∨ key ≠ "" ∧ event.1 = .delete key

/-- In a history, a record was put under a key, and no event after that put another under the
    key or forgot it. -/
def LastPut (key : String) (r : Record) (events : List (Call × Reply)) : Prop :=
  ∃ before event after, events = before ++ event :: after ∧ Puts key r event ∧
    ∀ e ∈ after, ¬ Forgets key e ∧ ∀ r', ¬ Puts key r' e

/-- What is known under a key after an event: the record that it put there, or the one that was
    known before, if the event left the key alone. -/
def Known (key : String) (before : Option Record) (event : Call × Reply) (r : Record) : Prop :=
  Puts key r event ∨ before = some r ∧ ¬ Forgets key event ∧ ∀ r', ¬ Puts key r' event

section Known

variable {key : String} {before : Option Record} {event : Call × Reply} {r : Record}

/-- A quiet event leaves what is known. -/
theorem known_of_quiet (quiet : ¬ Forgets key event) (noPut : ∀ r, ¬ Puts key r event) :
    Known key before event r ↔ before = some r := by
  constructor
  · rintro (hp | ⟨h, -⟩)
    · exact absurd hp (noPut r)
    · exact h
  · intro h
    exact .inr ⟨h, quiet, noPut⟩

/-- After an event that forgets the key nothing is known. -/
theorem known_of_forgets (forgets : Forgets key event) (noPut : ∀ r, ¬ Puts key r event) :
    ¬ Known key before event r := by
  rintro (hp | ⟨-, quiet, -⟩)
  · exact noPut r hp
  · exact quiet forgets

/-- After a put its record is known. -/
theorem known_of_puts {r₀ : Record} (puts : Puts key r₀ event) :
    Known key before event r ↔ r₀ = r := by
  constructor
  · rintro (hp | ⟨-, -, noPut⟩)
    · exact Option.some.inj (puts.1.symm.trans hp.1)
    · exact absurd puts (noPut r₀)
  · rintro rfl
    exact .inl puts

end Known

/-- What one call does to a key, a whole run does: if after every call is known what the call
    makes known, then after a run a record is known exactly when it was put last, or known at the
    start and not touched. -/
theorem find?_run_iff {σ : Type} [Store σ] {key : String}
    (step : ∀ (s : σ) c r, Store.find? (Store.call s c).1 key = some r ↔
      Known key (Store.find? s key) (c, (Store.call s c).2) r)
    (s : σ) (calls : List Call) (r : Record) :
    Store.find? (Store.run s calls) key = some r ↔
      LastPut key r (Store.history s calls) ∨
        Store.find? s key = some r ∧
          ∀ e ∈ Store.history s calls, ¬ Forgets key e ∧ ∀ r', ¬ Puts key r' e := by
  -- on the calls: what the first one did is the start of the others
  induction calls generalizing s with
  | nil =>
      rw [Store.run, Store.history]
      exact since_nil_or.symm
  | cons c calls ih =>
      rw [Store.run, Store.history, ih]
      exact since_cons_or (step s c r)

end RecordStore
