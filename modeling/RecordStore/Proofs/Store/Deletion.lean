import RecordStore.Proofs.Datastore.Request
import RecordStore.Proofs.Store.Agreement
import RecordStore.Proofs.Store.Coherence

/-! # What is stored can be deleted

    A record comes into a file by an upsert or by an import, and is given out again by the reading
    of all records.  Its key is then enough to take it away, and it alone, whatever the key is made
    of: two records that are given out never have the same key.  The empty key is an exception that
    should not be one.  A record whose key fields are all blank has it, and is put, found and given
    out under it as others are under theirs; yet a deletion of the empty key is turned away unseen,
    with the answer that there was no record.  Such a record stays for good.  The route:

    * `Reached`: the stores that come of a file that was empty, by calls, imports, interruptions
      and the replacement by a new store;
    * `upsert_keeps`, `call_keeps`, `perform_keeps`: one step leaves a store that agrees with one
      in memory, of which all that is needed is known;
    * `Reached.backed`: so does every way to a store, by induction on it;
    * `delete_given`: a deletion from such a store;
    * `nameless_not_deleted`: the record that no deletion takes away. -/

namespace RecordStore.FileStore

open RecordStore.Text

/-- The stores that come of connecting a new one to a path of a disk, by calls on the store, of
    which those for a connection are to the same path, by what clients do with the data, and by
    the replacement of the store by a new one on the path. -/
inductive Reached (schema : Schema) (path : String) (disk : Disk) : FileStore → Prop where
  | opened : Reached schema path disk ((new schema disk).connect path).1
  | called {s : FileStore} (before : Reached schema path disk s) (c : Call)
      (here : ∀ path', c = .connect path' → path' = path) :
      Reached schema path disk (Store.call s c).1
  | performed {s : FileStore} (before : Reached schema path disk s) (action : Action) :
      Reached schema path disk (action.perform FileStore.disk s).1
  | reopened {s : FileStore} (before : Reached schema path disk s) :
      Reached schema path disk ((new s.schema s.disk).connect path).1

variable {schema : Schema} {path name : String} {disk disk₀ : Disk} {s : FileStore}

/-! ## Steps -/

/-- A store that agrees with some store in memory. -/
def Backed (path name : String) (s : FileStore) : Prop :=
  ∃ m : MemoryStore, Agree path name m s

/-- A new store that is connected to an empty file agrees with a store in memory. -/
theorem backed_new (opened : disk.attach path = .ok (.file name, disk₀))
    (empty : disk₀.read (.file name) = []) :
    Backed path name ((new schema disk).connect path).1 := by
  simp only [connect, new, opened]
  exact ⟨.new schema,
    { schema := rfl
      written := rfl
      connection := rfl
      forgotten := fun _ => rfl
      reopened := Disk.attach_attach opened
      storables := fun r hr => absurd hr List.not_mem_nil
      distinct := List.nodup_nil
      holds := by
        show Holds schema (disk₀.read (.file name)) []
        rw [empty]
        rfl }⟩

/-- Any record may be put: what cannot be stored is refused. -/
theorem upsert_keeps (h : Backed path name s) (r : Record) : Backed path name (s.upsert r).1 := by
  obtain ⟨m, h⟩ := h
  cases result : (s.upsert r).2 with
  | error e =>
      rw [upsert_error result]
      exact ⟨m, h⟩
  | ok u =>
      by_cases data : r.hasData = true
      · have outcome := upsert_outcome s r
        have valid : s.checkRecord r = .ok () := by
          generalize s.upsert r = o at outcome result
          cases outcome with
          | ignored empty => exact nomatch data.symm.trans empty
          | refused | disconnected | unreadable | unwritable => exact nomatch result
          | written _ valid => exact valid
        obtain ⟨schema, storable⟩ := checkRecord_eq_ok_iff.mp valid
        exact ⟨_, (upsert_agree h (schema.trans h.schema) (.inr storable)).2⟩
      · rw [upsert, if_neg data]
        exact ⟨m, h⟩

/-- Any key may be deleted. -/
theorem delete_keeps (h : Backed path name s) (key : String) :
    Backed path name (s.delete key).1 := by
  obtain ⟨m, h⟩ := h
  exact ⟨_, (delete_agree h key).2⟩

/-- **One call**, whatever it is, if it connects to no other path. -/
theorem call_keeps (h : Backed path name s) (c : Call)
    (here : ∀ path', c = .connect path' → path' = path) : Backed path name (Store.call s c).1 := by
  cases c with
  | connect path' =>
      obtain rfl : path' = path := here path' rfl
      obtain ⟨m, h⟩ := h
      exact ⟨_, (connect_agree h).2⟩
  | disconnect =>
      obtain ⟨m, h⟩ := h
      exact ⟨_, disconnect_agree h⟩
  | upsert r | create r | update r => exact upsert_keeps h r
  | delete key => exact delete_keeps h key
  | isConnected | find key | records | count | query text | flush => exact h

/-- So with what a client does, which is made of upserts and deletions. -/
theorem perform_keeps (h : Backed path name s) (action : Action) :
    Backed path name (action.perform FileStore.disk s).1 :=
  action.perform_induction (P := Backed path name) (fun _ _ r hs _ => upsert_keeps hs r)
    (fun _ key hs => delete_keeps hs key) FileStore.disk h

/-- **However a store came about on a file that was empty**, it agrees with a store in memory. -/
theorem Reached.backed (opened : disk.attach path = .ok (.file name, disk₀))
    (empty : disk₀.read (.file name) = []) (reached : Reached schema path disk s) :
    Backed path name s := by
  induction reached with
  | opened => exact backed_new opened empty
  | called _ c here ih => exact call_keeps ih c here
  | performed _ action ih => exact perform_keeps ih action
  | reopened _ ih =>
      -- a new store on the disk is the old one after a disconnection
      obtain ⟨m, h⟩ := ih
      exact ⟨_, (connect_agree (disconnect_agree h)).2⟩

/-! ## Deletion -/

/-- What a connected store that agrees with one in memory gives out. -/
theorem Backed.records (h : Backed path name s) {given : List Reading}
    (records : s.records = .ok given) :
    ∃ entries : List Record, given = entries.map .ok ∧ (Entries.keys entries).Nodup ∧
      s.connection = some ⟨path, .file name⟩ ∧
      Holds s.schema (s.disk.read (.file name)) entries := by
  obtain ⟨m, h⟩ := h
  have connected : s.connection = some ⟨path, .file name⟩ := by
    rw [h.connection]
    cases hm : m.connected with
    | true => rfl
    | false =>
        have closed : s.connection = none := by rw [h.connection, hm]; rfl
        rw [FileStore.records, contents, handle, closed] at records
        cases records
  refine ⟨shown m.stored, ?_, nodup_keys_shown h.distinct, connected, h.holds⟩
  rw [FileStore.records, contents, handle, connected] at records
  exact (Except.ok.inj records).symm.trans h.holds

/-- **What is stored can be deleted, if its key is not empty.**  However a store came about on a
    file that was absent or empty, all that it gives out are records with distinct keys.  For each
    of them whose key is not empty the deletion of the key says that there was one; afterwards the
    others are given out, as they were, and the key leads to no record.  The empty key falls short
    of this: whether or not a record with blank key fields is given out, its deletion says that
    there was none and leaves the store as it was. -/
theorem delete_given (opened : disk.attach path = .ok (.file name, disk₀))
    (empty : disk₀.read (.file name) = []) (reached : Reached schema path disk s)
    {given : List Reading} (records : s.records = .ok given) :
    (∃ entries : List Record, given = entries.map .ok ∧ (entries.map Record.key).Nodup) ∧
    (∀ before r after, given = before ++ .ok r :: after → r.key ≠ "" →
      ∃ s', s.delete r.key = (s', .ok true) ∧ s'.records = .ok (before ++ after) ∧
        Store.find? s' r.key = none) ∧
    s.delete "" = (s, .ok false) := by
  obtain ⟨entries, rfl, distinct, connected, holds⟩ :=
    (reached.backed opened empty).records records
  refine ⟨⟨entries, rfl, distinct⟩, fun before r after place ne => ?_, rfl⟩
  obtain ⟨eb, rest, rfl, rfl, hrest⟩ := List.map_eq_append_iff.mp place
  obtain ⟨e, ea, rfl, he, rfl⟩ := List.map_eq_cons_iff.mp hrest
  obtain rfl := Except.ok.inj he
  obtain ⟨disk', -, holds', hdelete⟩ := delete_of_holds connected holds distinct ne
  have stored : e.key ∈ Entries.keys (eb ++ e :: ea) :=
    Entries.mem_keys.mpr ⟨e, List.mem_append_right _ List.mem_cons_self, rfl⟩
  rw [decide_eq_true stored, Bool.or_true] at hdelete
  rw [Entries.remove_split distinct rfl] at holds'
  refine ⟨_, hdelete, ?_, Keyed.get?_erase_self s.written e.key⟩
  rw [← List.map_append]
  show (FileStore.contents _).map _ = _
  rw [contents, handle, connected]
  exact congrArg Except.ok holds'

/-- A store of views, in which one was put and another, with blank key fields, was imported. -/
def oneNameless : FileStore :=
  (Action.perform FileStore.disk
    (Store.call ((new .mediaViews Disk.empty).connect "views").1
      (.upsert (.parse .mediaViews "box|film"))).1
    (.importData (encode "||paramount\n"))).1

theorem reached_oneNameless : Reached .mediaViews "views" Disk.empty oneNameless :=
  .performed (.called .opened (.upsert (.parse .mediaViews "box|film")) fun _ h => nomatch h) _

theorem records_oneNameless : oneNameless.records =
    .ok [.ok (.parse .mediaViews "box|film"), .ok (.parse .mediaViews "||paramount")] := by
  rfl

/-- The view that has a key is deleted, and the other is left. -/
theorem delete_given_oneNameless :
    ∃ s', oneNameless.delete "boxfilm" = (s', .ok true) ∧
      s'.records = .ok [.ok (.parse .mediaViews "||paramount")] ∧
      Store.find? s' "boxfilm" = none := by
  have opened : Disk.empty.attach "views"
      = .ok (.file "views", Disk.empty.setContents "views" []) := by rfl
  have key : (Record.parse .mediaViews "box|film").key = "boxfilm" := by decide +kernel
  obtain ⟨-, deletes, -⟩ := delete_given opened rfl reached_oneNameless records_oneNameless
  rw [← key]
  exact deletes [] _ _ rfl (by rw [key]; decide)

/-- **A deletion can deny a record that is there.**  A record whose key fields are all blank has
    been imported: it is given out, and found under its key, which is empty.  The deletion of its
    key says all the same that there was none, and takes nothing away. -/
theorem nameless_not_deleted :
    Reached .mediaViews "views" Disk.empty oneNameless ∧
    ∃ (r : Record) (given : List Reading), oneNameless.records = .ok given ∧ .ok r ∈ given ∧
      r.key = "" ∧ Store.find? oneNameless r.key = some r ∧
      oneNameless.delete r.key = (oneNameless, .ok false) ∧
      (oneNameless.delete r.key).1.records = .ok given := by
  have key : (Record.parse .mediaViews "||paramount").key = "" := by decide +kernel
  have found : Store.find? oneNameless "" = some (.parse .mediaViews "||paramount") := by rfl
  have stays : oneNameless.delete "" = (oneNameless, .ok false) := rfl
  refine ⟨reached_oneNameless, .parse .mediaViews "||paramount", _, records_oneNameless,
    by simp, key, ?_, ?_, ?_⟩
  · rw [key, found]
  · rw [key, stays]
  · rw [key, stays, records_oneNameless]

end RecordStore.FileStore
