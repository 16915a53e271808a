import RecordStore.Proofs.Disk.Resolve
import RecordStore.Proofs.Store.Call
import RecordStore.Proofs.Store.Entries

/-! # A store in memory and a store in a file agree

    A store in memory stands in for a store in a file: whoever calls the one or the other, in any
    order, is told the same.  The one keeps a list of records, the other the bytes of a file, and
    the relation between them is `Agree`.  Only what is visible is the same: a blank record of one
    field is kept by both, once in the list and once more in the file whenever it is put there,
    and shown by neither.  The route:

    * `Allowed` and `Admissible`: the calls that are made, of which some need a connection;
    * `Agree`: the relation, and `records_agree`: stores in it are read alike;
    * `upsert_agree`, `delete_agree`, `call_agree`: a call keeps the relation, and is answered
      alike;
    * `run_agree`: so is every run of calls, by induction on the run. -/

namespace RecordStore

open RecordStore.Text

/-! ## The calls -/

/-- Whether a store is connected after a call, given whether it was before. -/
def Call.connects (connected : Bool) : Call → Bool
  | .connect _ => true
  | .disconnect => false
  | _ => connected

/-- The calls for which the two stores agree: connecting goes to the one path, records are of the
    schema, and while the stores are not connected nothing is flushed and no value is put that
    could not be stored. -/
def Call.Allowed (schema : Schema) (path : String) (connected : Bool) : Call → Prop
  | .connect path' => path' = path
  | .upsert r | .create r | .update r => r.schema = schema ∧ (connected = true ∨ r.Storable)
  | .flush => connected = true
  | _ => True

/-- A run of calls of which each is allowed when it is made. -/
def Admissible (schema : Schema) (path : String) : Bool → List Call → Prop
  | _, [] => True
  | connected, c :: calls =>
    c.Allowed schema path connected ∧ Admissible schema path (c.connects connected) calls

/-! ## The relation -/

/-- A store in memory and a store in a file that are told apart by no call. -/
structure Agree (path name : String) (m : MemoryStore) (f : FileStore) : Prop where
  schema : f.schema = m.schema
  written : f.written = m.written
  connection : f.connection = if m.connected then some ⟨path, .file name⟩ else none
  forgotten : m.connected = false → m.written = []
  /-- The path leads to the file, also when it is opened again. -/
  reopened : f.disk.attach path = .ok (.file name, f.disk)
  storables : Storables m.schema m.stored
  distinct : (Entries.keys m.stored).Nodup
  /-- The file holds what is shown of the records in memory. -/
  holds : Holds f.schema (f.disk.read (.file name)) (shown m.stored)

variable {path name : String} {m : MemoryStore} {f : FileStore}

theorem Agree.of_connected (h : Agree path name m f) (hm : m.connected = true) :
    f.connection = some ⟨path, .file name⟩ := by rw [h.connection, if_pos hm]

theorem Agree.connected_iff (h : Agree path name m f) :
    m.connected = f.connection.isSome := by
  rw [h.connection]
  cases m.connected <;> rfl

/-- Stores that agree are read alike. -/
theorem records_agree (h : Agree path name m f) : Store.records m = Store.records f := by
  show m.records = f.records
  have hf : f.handle
      = if m.connected then .ok (.file name) else .error (.unavailable .notConnected) := by
    rw [FileStore.handle, h.connection]
    cases m.connected <;> rfl
  rw [MemoryStore.records, FileStore.records, FileStore.contents, MemoryStore.ensureConnected, hf]
  cases m.connected with
  | false => rfl
  | true =>
      -- the one reads the lines that its records would have, the other the lines it has
      have hm : stream m.schema m.contents = (shown m.stored).map .ok :=
        holds_storedLines h.storables
      exact congrArg Except.ok (hm.trans h.holds.symm)

theorem count_agree (h : Agree path name m f) : Store.count m = Store.count f := by
  rw [Store.count, Store.count, records_agree h]

theorem query_agree (h : Agree path name m f) (text : String) :
    Store.query m text = Store.query f text := by
  have schema : Store.schema m = Store.schema f := h.schema.symm
  rw [Store.query, Store.query, records_agree h, schema]

/-! ## Upserts -/

/-- An upsert in memory, of a record with data. -/
theorem MemoryStore.upsert_of_hasData {r : Record} (data : r.hasData = true) :
    m.upsert r = match m.ensureConnected >>= fun _ =>
        Store.checkStorable m.schema.fields r.values with
      | .error e => (m, .error e)
      | .ok _ =>
        ({ m with stored := place r m.stored, written := m.written.insert r.key r }, .ok ()) :=
  if_pos data

/-- The line of a record put into the file, and the record put among those in memory. -/
private theorem Agree.holds_put (h : Agree path name m f) {r : Record}
    (schema : r.schema = f.schema) (storable : r.Storable) {contents : Bytes}
    (put : Put f.schema r.key r.storedLine (f.disk.read (.file name)) contents) :
    Holds f.schema contents (shown (MemoryStore.place r m.stored)) := by
  have done := Record.terminated_storedLine storable
  have storables : Storables r.schema m.stored := schema.trans h.schema ▸ h.storables
  -- the line is read as a record without data when it is empty, and as the record otherwise
  have read : Line.record f.schema r.storedLine = .ok (Record.parse r.schema r.toLine) := by
    rw [← schema, Line.record_storedLine storable]
  by_cases hline : r.toLine = ""
  · have noData : (Record.parse r.schema r.toLine).hasData = false := by
      rw [hline, Record.hasData_parse]
      rfl
    rw [MemoryStore.shown_place_blank hline storables]
    exact h.holds.put_of_noData put done read noData
      (MemoryStore.notMem_keys_shown hline storables)
  · rw [Record.parse_toLine storable hline] at read
    rw [MemoryStore.shown_place hline storables h.distinct]
    exact h.holds.put (nodup_keys_shown h.distinct) put done read ⟨rfl, rfl⟩

/-- Stores that agree still do when a record is put into both. -/
private theorem Agree.put (h : Agree path name m f) {r : Record} (hm : m.connected = true)
    (schema : r.schema = f.schema) (storable : r.Storable) {contents : Bytes} {disk : Disk}
    (put : Put f.schema r.key r.storedLine (f.disk.read (.file name)) contents)
    (replaced : f.disk.replace contents (.file name) = .ok disk) :
    Agree path name
      { m with stored := MemoryStore.place r m.stored, written := m.written.insert r.key r }
      { f with disk := disk, written := f.written.insert r.key r } where
  schema := h.schema
  written := congrArg (Keyed.insert · r.key r) h.written
  connection := h.connection
  forgotten := fun hm' => absurd (hm.symm.trans hm') (by simp)
  reopened := Disk.attach_replace h.reopened replaced
  storables := by
    intro x hx
    rcases MemoryStore.mem_place hx with rfl | hx
    · exact ⟨schema.trans h.schema, storable⟩
    · exact h.storables x hx
  distinct := by
    rw [MemoryStore.place_eq_put h.distinct]
    exact Entries.nodup_keys_put r h.distinct
  holds := by
    show Holds f.schema (disk.read (.file name)) (shown (MemoryStore.place r m.stored))
    rw [Disk.read_replace_self replaced]
    exact h.holds_put schema storable put

/-- An upsert has the same outcome, and leaves stores that agree. -/
theorem upsert_agree (h : Agree path name m f) {r : Record} (schema : r.schema = m.schema)
    (allowed : m.connected = true ∨ r.Storable) :
    (m.upsert r).2 = (f.upsert r).2 ∧ Agree path name (m.upsert r).1 (f.upsert r).1 := by
  have hschema : r.schema = f.schema := schema.trans h.schema.symm
  have hcheck : Store.checkStorable m.schema.fields r.values = f.checkRecord r := by
    rw [FileStore.checkRecord_of_schema hschema, h.schema]
  by_cases ready : r.hasData = true ∧ r.Storable ∧ m.connected = true
  · obtain ⟨data, storable, hm⟩ := ready
    have valid : f.checkRecord r = .ok () :=
      FileStore.checkRecord_eq_ok_iff.mpr ⟨hschema, storable⟩
    obtain ⟨contents, disk, put, replaced, hupsert⟩ :=
      FileStore.upsert_of_holds (h.of_connected hm) h.holds hschema data storable
    rw [hupsert, MemoryStore.upsert_of_hasData data, MemoryStore.ensureConnected, if_pos hm,
      hcheck, valid]
    exact ⟨rfl, h.put hm hschema storable put replaced⟩
  -- nothing is put: either there is nothing to put, or both stores refuse it
  have outcome := FileStore.upsert_outcome f r
  generalize f.upsert r = o at outcome ⊢
  cases outcome with
  | ignored empty =>
      rw [MemoryStore.upsert, if_neg (by simp [empty])]
      exact ⟨rfl, h⟩
  | refused data invalid =>
      have hm : m.connected = true := by
        rcases allowed with hm | storable
        · exact hm
        · have valid := FileStore.checkRecord_eq_ok_iff.mpr ⟨hschema, storable⟩
          exact nomatch valid.symm.trans invalid
      rw [MemoryStore.upsert_of_hasData data, MemoryStore.ensureConnected, if_pos hm, hcheck,
        invalid]
      exact ⟨rfl, h⟩
  | disconnected data _ closed =>
      rw [MemoryStore.upsert_of_hasData data, MemoryStore.ensureConnected, h.connected_iff, closed]
      exact ⟨rfl, h⟩
  | unreadable data valid connected | unwritable data valid connected
  | written data valid connected =>
      have hm : m.connected = true := by rw [h.connected_iff, connected]; rfl
      exact absurd ⟨data, (FileStore.checkRecord_eq_ok_iff.mp valid).2, hm⟩ ready

/-! ## Deletions -/

/-- A deletion of a key that is not empty, told by the ordered map. -/
theorem MemoryStore.delete_of_ne {key : String} (ne : key ≠ "") :
    m.delete key = match m.ensureConnected with
      | .error e => (m, .error e)
      | .ok _ =>
        ({ m with stored := Entries.remove key m.stored, written := m.written.erase key },
          .ok (m.written.contains key || decide (key ∈ Entries.keys m.stored))) := by
  rw [MemoryStore.delete, if_neg (by simpa using ne), ← Entries.length_remove_ne]
  rfl

/-- Stores that agree still do when a key is deleted from both. -/
private theorem Agree.remove (h : Agree path name m f) (hm : m.connected = true) (key : String)
    {disk : Disk} (reopened : disk.attach path = .ok (.file name, disk))
    (holds : Holds f.schema (disk.read (.file name)) (Entries.remove key (shown m.stored))) :
    Agree path name
      { m with stored := Entries.remove key m.stored, written := m.written.erase key }
      { f with disk := disk, written := f.written.erase key } where
  schema := h.schema
  written := congrArg (Keyed.erase · key) h.written
  connection := h.connection
  forgotten := fun hm' => absurd (hm.symm.trans hm') (by simp)
  reopened := reopened
  storables := fun x hx => h.storables x (List.mem_filter.mp hx).1
  distinct := Entries.nodup_keys_remove key h.distinct
  holds := by rwa [MemoryStore.shown_remove]

/-- A deletion has the same outcome, and leaves stores that agree. -/
theorem delete_agree (h : Agree path name m f) (key : String) :
    (m.delete key).2 = (f.delete key).2 ∧ Agree path name (m.delete key).1 (f.delete key).1 := by
  by_cases ready : key ≠ "" ∧ m.connected = true
  · obtain ⟨ne, hm⟩ := ready
    obtain ⟨disk, same, holds, hdelete⟩ := FileStore.delete_of_holds (h.of_connected hm) h.holds
      (nodup_keys_shown h.distinct) ne
    have reopened : disk.attach path = .ok (.file name, disk) := by
      rcases same with rfl | ⟨contents, replaced⟩
      · exact h.reopened
      · exact Disk.attach_replace h.reopened replaced
    have hanswer : decide (key ∈ Entries.keys m.stored)
        = decide (key ∈ Entries.keys (shown m.stored)) :=
      decide_eq_decide.mpr (mem_keys_shown ne).symm
    rw [hdelete, MemoryStore.delete_of_ne ne, MemoryStore.ensureConnected, if_pos hm, hanswer,
      ← h.written]
    exact ⟨rfl, h.written ▸ h.remove hm key reopened holds⟩
  -- nothing is deleted: there is no key, or no connection and so nothing remembered
  have outcome := FileStore.delete_outcome f key
  generalize f.delete key = o at outcome ⊢
  cases outcome with
  | noKey empty =>
      rw [MemoryStore.delete, if_pos (by simpa using empty)]
      exact ⟨rfl, h⟩
  | disconnected ne closed =>
      have hm : m.connected = false := by rw [h.connected_iff, closed]; rfl
      have hnil : f.written = [] := h.written.trans (h.forgotten hm)
      have herase : f.written.erase key = f.written := by rw [hnil]; rfl
      rw [MemoryStore.delete_of_ne ne, MemoryStore.ensureConnected, hm, herase]
      exact ⟨rfl, h⟩
  | unreadable ne connected | removed ne connected | absent ne connected =>
      have hm : m.connected = true := by rw [h.connected_iff, connected]; rfl
      exact absurd ⟨ne, hm⟩ ready

/-! ## Runs of calls -/

/-- Both are connected to their data again. -/
theorem connect_agree (h : Agree path name m f) :
    (f.connect path).2 = .ok () ∧
      Agree path name { m with connected := true } (f.connect path).1 := by
  have hopen : f.connect path = ({ f with connection := some ⟨path, .file name⟩ }, .ok ()) := by
    cases hm : m.connected with
    | true =>
        have hc : f.connection = some ⟨path, .file name⟩ := h.of_connected hm
        simp only [FileStore.connect, hc]
        rw [← hc]
    | false =>
        have hc : f.connection = none := by rw [h.connection, hm]; rfl
        simp only [FileStore.connect, hc, h.reopened]
  rw [hopen]
  exact ⟨rfl, { h with connection := rfl, forgotten := fun hm => nomatch hm }⟩

/-- Both forget what was written. -/
theorem disconnect_agree (h : Agree path name m f) :
    Agree path name { m with connected := false, written := [] } f.disconnect :=
  { h with written := rfl, connection := rfl, forgotten := fun _ => rfl }

/-- A connected store in a file can be flushed, as one in memory always can. -/
theorem flush_agree (h : Agree path name m f) (hm : m.connected = true) : f.flush = .ok () := by
  have hh : f.handle = .ok (.file name) := by rw [FileStore.handle, h.of_connected hm]
  rw [FileStore.flush, hh]
  rfl

/-- A call on stores that agree is answered alike, and the stores agree afterwards. -/
theorem call_agree (h : Agree path name m f) {c : Call}
    (allowed : c.Allowed m.schema path m.connected) :
    (Store.call m c).2 = (Store.call f c).2 ∧
      Agree path name (Store.call m c).1 (Store.call f c).1 := by
  cases c with
  | connect path' =>
      obtain rfl : path' = path := allowed
      obtain ⟨reply, after⟩ := connect_agree h
      exact ⟨congrArg Reply.done reply.symm, after⟩
  | disconnect => exact ⟨rfl, disconnect_agree h⟩
  | isConnected => exact ⟨congrArg Reply.connected h.connected_iff, h⟩
  | find key => exact ⟨congrArg (Reply.found <| Keyed.get? · key) h.written.symm, h⟩
  | upsert r | create r | update r =>
      obtain ⟨schema, storable⟩ := allowed
      obtain ⟨reply, after⟩ := upsert_agree h schema storable
      exact ⟨congrArg Reply.done reply, after⟩
  | delete key =>
      obtain ⟨reply, after⟩ := delete_agree h key
      exact ⟨congrArg Reply.deleted reply, after⟩
  | records => exact ⟨congrArg Reply.records (records_agree h), h⟩
  | count => exact ⟨congrArg Reply.counted (count_agree h), h⟩
  | query text => exact ⟨congrArg Reply.table (query_agree h text), h⟩
  | flush => exact ⟨congrArg Reply.done (flush_agree h allowed).symm, h⟩

/-- A call on a store in memory leaves the schema, and connects or disconnects as it says. -/
theorem MemoryStore.frame_call (m : MemoryStore) (c : Call) :
    (Store.call m c).1.schema = m.schema ∧
      (Store.call m c).1.connected = c.connects m.connected := by
  have hput (r : Record) :
      (m.upsert r).1.schema = m.schema ∧ (m.upsert r).1.connected = m.connected := by
    rw [MemoryStore.upsert]
    split
    · split <;> exact ⟨rfl, rfl⟩
    · exact ⟨rfl, rfl⟩
  cases c with
  | upsert r | create r | update r => exact hput r
  | delete key =>
      show (m.delete key).1.schema = m.schema ∧ (m.delete key).1.connected = m.connected
      rw [MemoryStore.delete]
      split
      · exact ⟨rfl, rfl⟩
      · split <;> exact ⟨rfl, rfl⟩
  | _ => exact ⟨rfl, rfl⟩

/-- Stores that agree give the same in every admissible run of calls. -/
theorem run_agree (h : Agree path name m f) {calls : List Call}
    (admissible : Admissible m.schema path m.connected calls) :
    Store.history m calls = Store.history f calls := by
  induction calls generalizing m f with
  | nil => rfl
  | cons c calls ih =>
      obtain ⟨allowed, rest⟩ := admissible
      obtain ⟨reply, after⟩ := call_agree h allowed
      obtain ⟨schema, connected⟩ := m.frame_call c
      rw [← schema, ← connected] at rest
      rw [Store.history, Store.history, reply, ih after rest]

/-- **A store in memory and a store in a file are answered alike.**  Let a path lead to a regular
    file that is empty, or to where one can be made.  Then in every admissible run of calls, from
    a new store in memory and from a store connected to the file, all calls give the same. -/
theorem memory_file_agree {schema : Schema} {disk disk₀ : Disk}
    (opened : disk.attach path = .ok (.file name, disk₀)) (empty : disk₀.read (.file name) = [])
    (calls : List Call) (admissible : Admissible schema path true calls) :
    Store.history (MemoryStore.new schema) calls
      = Store.history ((FileStore.new schema disk).connect path).1 calls := by
  have start : Agree path name (MemoryStore.new schema)
      ((FileStore.new schema disk).connect path).1 := by
    simp only [FileStore.connect, FileStore.new, opened]
    exact
      { schema := rfl
        written := rfl
        connection := rfl
        forgotten := fun _ => rfl
        reopened := Disk.attach_attach opened
        storables := fun r hr => nomatch hr
        distinct := List.nodup_nil
        holds := by
          show Holds schema (disk₀.read (.file name)) []
          rw [empty]
          rfl }
  exact run_agree start admissible

/-- A record is put, the stores are disconnected and connected again, and the record is there. -/
theorem agree_after_reconnection :
    Store.history (MemoryStore.new .mediaViews)
        [.upsert (.parse .mediaViews "box|film"), .disconnect, .delete "boxfilm", .connect "views",
          .find "boxfilm", .count, .flush]
      = Store.history ((FileStore.new .mediaViews Disk.empty).connect "views").1
        [.upsert (.parse .mediaViews "box|film"), .disconnect, .delete "boxfilm", .connect "views",
          .find "boxfilm", .count, .flush] := by
  have opened : Disk.empty.attach "views"
      = .ok (.file "views", Disk.empty.setContents "views" []) := by rfl
  have schema : (Record.parse .mediaViews "box|film").schema = .mediaViews := by rfl
  exact memory_file_agree opened rfl _
    ⟨⟨schema, .inl rfl⟩, trivial, trivial, rfl, trivial, trivial, rfl, trivial⟩

end RecordStore
