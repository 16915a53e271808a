import RecordStore.Proofs.Store.Coherence
import RecordStore.Proofs.Store.Entries

/-! # A store in a file is an ordered map

    A store whose file is text, with no key twice, behaves as the ordered map of its entries: an
    upsert replaces the entry with the key of its record or appends one, a deletion takes one out
    and tells whether it did, and reading all records gives the entries in order.  The route:

    * `Change` and `Entries.apply`: the two changes, and what the map makes of them;
    * `Represents`: the store is connected to a regular file that holds the entries, and
      remembers no record that the file has not;
    * `represents_call`: each change keeps `Represents` and gives what the map gives;
    * `represents_run`: so does every run of changes, by induction on the run. -/

namespace RecordStore

open RecordStore.Text

/-! ## Changes of the map -/

/-- A change of a store. -/
inductive Change where
  | upsert (r : Record)
  | delete (key : String)

namespace Change

/-- The call that makes a change. -/
def call : Change → Call
  | .upsert r => .upsert r
  | .delete key => .delete key

/-- The key that a change is about. -/
def key : Change → String
  | .upsert r => r.key
  | .delete key => key

/-- The changes that are told by the map: a record of the schema with data, whose values are
    storable and whose line is not empty, or a deletion of a key that is not empty. -/
def Accepted (schema : Schema) : Change → Prop
  | .upsert r => r.schema = schema ∧ r.hasData = true ∧ r.Storable ∧ r.toLine ≠ ""
  | .delete key => key ≠ ""

end Change

namespace Entries

/-- The map after a change, and what the change gives. -/
def apply (entries : List Record) : Change → List Record × Reply
  | .upsert r => (put r.stored entries, .done (.ok ()))
  | .delete key => (remove key entries, .deleted (.ok (decide (key ∈ keys entries))))

/-- A change leaves the entries of other keys as they were, in their order. -/
theorem remove_apply (entries : List Record) (c : Change) :
    remove c.key (apply entries c).1 = remove c.key entries := by
  cases c with
  | upsert r => exact remove_put r.stored entries
  | delete key =>
      show remove key (remove key entries) = remove key entries
      rw [remove, remove, List.filter_filter]
      simp

/-- The map after a run of changes. -/
def run (entries : List Record) : List Change → List Record
  | [] => entries
  | c :: changes => run (apply entries c).1 changes

/-- The calls of a run of changes with what the map gives. -/
def history (entries : List Record) : List Change → List (Call × Reply)
  | [] => []
  | c :: changes => (c.call, (apply entries c).2) :: history (apply entries c).1 changes

/-- The record of a line, if the line is text and not empty but for its end. -/
def ofLine? (schema : Schema) (line : Bytes) : Option Record :=
  match Line.record schema line with
  | .ok r => if r.hasData then some r else none
  | .error _ => none

/-- The records of the lines of a file. -/
def ofFile (schema : Schema) (contents : Bytes) : List Record :=
  (lines contents).filterMap (ofLine? schema)

end Entries

/-- A file whose lines are all text. -/
def Legible (contents : Bytes) : Prop := ∀ line ∈ lines contents, ∃ text, decode line = .ok text

/-- A line that is text is seen as the entry that its text is, if it is one. -/
private theorem seen?_of_decode {line : Bytes} {text : String} (h : decode line = .ok text)
    (schema : Schema) : Line.seen? schema line = (Entries.ofLine? schema line).map .ok := by
  rw [Line.seen?, Entries.ofLine?, Line.record, h]
  show (if (Record.parse schema (trimLineEnd text)).hasData then _ else _) = Option.map _ (ite ..)
  cases (Record.parse schema (trimLineEnd text)).hasData <;> rfl

/-- A file whose lines are all text holds the records of its lines. -/
theorem Legible.holds {contents : Bytes} (h : Legible contents) (schema : Schema) :
    Holds schema contents (Entries.ofFile schema contents) := by
  rw [Holds, stream, Entries.ofFile, List.map_filterMap]
  rw [Legible] at h
  generalize lines contents = ls at h ⊢
  induction ls with
  | nil => rfl
  | cons line rest ih =>
      obtain ⟨⟨text, ht⟩, hrest⟩ := List.forall_mem_cons.mp h
      rw [List.filterMap_cons, List.filterMap_cons, ih hrest, seen?_of_decode ht]

/-! ## The store and the map -/

namespace FileStore

/-- A store connected to a regular file that holds the entries, each key once. -/
structure Represents (s : FileStore) (entries : List Record) : Prop where
  coherent : s.Coherent
  connected : ∃ path name, s.connection = some ⟨path, .file name⟩ ∧
    Holds s.schema (s.disk.read (.file name)) entries
  distinct : (Entries.keys entries).Nodup

variable {s : FileStore} {entries : List Record}

/-- The records that are read are the entries. -/
theorem Represents.records (h : s.Represents entries) :
    Store.records s = .ok (entries.map .ok) := by
  obtain ⟨path, name, hc, holds⟩ := h.connected
  show s.records = _
  rw [FileStore.records, contents, handle, hc]
  exact congrArg Except.ok holds

/-- What is remembered under a key that is not empty is an entry. -/
theorem Represents.mem_keys_of_contains (h : s.Represents entries) {key : String}
    (ne : key ≠ "") (hk : s.written.contains key) : key ∈ Entries.keys entries := by
  obtain ⟨path, name, hc, holds⟩ := h.connected
  obtain ⟨r, hr⟩ := Option.isSome_iff_exists.mp hk
  obtain ⟨before, line, after, cut, -, read, hit⟩ :=
    exists_line_of_firstRecord? (h.coherent.indexed _ hc key r hr (.inl ne))
  have hmem : .ok r.stored ∈ readings s.schema (s.disk.read (.file name)) :=
    List.mem_map.mpr ⟨line, by rw [cut]; simp, read⟩
  exact Entries.mem_keys.mpr ⟨r.stored, holds.mem_iff.mpr ⟨hmem, hit.1⟩, hit.2⟩

/-- An upsert puts the record into the map. -/
theorem represents_upsert (h : s.Represents entries) {r : Record} (schema : r.schema = s.schema)
    (data : r.hasData = true) (storable : r.Storable) (ne : r.toLine ≠ "") :
    (s.upsert r).2 = .ok () ∧ (s.upsert r).1.Represents (Entries.put r.stored entries) := by
  obtain ⟨path, name, hc, holds⟩ := h.connected
  obtain ⟨contents, disk, put, replaced, hupsert⟩ := upsert_of_holds hc holds schema data storable
  have coherent := coherent_upsert h.coherent r
  -- the line that was put into the file is read as the record, in the order of the schema
  have read : Line.record s.schema r.storedLine = .ok r.stored := by
    rw [← schema, Line.record_storedLine storable, Record.parse_toLine storable ne]
  rw [hupsert] at coherent ⊢
  refine ⟨rfl, coherent, ⟨path, name, hc, ?_⟩, Entries.nodup_keys_put _ h.distinct⟩
  show Holds s.schema (disk.read (.file name)) (Entries.put r.stored entries)
  rw [Disk.read_replace_self replaced]
  exact holds.put h.distinct put (Record.terminated_storedLine storable) read ⟨rfl, rfl⟩

/-- A deletion removes the key from the map, and tells whether it was there. -/
theorem represents_delete (h : s.Represents entries) {key : String} (ne : key ≠ "") :
    (s.delete key).2 = .ok (decide (key ∈ Entries.keys entries)) ∧
      (s.delete key).1.Represents (Entries.remove key entries) := by
  obtain ⟨path, name, hc, holds⟩ := h.connected
  obtain ⟨disk, -, hholds, hdelete⟩ := delete_of_holds hc holds h.distinct ne
  have coherent := coherent_delete h.coherent key
  -- what is remembered is in the file, so remembering it does not change the answer
  have hanswer : (s.written.contains key || decide (key ∈ Entries.keys entries))
      = decide (key ∈ Entries.keys entries) := by
    rw [Bool.or_eq_right_iff_imp, decide_eq_true_eq]
    exact h.mem_keys_of_contains ne
  rw [hdelete] at coherent ⊢
  exact ⟨congrArg Except.ok hanswer, coherent, ⟨path, name, hc, hholds⟩,
    Entries.nodup_keys_remove key h.distinct⟩

/-- Each change does to the store what it does to the map. -/
theorem represents_call (h : s.Represents entries) {c : Change} (hc : c.Accepted s.schema) :
    (Store.call s c.call).2 = (Entries.apply entries c).2 ∧
      (Store.call s c.call).1.Represents (Entries.apply entries c).1 := by
  cases c with
  | upsert r =>
      obtain ⟨schema, data, storable, ne⟩ := hc
      obtain ⟨reply, after⟩ := represents_upsert h schema data storable ne
      exact ⟨congrArg Reply.done reply, after⟩
  | delete key =>
      obtain ⟨reply, after⟩ := represents_delete h hc
      exact ⟨congrArg Reply.deleted reply, after⟩

/-- So does every run of changes. -/
theorem represents_run (h : s.Represents entries) (changes : List Change)
    (accepted : ∀ c ∈ changes, c.Accepted s.schema) :
    Store.history s (changes.map Change.call) = Entries.history entries changes ∧
      (Store.run s (changes.map Change.call)).Represents (Entries.run entries changes) := by
  induction changes generalizing s entries with
  | nil => exact ⟨rfl, h⟩
  | cons c changes ih =>
      obtain ⟨hc, hrest⟩ := List.forall_mem_cons.mp accepted
      obtain ⟨reply, after⟩ := represents_call h hc
      -- the rest of the run starts from a store of the same schema
      have hrest' : ∀ c' ∈ changes, c'.Accepted (Store.call s c.call).1.schema := by
        rwa [schema_call]
      obtain ⟨replies, last⟩ := ih after hrest'
      refine ⟨?_, last⟩
      rw [List.map_cons, Store.history, Entries.history, reply, replies]

variable {schema : Schema} {disk disk₀ : Disk} {path name : String}

theorem connect_new (opened : disk.attach path = .ok (.file name, disk₀)) :
    ((new schema disk).connect path) =
      (⟨schema, disk₀, some ⟨path, .file name⟩, []⟩, .ok ()) := by
  simp only [connect, new, opened]

/-- **A store in a file is an ordered map.**  Let a path lead to a regular file whose lines are all
    text, with no key twice among those that are not empty.  Then in every run of upserts and
    deletions on the store connected to it, every call gives what it gives on the map of its
    entries, and reading all records gives the entries of the map; the keys stay distinct, and
    one more change leaves the entries of all keys but its own as they are. -/
theorem run_refines_entries (opened : disk.attach path = .ok (.file name, disk₀))
    (legible : Legible (disk₀.read (.file name)))
    (distinct : (Entries.keys (Entries.ofFile schema (disk₀.read (.file name)))).Nodup)
    (changes : List Change) (accepted : ∀ c ∈ changes, c.Accepted schema) :
    Store.history ((new schema disk).connect path).1 (changes.map Change.call)
      = Entries.history (Entries.ofFile schema (disk₀.read (.file name))) changes ∧
    Store.records (Store.run ((new schema disk).connect path).1 (changes.map Change.call))
      = .ok ((Entries.run (Entries.ofFile schema (disk₀.read (.file name))) changes).map .ok) ∧
    (Entries.keys
      (Entries.run (Entries.ofFile schema (disk₀.read (.file name))) changes)).Nodup ∧
    ∀ c, Entries.remove c.key
        (Entries.apply (Entries.run (Entries.ofFile schema (disk₀.read (.file name))) changes) c).1
      = Entries.remove c.key
        (Entries.run (Entries.ofFile schema (disk₀.read (.file name))) changes) := by
  have start : ((new schema disk).connect path).1.Represents
      (Entries.ofFile schema (disk₀.read (.file name))) := by
    refine ⟨coherent_connect (coherent_new schema disk) path, ?_, distinct⟩
    rw [connect_new opened]
    exact ⟨path, name, rfl, legible.holds schema⟩
  have hschema : ((new schema disk).connect path).1.schema = schema := by
    rw [connect_new opened]
  obtain ⟨replies, last⟩ := represents_run start changes (by rwa [hschema])
  exact ⟨replies, last.records, last.distinct, Entries.remove_apply _⟩

/-- A file of two views, with a blank line between them and the last line not terminated. -/
def twoViews : Disk := ⟨[("views", encode "box|film|one\r\n\nset|show|one")], []⟩

/-- Of two views the first is replaced and the second deleted. -/
theorem twoViews_changed :
    Store.records (Store.run ((new .mediaViews twoViews).connect "views").1
        [.upsert (.parse .mediaViews "box|film|another"), .delete "setshow"])
      = .ok [.ok (.parse .mediaViews "box|film|another")] := by
  have opened : twoViews.attach "views" = .ok (.file "views", twoViews) := by rfl
  have legible : Legible (twoViews.read (.file "views")) := by
    have hlines : lines (twoViews.read (.file "views"))
        = [encode "box|film|one\r\n", encode "\n", encode "set|show|one"] := by decide +kernel
    intro line hl
    rw [hlines] at hl
    simp only [List.mem_cons, List.not_mem_nil, or_false] at hl
    rcases hl with rfl | rfl | rfl <;> exact ⟨_, decode_encode _⟩
  have distinct : (Entries.keys
      (Entries.ofFile .mediaViews (twoViews.read (.file "views")))).Nodup := by decide +kernel
  have put : (Change.upsert (.parse .mediaViews "box|film|another")).Accepted .mediaViews :=
    ⟨by rfl, by rfl, by decide +kernel, by decide +kernel⟩
  have accepted : ∀ c ∈ [Change.upsert (.parse .mediaViews "box|film|another"),
      .delete "setshow"], c.Accepted .mediaViews := by
    intro c hc
    simp only [List.mem_cons, List.not_mem_nil, or_false] at hc
    rcases hc with rfl | rfl
    · exact put
    · show "setshow" ≠ ""
      decide
  have entries : Entries.run (Entries.ofFile .mediaViews (twoViews.read (.file "views")))
      [.upsert (.parse .mediaViews "box|film|another"), .delete "setshow"]
        = [.parse .mediaViews "box|film|another"] := by decide +kernel
  have refined := (run_refines_entries opened legible distinct _ accepted).2.1
  rw [entries] at refined
  exact refined

end FileStore

end RecordStore
