import RecordStore.Proofs.Store.Change
import RecordStore.Store.Memory

/-! # Stores as ordered maps

    A file and a list of records in memory are both seen as the same kind of map, and are changed as
    it is. -/

namespace RecordStore

open RecordStore.Text

/-! ## The entries of a store

    To its user a store is an ordered map: a list of records with distinct keys.  A record that is
    put into it takes the place of the entry with its key, or becomes the last entry; deleting a
    key takes its entry out.  Here this map is defined on lists alone, and tied to the bytes of a
    file: a file holds a list of entries when that is what its lines give.  The route:

    * `Entries.put`, `Entries.remove`: the map, and what the two changes do to its keys and to
      the entries of other keys;
    * `Holds`: the entries that a file holds, which has no line that is no text;
    * `Holds.put`, `Holds.taken`: a change of the file is the change of the map. -/

/-! ### The map -/

namespace Entries

/-- The keys of a list of records. -/
def keys (entries : List Record) : List String := entries.map Record.key

/-- The entries with a record in the place of the one with its key, or after all others. -/
def put (r : Record) (entries : List Record) : List Record :=
  if r.key ∈ keys entries then entries.map fun e => if e.key = r.key then r else e
  else entries ++ [r]

/-- The entries without the one with a key. -/
def remove (key : String) (entries : List Record) : List Record :=
  entries.filter fun e => e.key != key

theorem mem_keys {key : String} {entries : List Record} :
    key ∈ keys entries ↔ ∃ e ∈ entries, e.key = key := List.mem_map

/-- The entries after a record was put: the record, and those with other keys. -/
theorem mem_put {x r : Record} {entries : List Record} :
    x ∈ put r entries ↔ x = r ∨ x ∈ entries ∧ x.key ≠ r.key := by
  by_cases h : r.key ∈ keys entries
  · obtain ⟨e₀, he₀, hkey₀⟩ := mem_keys.mp h
    rw [put, if_pos h, List.mem_map]
    constructor
    · rintro ⟨e, he, rfl⟩
      by_cases hkey : e.key = r.key
      · exact .inl (if_pos hkey)
      · rw [if_neg hkey]
        exact .inr ⟨he, hkey⟩
    · rintro (rfl | ⟨hx, hkey⟩)
      · exact ⟨e₀, he₀, if_pos hkey₀⟩
      · exact ⟨x, hx, if_neg hkey⟩
  · rw [put, if_neg h, List.mem_append, List.mem_singleton, or_comm]
    refine or_congr_right (and_iff_left_of_imp fun hx => ?_).symm
    exact fun hkey => h (mem_keys.mpr ⟨x, hx, hkey⟩)

theorem mem_remove {x : Record} {key : String} {entries : List Record} :
    x ∈ remove key entries ↔ x ∈ entries ∧ x.key ≠ key := by
  rw [remove, List.mem_filter, bne_iff_ne]

/-- A record that takes the place of an entry leaves all keys where they were; one with a new key
    adds its key at the end. -/
theorem keys_put (r : Record) (entries : List Record) :
    keys (put r entries) =
      if r.key ∈ keys entries then keys entries else keys entries ++ [r.key] := by
  by_cases h : r.key ∈ keys entries
  · rw [put, if_pos h, if_pos h, keys, keys, List.map_map]
    refine List.map_congr_left fun e _ => ?_
    show (if e.key = r.key then r else e).key = e.key
    by_cases he : e.key = r.key
    · rw [if_pos he, he]
    · rw [if_neg he]
  · rw [put, if_neg h, if_neg h, keys, keys, List.map_append, List.map_singleton]

/-- Putting a record keeps the keys distinct. -/
theorem nodup_keys_put (r : Record) {entries : List Record} (h : (keys entries).Nodup) :
    (keys (put r entries)).Nodup := by
  rw [keys_put]
  by_cases hr : r.key ∈ keys entries
  · rwa [if_pos hr]
  · rw [if_neg hr, List.nodup_append]
    refine ⟨h, by simp, ?_⟩
    intro a ha b hb hab
    rw [List.mem_singleton.mp hb] at hab
    exact hr (hab ▸ ha)

theorem nodup_keys_remove (key : String) {entries : List Record} (h : (keys entries).Nodup) :
    (keys (remove key entries)).Nodup :=
  h.sublist (List.filter_sublist.map Record.key)

/-- Of the entries with other keys, putting a record neither loses nor moves nor adds any. -/
theorem remove_put (r : Record) (entries : List Record) :
    remove r.key (put r entries) = remove r.key entries := by
  by_cases h : r.key ∈ keys entries
  · rw [put, if_pos h]
    -- entry by entry: the one that is replaced is filtered out before and after
    clear h
    induction entries with
    | nil => rfl
    | cons e entries ih =>
        by_cases he : e.key = r.key
        · simpa [remove, he] using ih
        · simpa [remove, he] using ih
  · rw [put, if_neg h, remove, List.filter_append]
    simp [remove]

section Split

variable {before after : List Record} {e : Record} {key : String}

/-- Distinct keys: an entry's key is not that of an entry before it or behind it. -/
private theorem ne_of_nodup (h : (keys (before ++ e :: after)).Nodup) :
    (∀ x ∈ before, x.key ≠ e.key) ∧ ∀ x ∈ after, x.key ≠ e.key := by
  rw [keys, List.map_append, List.map_cons, List.nodup_append, List.nodup_cons] at h
  obtain ⟨-, ⟨hafter, -⟩, hbefore⟩ := h
  constructor
  · intro x hx he
    exact hbefore _ (List.mem_map_of_mem hx) _ List.mem_cons_self he
  · intro x hx he
    exact hafter (List.mem_map.mpr ⟨x, hx, he⟩)

private theorem put_of_ne {r : Record} {entries : List Record}
    (h : ∀ x ∈ entries, x.key ≠ r.key) :
    (entries.map fun x => if x.key = r.key then r else x) = entries := by
  rw [List.map_congr_left fun x hx => if_neg (h x hx), List.map_id']

private theorem remove_of_ne {entries : List Record} (h : ∀ x ∈ entries, x.key ≠ key) :
    remove key entries = entries :=
  List.filter_eq_self.mpr fun x hx => bne_iff_ne.mpr (h x hx)

/-- A record put in the place of an entry, seen from that entry. -/
theorem put_split {r : Record} (h : (keys (before ++ e :: after)).Nodup) (he : e.key = r.key) :
    put r (before ++ e :: after) = before ++ r :: after := by
  obtain ⟨hbefore, hafter⟩ := ne_of_nodup h
  rw [he] at hbefore hafter
  have hmem : r.key ∈ keys (before ++ e :: after) := mem_keys.mpr ⟨e, by simp, he⟩
  rw [put, if_pos hmem, List.map_append, List.map_cons, put_of_ne hbefore, put_of_ne hafter,
    if_pos he]

/-- Removing takes out the one entry with the key. -/
theorem remove_split (h : (keys (before ++ e :: after)).Nodup) (he : e.key = key) :
    remove key (before ++ e :: after) = before ++ after := by
  obtain ⟨hbefore, hafter⟩ := ne_of_nodup h
  rw [he] at hbefore hafter
  have hb : remove key before = before := remove_of_ne hbefore
  have ha : remove key after = after := remove_of_ne hafter
  rw [remove, List.filter_append, List.filter_cons_of_neg (by simpa using he)]
  show remove key before ++ remove key after = before ++ after
  rw [hb, ha]

theorem put_of_notMem {r : Record} {entries : List Record} (h : r.key ∉ keys entries) :
    put r entries = entries ++ [r] := if_neg h

theorem put_cons_of_ne {r : Record} {entries : List Record} (h : e.key ≠ r.key) :
    put r (e :: entries) = e :: put r entries := by
  have hkeys : r.key ∈ keys (e :: entries) ↔ r.key ∈ keys entries := by
    rw [keys, List.map_cons, List.mem_cons, or_iff_right fun hr => h hr.symm, keys]
  by_cases hr : r.key ∈ keys entries
  · rw [put, put, if_pos (hkeys.mpr hr), if_pos hr, List.map_cons, if_neg h]
  · rw [put_of_notMem hr, put_of_notMem (mt hkeys.mp hr), List.cons_append]

theorem remove_of_notMem {entries : List Record} (h : key ∉ keys entries) :
    remove key entries = entries :=
  remove_of_ne fun x hx he => h (mem_keys.mpr ⟨x, hx, he⟩)

end Split

/-- Entries are fewer after a deletion exactly when the key was there. -/
theorem length_remove_ne (key : String) (entries : List Record) :
    ((remove key entries).length != entries.length) = decide (key ∈ keys entries) := by
  have hlength : (remove key entries).length = entries.length ↔ key ∉ keys entries := by
    rw [remove, List.length_filter_eq_length_iff, mem_keys]
    simp
  by_cases hk : key ∈ keys entries
  · rw [decide_eq_true hk, bne_iff_ne]
    exact fun he => hlength.mp he hk
  · rw [decide_eq_false hk, bne_eq_false_iff_eq]
    exact hlength.mpr hk

end Entries

/-! ### The entries that a file holds -/

/-- What a reading gives to one who asks for records: an error, or a record with data. -/
def seen? : Reading → Option Reading
  | .ok r => if r.hasData then some (.ok r) else none
  | .error e => some (.error e)

/-- Reading all records gives what the lines give, without the records that have no data. -/
theorem stream_eq (schema : Schema) (contents : Bytes) :
    stream schema contents = (readings schema contents).filterMap seen? := by
  have hentry : Line.seen? schema = seen? ∘ Line.record schema := by
    funext line
    show Line.seen? schema line = seen? (Line.record schema line)
    rw [Line.seen?]
    cases Line.record schema line <;> rfl
  rw [stream, readings, List.filterMap_map, hentry]

/-- The lines of a file give these records, one after the other, and no error. -/
def Holds (schema : Schema) (contents : Bytes) (entries : List Record) : Prop :=
  stream schema contents = entries.map .ok

section Readings

variable {key : String} {x r : Record} {rs rs' : List Reading} {entries : List Record}

theorem seen?_of_hasData (h : r.hasData = true) : seen? (.ok r) = some (.ok r) := if_pos h

/-- The entries are the records with data among the readings. -/
private theorem mem_entries (h : rs.filterMap seen? = entries.map .ok) :
    r ∈ entries ↔ .ok r ∈ rs ∧ r.hasData = true := by
  have hmap : r ∈ entries ↔ (.ok r : Reading) ∈ entries.map Except.ok := by simp
  rw [hmap, ← h, List.mem_filterMap]
  constructor
  · rintro ⟨y, hy, he⟩
    cases y with
    | error e => exact nomatch he
    | ok r' =>
        by_cases hd : r'.hasData = true
        · cases (seen?_of_hasData hd).symm.trans he
          exact ⟨hy, hd⟩
        · rw [seen?, if_neg hd] at he
          exact nomatch he
  · rintro ⟨hr, hd⟩
    exact ⟨.ok r, hr, seen?_of_hasData hd⟩

/-- Where entries are given, every line is text. -/
private theorem exists_ok_of_mem (h : rs.filterMap seen? = entries.map .ok) {y : Reading}
    (hy : y ∈ rs) : ∃ r, y = .ok r := by
  cases y with
  | ok r => exact ⟨r, rfl⟩
  | error e =>
      have hmem : (.error e : Reading) ∈ rs.filterMap seen? :=
        List.mem_filterMap.mpr ⟨_, hy, rfl⟩
      rw [h] at hmem
      exact absurd hmem (by simp)

/-- A record with data stands among the readings where its entry stands among the entries. -/
private theorem entries_split {before after : List Reading} (hr : r.hasData = true)
    (h : (before ++ .ok r :: after).filterMap seen? = entries.map .ok) :
    ∃ eb ea, entries = eb ++ r :: ea ∧ before.filterMap seen? = eb.map .ok ∧
      after.filterMap seen? = ea.map .ok := by
  rw [List.filterMap_append, List.filterMap_cons_some (seen?_of_hasData hr)] at h
  obtain ⟨eb, rest, rfl, hb, hrest⟩ := List.map_eq_append_iff.mp h.symm
  obtain ⟨e, ea, rfl, he, ha⟩ := List.map_eq_cons_iff.mp hrest
  cases he
  exact ⟨eb, ea, rfl, hb.symm, ha.symm⟩

/-- A key that a search goes past is none of the entries. -/
private theorem notMem_of_passes (h : rs.filterMap seen? = entries.map .ok)
    (passed : ∀ y ∈ rs, Passes key y) : key ∉ Entries.keys entries := by
  intro hk
  obtain ⟨e, he, hek⟩ := Entries.mem_keys.mp hk
  obtain ⟨hmem, hdata⟩ := (mem_entries h).mp he
  obtain ⟨r, hr, hmiss⟩ := passed _ hmem
  cases hr
  exact hmiss ⟨hdata, hek⟩

/-- Putting a reading under its key puts its record into the map. -/
theorem PutReading.shown (put : PutReading key (.ok x) rs rs') (hx : x.HasKey key)
    (h : rs.filterMap seen? = entries.map .ok) (distinct : (Entries.keys entries).Nodup) :
    rs'.filterMap seen? = (Entries.put x entries).map .ok := by
  cases put with
  | inPlace passed hit =>
      obtain ⟨eb, ea, rfl, hb, ha⟩ := entries_split hit.1 h
      rw [Entries.put_split distinct (hit.2.trans hx.2.symm), List.filterMap_append,
        List.filterMap_cons_some (seen?_of_hasData hx.1), hb, ha, List.map_append, List.map_cons]
  | behind passed =>
      have hnew : x.key ∉ Entries.keys entries := hx.2 ▸ notMem_of_passes h passed
      rw [Entries.put_of_notMem hnew, List.filterMap_append, h,
        List.filterMap_cons_some (seen?_of_hasData hx.1), List.map_append]
      rfl

/-- A record without data under a key that no entry has leaves the map as it was. -/
theorem PutReading.shown_of_noData (put : PutReading key (.ok x) rs rs')
    (hx : x.hasData = false) (h : rs.filterMap seen? = entries.map .ok)
    (hk : key ∉ Entries.keys entries) : rs'.filterMap seen? = entries.map .ok := by
  cases put with
  | @inPlace before after r passed hit =>
      have hmem : r ∈ entries := (mem_entries h).mpr ⟨by simp, hit.1⟩
      exact absurd (Entries.mem_keys.mpr ⟨r, hmem, hit.2⟩) hk
  | behind passed =>
      have hnone : seen? (.ok x) = none := if_neg (by simp [hx])
      rw [List.filterMap_append, h, List.filterMap_cons_none hnone]
      exact List.append_nil _

/-- Taking out the first reading with a key takes its entry out of the map. -/
theorem TakenReading.shown (taken : TakenReading key rs rs')
    (h : rs.filterMap seen? = entries.map .ok) (distinct : (Entries.keys entries).Nodup) :
    key ∈ Entries.keys entries ∧
      rs'.filterMap seen? = (Entries.remove key entries).map .ok := by
  cases taken with
  | out passed hit =>
      obtain ⟨eb, ea, rfl, hb, ha⟩ := entries_split hit.1 h
      refine ⟨Entries.mem_keys.mpr ⟨_, by simp, hit.2⟩, ?_⟩
      rw [Entries.remove_split distinct hit.2, List.filterMap_append, hb, ha, List.map_append]

end Readings

namespace Holds

variable {schema : Schema} {key : String} {contents contents' : Bytes} {entries : List Record}

/-- A file that holds entries has no line that is no text. -/
theorem not_unreadable (h : Holds schema contents entries) {e : StoreError} :
    ¬ Unreadable schema key contents e := by
  rintro ⟨before, line, after, cut, -, fault⟩
  rw [Holds, stream_eq] at h
  have hmem : Line.record schema line ∈ readings schema contents :=
    List.mem_map_of_mem (by rw [cut]; simp)
  obtain ⟨r, hr⟩ := exists_ok_of_mem h hmem
  rw [fault] at hr
  exact nomatch hr

/-- A key that no line has is none of the entries. -/
theorem notMem_keys (h : Holds schema contents entries)
    (passed : ∀ l ∈ lines contents, Passes key (Line.record schema l)) :
    key ∉ Entries.keys entries := by
  rw [Holds, stream_eq] at h
  refine notMem_of_passes h fun y hy => ?_
  obtain ⟨l, hl, rfl⟩ := List.mem_map.mp hy
  exact passed l hl

/-- The entries are the records with data that the lines give. -/
theorem mem_iff (h : Holds schema contents entries) {r : Record} :
    r ∈ entries ↔ .ok r ∈ readings schema contents ∧ r.hasData = true := by
  rw [Holds, stream_eq] at h
  exact mem_entries h

/-- A line put under the key of its record puts the record into the map. -/
theorem put (h : Holds schema contents entries) (distinct : (Entries.keys entries).Nodup)
    {line : Bytes} {x : Record} (change : Put schema key line contents contents')
    (done : Terminated line) (read : Line.record schema line = .ok x) (hx : x.HasKey key) :
    Holds schema contents' (Entries.put x entries) := by
  rw [Holds, stream_eq] at h ⊢
  have hput := change.putReading done
  rw [read] at hput
  exact hput.shown hx h distinct

/-- A line without data put under a key that no entry has changes no entry. -/
theorem put_of_noData (h : Holds schema contents entries) {line : Bytes} {x : Record}
    (change : Put schema key line contents contents') (done : Terminated line)
    (read : Line.record schema line = .ok x) (hx : x.hasData = false)
    (hk : key ∉ Entries.keys entries) : Holds schema contents' entries := by
  rw [Holds, stream_eq] at h ⊢
  have hput := change.putReading done
  rw [read] at hput
  exact hput.shown_of_noData hx h hk

/-- The first line with a key taken out takes the entry out of the map. -/
theorem taken (h : Holds schema contents entries) (distinct : (Entries.keys entries).Nodup)
    (change : Taken schema key contents contents') :
    key ∈ Entries.keys entries ∧ Holds schema contents' (Entries.remove key entries) := by
  rw [Holds, stream_eq] at h ⊢
  exact change.takenReading.shown h distinct

end Holds

/-! ### Changes of a store whose file holds entries

    Connected to a regular file that holds entries, a store can do all that it is asked: no line
    stops a search, and the file can be written. -/

namespace FileStore

variable {s : FileStore} {path name : String} {entries : List Record}

/-- An upsert into a file that holds entries succeeds, and puts its line. -/
theorem upsert_of_holds (connected : s.connection = some ⟨path, .file name⟩)
    (holds : Holds s.schema (s.disk.read (.file name)) entries) {r : Record}
    (schema : r.schema = s.schema) (data : r.hasData = true) (storable : r.Storable) :
    ∃ contents disk, Put s.schema r.key r.storedLine (s.disk.read (.file name)) contents ∧
      s.disk.replace contents (.file name) = .ok disk ∧
      s.upsert r = ({ s with disk := disk, written := s.written.insert r.key r }, .ok ()) := by
  have valid : s.checkRecord r = .ok () := checkRecord_eq_ok_iff.mpr ⟨schema, storable⟩
  have outcome := upsert_outcome s r
  generalize s.upsert r = o at outcome ⊢
  cases outcome with
  | ignored empty => exact absurd (data.symm.trans empty) (by simp)
  | refused _ invalid => exact nomatch valid.symm.trans invalid
  | disconnected _ _ closed => exact nomatch connected.symm.trans closed
  | unreadable _ _ connected' bad =>
      cases connected.symm.trans connected'
      exact absurd bad holds.not_unreadable
  | unwritable _ _ connected' fails =>
      cases connected.symm.trans connected'
      exact nomatch fails
  | written _ _ connected' put replaced =>
      cases connected.symm.trans connected'
      exact ⟨_, _, put, replaced, rfl⟩

/-- A deletion from a file that holds entries succeeds, tells whether there was one, and leaves the
    others. -/
theorem delete_of_holds (connected : s.connection = some ⟨path, .file name⟩)
    (holds : Holds s.schema (s.disk.read (.file name)) entries)
    (distinct : (Entries.keys entries).Nodup) {key : String} (ne : key ≠ "") :
    ∃ disk, (disk = s.disk ∨ ∃ contents, s.disk.replace contents (.file name) = .ok disk) ∧
      Holds s.schema (disk.read (.file name)) (Entries.remove key entries) ∧
      s.delete key = ({ s with disk := disk, written := s.written.erase key },
        .ok (s.written.contains key || decide (key ∈ Entries.keys entries))) := by
  have outcome := delete_outcome s key
  generalize s.delete key = o at outcome ⊢
  cases outcome with
  | noKey empty => exact absurd empty ne
  | disconnected _ closed => exact nomatch connected.symm.trans closed
  | unreadable _ connected' bad =>
      cases connected.symm.trans connected'
      exact absurd bad holds.not_unreadable
  | removed _ connected' taken replaced =>
      cases connected.symm.trans connected'
      obtain ⟨hkey, hholds⟩ := holds.taken distinct taken
      refine ⟨_, .inr ⟨_, replaced⟩, ?_, ?_⟩
      · rwa [Disk.read_replace_self replaced]
      · rw [decide_eq_true hkey, Bool.or_true]
  | absent _ connected' passed =>
      cases connected.symm.trans connected'
      have hkey : key ∉ Entries.keys entries := holds.notMem_keys passed
      refine ⟨s.disk, .inl rfl, ?_, ?_⟩
      · rwa [Entries.remove_of_notMem hkey]
      · rw [decide_eq_false hkey, Bool.or_false]

end FileStore

/-! ## The entries of a store in memory

    A store in memory keeps the records themselves, and reads them by way of the lines that they
    would have in a file.  So not all that it keeps is seen: a record of one field that is blank
    has an empty line, which gives no entry.  The route:

    * `shown`: what is seen of a list of records, and `holds_storedLines`: it is what their lines
      give;
    * `place_eq_put`: the list is changed as the ordered map is;
    * `shown_place`, `shown_place_blank`, `shown_remove`: what is seen of the list afterwards. -/

/-- The entries that the lines of records give. -/
def shown (stored : List Record) : List Record :=
  (stored.filter fun r => r.toLine ≠ "").map Record.stored

/-- Records of a schema with storable values: their lines can be read. -/
def Storables (schema : Schema) (stored : List Record) : Prop :=
  ∀ r ∈ stored, r.schema = schema ∧ r.Storable

/-! ### Lines and entries -/

/-- A record is seen unless its line is empty. -/
theorem shown_cons (r : Record) (stored : List Record) :
    shown (r :: stored) = if r.toLine = "" then shown stored else r.stored :: shown stored := by
  by_cases h : r.toLine = ""
  · rw [if_pos h, shown, List.filter_cons_of_neg (by simpa using h), shown]
  · rw [if_neg h, shown, List.filter_cons_of_pos (by simpa using h), List.map_cons, shown]

/-- What is seen has no keys but those of what is kept. -/
theorem keys_shown (stored : List Record) :
    (Entries.keys (shown stored)).Sublist (Entries.keys stored) := by
  rw [Entries.keys, shown, List.map_map]
  exact List.filter_sublist.map Record.key

theorem nodup_keys_shown {stored : List Record} (h : (Entries.keys stored).Nodup) :
    (Entries.keys (shown stored)).Nodup := h.sublist (keys_shown stored)

/-- A key that is not empty is that of a record exactly when it is that of an entry. -/
theorem mem_keys_shown {stored : List Record} {key : String} (ne : key ≠ "") :
    key ∈ Entries.keys (shown stored) ↔ key ∈ Entries.keys stored := by
  refine ⟨fun h => (keys_shown stored).subset h, fun h => ?_⟩
  obtain ⟨r, hr, rfl⟩ := Entries.mem_keys.mp h
  have hline : r.toLine ≠ "" := Record.toLine_ne_empty (.inl ne)
  refine Entries.mem_keys.mpr ⟨r.stored, ?_, rfl⟩
  exact List.mem_map_of_mem (List.mem_filter.mpr ⟨hr, decide_eq_true hline⟩)

/-- The lines of records are one for each. -/
theorem lines_storedLines {schema : Schema} {stored : List Record} (h : Storables schema stored) :
    lines (stored.flatMap Record.storedLine) = stored.map Record.storedLine :=
  lines_flatMap fun r hr => Record.terminated_storedLine (h r hr).2

/-- The lines of records give what is shown of the records. -/
theorem holds_storedLines {schema : Schema} {stored : List Record}
    (h : Storables schema stored) :
    Holds schema (stored.flatMap Record.storedLine) (shown stored) := by
  rw [Holds, stream, lines_storedLines h]
  induction stored with
  | nil => rfl
  | cons r stored ih =>
      obtain ⟨⟨rfl, storable⟩, hrest⟩ := List.forall_mem_cons.mp h
      rw [List.map_cons, List.filterMap_cons, ih hrest, Line.seen?,
        Line.record_storedLine storable, shown_cons]
      by_cases hline : r.toLine = ""
      · rw [if_pos hline, hline]
        rfl
      · rw [if_neg hline, Record.parse_toLine storable hline]
        rfl

/-! ### Changes -/

namespace MemoryStore

variable {r : Record} {stored : List Record}

theorem mem_place {x : Record} (h : x ∈ place r stored) : x = r ∨ x ∈ stored := by
  induction stored with
  | nil => exact .inl (List.mem_singleton.mp h)
  | cons other others ih =>
      rw [place] at h
      split at h
      · rcases List.mem_cons.mp h with h | h
        · exact .inl h
        · exact .inr (List.mem_cons_of_mem _ h)
      · rcases List.mem_cons.mp h with rfl | h
        · exact .inr List.mem_cons_self
        · exact (ih h).imp_right (List.mem_cons_of_mem _)

/-- Where keys are distinct, the list is changed as the ordered map is. -/
theorem place_eq_put (h : (Entries.keys stored).Nodup) : place r stored = Entries.put r stored := by
  induction stored with
  | nil => rfl
  | cons other others ih =>
      rw [place]
      by_cases ho : other.key = r.key
      · have hsplit : Entries.put r ([] ++ other :: others) = [] ++ r :: others :=
          Entries.put_split h ho
        rw [if_pos ho]
        exact hsplit.symm
      · rw [if_neg ho, ih (List.nodup_cons.mp h).2, Entries.put_cons_of_ne ho]

/-- Among records of one schema, those with the key of a record have an empty line if it has. -/
private theorem toLine_eq_empty_congr {r r' : Record} (schema : r'.schema = r.schema)
    (key : r'.key = r.key) : r'.toLine = "" ↔ r.toLine = "" := by
  rw [Record.toLine_eq_empty_iff, Record.toLine_eq_empty_iff, schema, key]

/-- A record with a line is seen where it was placed. -/
theorem shown_place_of_ne (ne : r.toLine ≠ "") (h : Storables r.schema stored) :
    shown (place r stored) = place r.stored (shown stored) := by
  induction stored with
  | nil => rw [place, shown_cons, if_neg ne]; rfl
  | cons other others ih =>
      obtain ⟨⟨schema, -⟩, hrest⟩ := List.forall_mem_cons.mp h
      -- a record with the key is shown as well, so both lists change at the same place
      by_cases ho : other.key = r.key
      · have hother : other.toLine ≠ "" := mt (toLine_eq_empty_congr schema ho).mp ne
        rw [place, if_pos ho, shown_cons, if_neg ne, shown_cons, if_neg hother, place]
        exact (if_pos ho).symm
      · rw [place, if_neg ho, shown_cons, ih hrest, shown_cons]
        by_cases hline : other.toLine = ""
        · rw [if_pos hline, if_pos hline]
        · rw [if_neg hline, if_neg hline, place]
          exact (if_neg ho).symm

/-- A record that is shown is put among what is shown. -/
theorem shown_place (ne : r.toLine ≠ "") (h : Storables r.schema stored)
    (distinct : (Entries.keys stored).Nodup) :
    shown (place r stored) = Entries.put r.stored (shown stored) := by
  rw [shown_place_of_ne ne h, place_eq_put (nodup_keys_shown distinct)]

/-- A record with an empty line makes no difference in what is shown. -/
theorem shown_place_blank (blank : r.toLine = "") (h : Storables r.schema stored) :
    shown (place r stored) = shown stored := by
  induction stored with
  | nil => rw [place, shown_cons, if_pos blank]
  | cons other others ih =>
      obtain ⟨⟨schema, -⟩, hrest⟩ := List.forall_mem_cons.mp h
      by_cases ho : other.key = r.key
      · have hother : other.toLine = "" := (toLine_eq_empty_congr schema ho).mpr blank
        rw [place, if_pos ho, shown_cons, if_pos blank, shown_cons, if_pos hother]
      · rw [place, if_neg ho, shown_cons, ih hrest, shown_cons]

/-- No entry has the key of a record with an empty line. -/
theorem notMem_keys_shown (blank : r.toLine = "") (h : Storables r.schema stored) :
    r.key ∉ Entries.keys (shown stored) := by
  intro hk
  obtain ⟨e, he, hek⟩ := Entries.mem_keys.mp hk
  obtain ⟨o, ho, rfl⟩ := List.mem_map.mp he
  obtain ⟨hmem, hline⟩ := List.mem_filter.mp ho
  exact of_decide_eq_true hline ((toLine_eq_empty_congr (h o hmem).1 hek).mpr blank)

/-- What is shown of the records without a key is what was shown without it. -/
theorem shown_remove (key : String) (stored : List Record) :
    shown (Entries.remove key stored) = Entries.remove key (shown stored) := by
  rw [shown, Entries.remove, Entries.remove, shown, List.filter_map, List.filter_filter,
    List.filter_filter]
  refine congrArg (List.map Record.stored) (List.filter_congr fun r _ => ?_)
  exact Bool.and_comm ..

end MemoryStore

end RecordStore
