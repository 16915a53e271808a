import RecordStore.Proofs.Record.Storage
import RecordStore.Store.File

/-! # Changes of a file

    An upsert and a deletion search the file for a key and then edit it in one place.  First the
    search, then the changes it leads to, and at last what they leave alone. -/

namespace RecordStore

open RecordStore.Text

/-! ## Searching a file for a key

    A search reads the lines of a file from the first on.  It goes past a line that is text and
    holds no record with the key, and ends in one of three ways: at the first record with the
    key, at the end of the file, or at a line that cannot be read.  The route:

    * `Reading`, `readings`: what the lines of a file give, one reading a line;
    * `Search`: the three ways, and `search`: one of them is taken;
    * `locate_found`, `locate_absent`, `locate_unreadable`: the place that `locate` gives in each;
    * `splice_line`: the bytes of a file with other bytes in the place of a line. -/

/-! ### Readings -/

/-- What reading a line gives: a record, or why it cannot be read. -/
abbrev Reading := Except StoreError Record

/-- What the lines of a file give. -/
def readings (schema : Schema) (contents : Bytes) : List Reading :=
  (lines contents).map (Line.record schema)

/-- A record with data and the given key. -/
def Record.HasKey (key : String) (r : Record) : Prop := r.hasData = true ∧ r.key = key

instance (key : String) (r : Record) : Decidable (r.HasKey key) :=
  inferInstanceAs (Decidable (_ ∧ _))

/-- A reading that a search for a key goes past. -/
def Passes (key : String) (x : Reading) : Prop := ∃ r, x = .ok r ∧ ¬ r.HasKey key

/-- How a search for a key through lines ends. -/
inductive Search (schema : Schema) (key : String) (ls : List Bytes) : Prop where
  | found {before after : List Bytes} {line : Bytes} {r : Record}
      (cut : ls = before ++ line :: after)
      (passed : ∀ l ∈ before, Passes key (Line.record schema l))
      (read : Line.record schema line = .ok r) (hit : r.HasKey key)
  | absent (passed : ∀ l ∈ ls, Passes key (Line.record schema l))
  | unreadable {before after : List Bytes} {line : Bytes} {e : StoreError}
      (cut : ls = before ++ line :: after)
      (passed : ∀ l ∈ before, Passes key (Line.record schema l))
      (fault : Line.record schema line = .error e)

/-- Every search ends in one of the three ways. -/
theorem search (schema : Schema) (key : String) (ls : List Bytes) : Search schema key ls := by
  induction ls with
  | nil => exact .absent (by simp)
  | cons line rest ih =>
      have first : line :: rest = [] ++ line :: rest := rfl
      cases hl : Line.record schema line with
      | error e => exact .unreadable first (by simp) hl
      | ok r =>
          by_cases hr : r.HasKey key
          · exact .found first (by simp) hl hr
          · -- the search goes on, and ends as it does in the rest
            have hp : Passes key (Line.record schema line) := ⟨r, hl, hr⟩
            cases ih with
            | found cut passed read hit =>
                exact .found (congrArg (line :: ·) cut) (List.forall_mem_cons.mpr ⟨hp, passed⟩)
                  read hit
            | absent passed => exact .absent (List.forall_mem_cons.mpr ⟨hp, passed⟩)
            | unreadable cut passed fault =>
                exact .unreadable (congrArg (line :: ·) cut)
                  (List.forall_mem_cons.mpr ⟨hp, passed⟩) fault

/-! ### The place of a key -/

section Locate

variable {schema : Schema} {key : String} {contents : Bytes} {before after : List Bytes}
  {line : Bytes}

/-- A search goes past lines; `front` is what it has read before them. -/
private theorem locateFrom_append (front : Bytes) (ne : ∀ l ∈ before, l ≠ [])
    (passed : ∀ l ∈ before, Passes key (Line.record schema l)) (rest : List Bytes) :
    locateFrom schema key front.length (isTerminated front) (before ++ rest)
      = locateFrom schema key (front ++ before.flatten).length
          (isTerminated (front ++ before.flatten)) rest := by
  induction before generalizing front with
  | nil => rw [List.flatten_nil, List.append_nil, List.nil_append]
  | cons line before ih =>
      obtain ⟨r, hr, hk⟩ := passed line List.mem_cons_self
      -- the line is read into `front`; whether that is terminated is known from the line alone
      have hne : line ≠ [] := ne line List.mem_cons_self
      have hterm : (line.getLast? == some lineFeed) = isTerminated (front ++ line) := by
        rw [isTerminated_append hne, isTerminated, List.getLast?_eq_some_getLast hne]
        rfl
      have hskip : (r.hasData && r.key == key) = false := by
        simpa [Record.HasKey] using hk
      have hrec := ih (front ++ line) (fun l hl => ne l (List.mem_cons_of_mem _ hl))
        (fun l hl => passed l (List.mem_cons_of_mem _ hl))
      rw [List.flatten_cons, ← List.append_assoc, ← hrec, List.length_append, ← hterm]
      simp only [List.cons_append, locateFrom, hr, bind, Except.bind, hskip]
      rfl

/-- The search goes past lines without the key and on behind them. -/
private theorem locate_append (cut : lines contents = before ++ after)
    (passed : ∀ l ∈ before, Passes key (Line.record schema l)) :
    locate schema key contents
      = locateFrom schema key before.flatten.length (isTerminated before.flatten) after := by
  have ne : ∀ l ∈ before, l ≠ [] := fun l hl =>
    ne_nil_of_mem_lines (cut ▸ List.mem_append_left _ hl)
  rw [locate, cut]
  exact locateFrom_append [] ne passed after

/-- The first line with the key is where its bytes are. -/
theorem locate_found {r : Record} (cut : lines contents = before ++ line :: after)
    (passed : ∀ l ∈ before, Passes key (Line.record schema l))
    (read : Line.record schema line = .ok r) (hit : r.HasKey key) :
    locate schema key contents = .ok (.line before.flatten.length line.length) := by
  have hstop : (r.hasData && r.key == key) = true := by
    simpa [Record.HasKey] using hit
  rw [locate_append cut passed]
  simp only [locateFrom, read, bind, Except.bind, hstop]
  rfl

/-- Where no line has the key, the place is the end of the file. -/
theorem locate_absent (passed : ∀ l ∈ lines contents, Passes key (Line.record schema l)) :
    locate schema key contents = .ok (.ending contents.length (!isTerminated contents)) := by
  rw [locate_append (List.append_nil _).symm passed, flatten_lines]
  rfl

/-- A line that is no text ends the search, if no line before it has the key. -/
theorem locate_unreadable {e : StoreError} (cut : lines contents = before ++ line :: after)
    (passed : ∀ l ∈ before, Passes key (Line.record schema l))
    (fault : Line.record schema line = .error e) : locate schema key contents = .error e := by
  rw [locate_append cut passed]
  simp only [locateFrom, fault, bind, Except.bind]

/-! ### Bytes in the place of a line -/

/-- Other bytes in the place of a line, and all others where they were. -/
theorem splice_line (cut : lines contents = before ++ line :: after) (bytes : Bytes) :
    splice contents before.flatten.length line.length bytes
      = before.flatten ++ bytes ++ after.flatten := by
  have hc : contents = before.flatten ++ (line ++ after.flatten) := by
    rw [← flatten_lines contents, cut, List.flatten_append, List.flatten_cons]
  have within : before.flatten.length ≤ contents.length := by
    rw [hc, List.length_append]
    exact Nat.le_add_right _ _
  rw [splice_eq within, hc, List.take_left, ← List.drop_drop, List.drop_left, List.drop_left]

theorem splice_end (contents bytes : Bytes) :
    splice contents contents.length 0 bytes = contents ++ bytes := by
  rw [splice_eq (Nat.le_refl _), List.take_length, Nat.add_zero, List.drop_length,
    List.append_nil]

end Locate

/-! ## What an upsert and a deletion do to a store in a file

    Each of the two changes is told once, completely: the ways in which it can end, and for each
    way the store afterwards and the result.  Everything that is known of runs of changes is read
    off these two lists of cases.  The route:

    * `Put`, `Taken`: the contents of a file after a line was put under a key, or taken out;
    * `PutReading`, `TakenReading`: the same for what the lines give;
    * `upsert_outcome`, `delete_outcome`: the cases of the two changes. -/

/-! ### Contents before and after -/

/-- The contents after a line was put under a key: over the first line with the key, or behind
    all lines when none has it. -/
inductive Put (schema : Schema) (key : String) (line contents : Bytes) : Bytes → Prop where
  | inPlace {before after : List Bytes} {old : Bytes} {r : Record}
      (cut : lines contents = before ++ old :: after)
      (passed : ∀ l ∈ before, Passes key (Line.record schema l))
      (read : Line.record schema old = .ok r) (hit : r.HasKey key) :
      Put schema key line contents (before.flatten ++ line ++ after.flatten)
  | behind (passed : ∀ l ∈ lines contents, Passes key (Line.record schema l)) :
      Put schema key line contents (terminate contents ++ line)

/-- The contents after the first line with a key was taken out. -/
inductive Taken (schema : Schema) (key : String) (contents : Bytes) : Bytes → Prop where
  | out {before after : List Bytes} {old : Bytes} {r : Record}
      (cut : lines contents = before ++ old :: after)
      (passed : ∀ l ∈ before, Passes key (Line.record schema l))
      (read : Line.record schema old = .ok r) (hit : r.HasKey key) :
      Taken schema key contents (before.flatten ++ after.flatten)

/-- Readings after one was put under a key. -/
inductive PutReading (key : String) (x : Reading) : List Reading → List Reading → Prop where
  | inPlace {before after : List Reading} {r : Record} (passed : ∀ y ∈ before, Passes key y)
      (hit : r.HasKey key) : PutReading key x (before ++ .ok r :: after) (before ++ x :: after)
  | behind {all : List Reading} (passed : ∀ y ∈ all, Passes key y) :
      PutReading key x all (all ++ [x])

/-- Readings after the first with a key was taken out. -/
inductive TakenReading (key : String) : List Reading → List Reading → Prop where
  | out {before after : List Reading} {r : Record} (passed : ∀ y ∈ before, Passes key y)
      (hit : r.HasKey key) : TakenReading key (before ++ .ok r :: after) (before ++ after)

/-- Lines that are all text give the same when the last of them is terminated. -/
theorem readings_terminate {schema : Schema} {contents : Bytes}
    (readable : ∀ l ∈ lines contents, ∃ r, Line.record schema l = .ok r) :
    readings schema (terminate contents) = readings schema contents := by
  rcases (lines_terminate contents).1 with h | ⟨before, last, hc, ht⟩
  · rw [readings, h, readings]
  · -- only the last line differs, by a line feed that is trimmed off again
    obtain ⟨r, hr⟩ := readable last (by rw [hc]; simp)
    rw [readings, readings, hc, ht, List.map_append, List.map_append, List.map_singleton,
      List.map_singleton, hr, Line.record_append_lineFeed hr]

private theorem passes_map {schema : Schema} {key : String} {ls : List Bytes}
    (passed : ∀ l ∈ ls, Passes key (Line.record schema l)) :
    ∀ y ∈ ls.map (Line.record schema), Passes key y := by
  intro y hy
  obtain ⟨l, hl, rfl⟩ := List.mem_map.mp hy
  exact passed l hl

/-- What the lines give after a line was put. -/
theorem Put.putReading {schema : Schema} {key : String} {line contents contents' : Bytes}
    (put : Put schema key line contents contents') (done : Terminated line) :
    PutReading key (Line.record schema line) (readings schema contents)
      (readings schema contents') := by
  cases put with
  | @inPlace before after old r cut passed read hit =>
      rw [readings, readings, cut, lines_replace cut done, List.map_append, List.map_append,
        List.map_cons, List.map_cons, read]
      exact .inPlace (passes_map passed) hit
  | behind passed =>
      have readable : ∀ l ∈ lines contents, ∃ r, Line.record schema l = .ok r := fun l hl =>
        (passed l hl).imp fun _ h => h.1
      have hlines : readings schema (terminate contents ++ line)
          = readings schema contents ++ [Line.record schema line] := by
        rw [← readings_terminate readable, readings, lines_terminate_append contents done,
          List.map_append, List.map_singleton]
        rfl
      rw [hlines]
      exact .behind (passes_map passed)

/-- What the lines give after a line was taken out. -/
theorem Taken.takenReading {schema : Schema} {key : String} {contents contents' : Bytes}
    (taken : Taken schema key contents contents') :
    TakenReading key (readings schema contents) (readings schema contents') := by
  cases taken with
  | @out before after old r cut passed read hit =>
      rw [readings, readings, cut, lines_remove cut, List.map_append, List.map_append,
        List.map_cons, read]
      exact .out (passes_map passed) hit

/-! ### The two changes of a store -/

/-- A line that is no text comes before any line with the key. -/
def Unreadable (schema : Schema) (key : String) (contents : Bytes) (e : StoreError) : Prop :=
  ∃ before line after, lines contents = before ++ line :: after ∧
    (∀ l ∈ before, Passes key (Line.record schema l)) ∧ Line.record schema line = .error e

namespace FileStore

theorem checkRecord_of_schema {s : FileStore} {r : Record} (h : r.schema = s.schema) :
    s.checkRecord r = Store.checkStorable s.schema.fields r.values := by
  rw [checkRecord, if_neg (not_not_intro h)]

/-- A record may be put when it is of the schema of the store and storable. -/
theorem checkRecord_eq_ok_iff {s : FileStore} {r : Record} :
    s.checkRecord r = .ok () ↔ r.schema = s.schema ∧ r.Storable := by
  by_cases h : r.schema = s.schema
  · have hw : r.values.length = s.schema.fields.length := h ▸ r.length_values
    rw [checkRecord_of_schema h, Store.checkStorable_eq_ok_iff hw]
    exact (and_iff_right h).symm
  · have hs : s.checkRecord r = .error (.malformedRecord .otherSchema) := by
      rw [checkRecord, if_pos h]
      rfl
    rw [hs]
    exact ⟨fun e => (nomatch e), fun e => absurd e.1 h⟩

/-- How an upsert ends: what the store is afterwards, and the result. -/
inductive UpsertOutcome (s : FileStore) (r : Record) : Outcome FileStore Unit → Prop where
  | ignored (empty : r.hasData = false) : UpsertOutcome s r (s, .ok ())
  | refused {e : StoreError} (data : r.hasData = true) (invalid : s.checkRecord r = .error e) :
      UpsertOutcome s r (s, .error e)
  | disconnected (data : r.hasData = true) (valid : s.checkRecord r = .ok ())
      (closed : s.connection = none) : UpsertOutcome s r (s, .error (.unavailable .notConnected))
  | unreadable {c : Connection} {e : StoreError} (data : r.hasData = true)
      (valid : s.checkRecord r = .ok ()) (connected : s.connection = some c)
      (bad : Unreadable s.schema r.key (s.disk.read c.handle) e) :
      UpsertOutcome s r (s, .error e)
  | unwritable {c : Connection} {contents : Bytes} {fault : Disk.Fault}
      (data : r.hasData = true) (valid : s.checkRecord r = .ok ())
      (connected : s.connection = some c)
      (fails : s.disk.replace contents c.handle = .error fault) :
      UpsertOutcome s r (s, .error (.writeFailed fault))
  | written {c : Connection} {contents : Bytes} {disk : Disk}
      (data : r.hasData = true) (valid : s.checkRecord r = .ok ())
      (connected : s.connection = some c)
      (put : Put s.schema r.key r.storedLine (s.disk.read c.handle) contents)
      (replaced : s.disk.replace contents c.handle = .ok disk) :
      UpsertOutcome s r
        ({ s with disk := disk, written := s.written.insert r.key r }, .ok ())

/-- An upsert that has found the place for its line ends as the edit of the file does. -/
private theorem outcome_of_edit {s : FileStore} {r : Record} {c : Connection} {contents : Bytes}
    {offset length : Nat} {bytes : Bytes} (data : r.hasData = true)
    (valid : s.checkRecord r = .ok ()) (connected : s.connection = some c)
    (put : Put s.schema r.key r.storedLine (s.disk.read c.handle) contents)
    (spliced : splice (s.disk.read c.handle) offset length bytes = contents)
    (edited : s.store r = s.edit c.handle offset length bytes) :
    UpsertOutcome s r (s.upsert r) := by
  rw [upsert, if_pos data, valid]
  simp only [bind, Except.bind, edited, edit, spliced]
  cases hr : s.disk.replace contents c.handle with
  | error fault => exact .unwritable data valid connected hr
  | ok disk => exact .written data valid connected put hr

/-- Every upsert ends in one of the ways listed. -/
theorem upsert_outcome (s : FileStore) (r : Record) : UpsertOutcome s r (s.upsert r) := by
  cases data : r.hasData with
  | false =>
      rw [upsert, data]
      exact .ignored data
  | true =>
      cases valid : s.checkRecord r with
      | error e =>
          rw [upsert, if_pos data, valid]
          exact .refused data valid
      | ok u =>
          cases connected : s.connection with
          | none =>
              have hs : s.store r = .error (.unavailable .notConnected) := by
                simp only [store, handle, connected, bind, Except.bind]
              rw [upsert, if_pos data, valid]
              simp only [bind, Except.bind, hs]
              exact .disconnected data valid connected
          | some c =>
              have hh : s.handle = .ok c.handle := by rw [handle, connected]
              -- from here on the upsert ends as the search for the key does
              rcases search s.schema r.key (lines (s.disk.read c.handle)) with
                ⟨cut, passed, read, hit⟩ | ⟨passed⟩ | ⟨cut, passed, fault⟩
              · refine outcome_of_edit data valid connected (.inPlace cut passed read hit)
                  (splice_line cut _) ?_
                simp only [store, hh, bind, Except.bind, locate_found cut passed read hit]
              · -- the line feed that the last line may lack goes in front of the new line
                cases ht : isTerminated (s.disk.read c.handle) with
                | true =>
                    refine outcome_of_edit data valid connected (.behind passed)
                      ((splice_end _ r.storedLine).trans ?_) ?_
                    · rw [terminate, if_pos ht]
                    · simp only [store, hh, bind, Except.bind, locate_absent passed, ht]
                      rfl
                | false =>
                    refine outcome_of_edit data valid connected (.behind passed)
                      ((splice_end _ (lineFeed :: r.storedLine)).trans ?_) ?_
                    · rw [terminate, ht]
                      exact List.append_cons ..
                    · simp only [store, hh, bind, Except.bind, locate_absent passed, ht]
                      rfl
              · have hs := locate_unreadable cut passed fault
                rw [upsert, if_pos data, valid]
                simp only [bind, Except.bind, store, hh, hs]
                exact .unreadable data valid connected ⟨_, _, _, cut, passed, fault⟩

/-- How a deletion ends: what the store is afterwards, and the result. -/
inductive DeleteOutcome (s : FileStore) (key : String) : Outcome FileStore Bool → Prop where
  | noKey (empty : key = "") : DeleteOutcome s key (s, .ok false)
  | disconnected (ne : key ≠ "") (closed : s.connection = none) :
      DeleteOutcome s key
        ({ s with written := s.written.erase key }, .error (.unavailable .notConnected))
  | unreadable {c : Connection} {e : StoreError} (ne : key ≠ "")
      (connected : s.connection = some c)
      (bad : Unreadable s.schema key (s.disk.read c.handle) e) :
      DeleteOutcome s key ({ s with written := s.written.erase key }, .error e)
  | removed {c : Connection} {contents : Bytes} {disk : Disk} (ne : key ≠ "")
      (connected : s.connection = some c)
      (taken : Taken s.schema key (s.disk.read c.handle) contents)
      (replaced : s.disk.replace contents c.handle = .ok disk) :
      DeleteOutcome s key ({ s with disk := disk, written := s.written.erase key }, .ok true)
  | absent {c : Connection} (ne : key ≠ "") (connected : s.connection = some c)
      (passed : ∀ l ∈ lines (s.disk.read c.handle), Passes key (Line.record s.schema l)) :
      DeleteOutcome s key
        ({ s with written := s.written.erase key }, .ok (s.written.contains key))

/-- A file in which a line was found is one that can be written to. -/
private theorem replace_of_cut {disk : Disk} {handle : Disk.Handle} {before after : List Bytes}
    {line : Bytes} (cut : lines (disk.read handle) = before ++ line :: after) (contents : Bytes) :
    ∃ disk', disk.replace contents handle = .ok disk' := by
  cases handle with
  | device => simp [Disk.read, lines] at cut
  | file name => exact ⟨_, rfl⟩

/-- Every deletion ends in one of the ways listed. -/
theorem delete_outcome (s : FileStore) (key : String) : DeleteOutcome s key (s.delete key) := by
  by_cases ne : key = ""
  · rw [ne]
    exact .noKey rfl
  have hne : ¬ key.isEmpty := by simpa using ne
  rw [delete, if_neg hne]
  rcases Option.eq_none_or_eq_some s.connection with connected | ⟨c, connected⟩
  · simp only [remove, handle, connected, bind, Except.bind]
    have h := DeleteOutcome.disconnected ne connected
    rwa [connected] at h
  have hh : handle { s with written := s.written.erase key } = .ok c.handle := by
    simp only [handle, connected]
  cases search s.schema key (lines (s.disk.read c.handle)) with
  | @found before after line r cut passed read hit =>
      obtain ⟨disk, hr⟩ := replace_of_cut cut (before.flatten ++ after.flatten)
      have hs := splice_line cut []
      rw [List.append_nil] at hs
      simp only [remove, hh, bind, Except.bind, locate_found cut passed read hit, edit, hs, hr,
        pure, Except.pure, Bool.or_true]
      exact .removed ne connected (.out cut passed read hit) hr
  | absent passed =>
      simp only [remove, hh, bind, Except.bind, locate_absent passed, pure, Except.pure,
        Bool.or_false]
      exact .absent ne connected passed
  | unreadable cut passed fault =>
      simp only [remove, hh, bind, Except.bind, locate_unreadable cut passed fault]
      exact .unreadable ne connected ⟨_, _, _, cut, passed, fault⟩

end FileStore

/-! ## The bytes that a change leaves alone

    A change of a store edits the file in one place: at the first line with the key, or behind
    everything when no line has it.  What stands before that line and what stands behind it stay
    byte for byte, whatever these bytes are and however the length of the new line compares with
    that of the old; and no other file is touched.  The route:

    * `Line.HoldsKey`, `FirstWithKey`, `NoneWithKey`: the place of a key in a file, told by the
      texts of the lines;
    * `Put.bytes`, `Taken.bytes`: the contents after a change, in terms of that place;
    * `bytes_of_change`: every upsert and every deletion that succeeds. -/

section Bytes

/-! ### The place of a key -/

/-- A line whose text, without the carriage returns and line feeds at its end, is that of a record
    with data and the given key. -/
def Line.HoldsKey (schema : Schema) (key : String) (line : Bytes) : Prop :=
  ∃ text, decode line = .ok text ∧ (Record.parse schema (trimLineEnd text)).hasData = true ∧
    (Record.parse schema (trimLineEnd text)).key = key

/-- A line is the first of a file that holds the key; `front` stands before it and `back` behind. -/
def FirstWithKey (schema : Schema) (key : String) (contents front line back : Bytes) : Prop :=
  ∃ before after, lines contents = before ++ line :: after ∧
    front = before.flatten ∧ back = after.flatten ∧
    Line.HoldsKey schema key line ∧ ∀ l ∈ before, ¬ Line.HoldsKey schema key l

/-- No line of a file holds the key. -/
def NoneWithKey (schema : Schema) (key : String) (contents : Bytes) : Prop :=
  ∀ l ∈ lines contents, ¬ Line.HoldsKey schema key l

variable {schema : Schema} {key : String} {contents contents' front line back : Bytes}

/-- A line holds the key when it is read as a record that has it. -/
theorem Line.holdsKey_iff :
    Line.HoldsKey schema key line ↔ ∃ r, Line.record schema line = .ok r ∧ r.HasKey key := by
  rw [Line.HoldsKey, Line.record]
  cases decode line with
  | error fault =>
      refine iff_of_false ?_ ?_
      · rintro ⟨_, h, -⟩
        cases h
      · rintro ⟨_, h, -⟩
        cases h
  | ok text => simp only [Except.ok.injEq, exists_eq_left', Record.HasKey]

theorem not_holdsKey_of_passes (h : Passes key (Line.record schema line)) :
    ¬ Line.HoldsKey schema key line := by
  obtain ⟨r, hr, hkey⟩ := h
  rw [Line.holdsKey_iff]
  rintro ⟨r', hr', hit⟩
  cases hr.symm.trans hr'
  exact hkey hit

/-- The line and what stands around it are the file. -/
theorem FirstWithKey.whole (h : FirstWithKey schema key contents front line back) :
    contents = front ++ line ++ back := by
  obtain ⟨before, after, cut, rfl, rfl, -⟩ := h
  exact eq_around_line cut

/-- A cut at which a search for the key has stopped is at the first line with the key. -/
theorem firstWithKey_of_cut {before after : List Bytes} {r : Record}
    (cut : lines contents = before ++ line :: after)
    (passed : ∀ l ∈ before, Passes key (Line.record schema l))
    (read : Line.record schema line = .ok r) (hit : r.HasKey key) :
    FirstWithKey schema key contents before.flatten line after.flatten :=
  ⟨before, after, cut, rfl, rfl, Line.holdsKey_iff.mpr ⟨r, read, hit⟩,
    fun l hl => not_holdsKey_of_passes (passed l hl)⟩

/-! ### Contents before and after -/

/-- The contents after a line was put under a key: in the place of the first line with the key, or
    behind a line feed that the file may lack at its end. -/
theorem Put.bytes {new : Bytes} (put : Put schema key new contents contents') :
    (∃ front line back, FirstWithKey schema key contents front line back ∧
      contents = front ++ line ++ back ∧ contents' = front ++ new ++ back) ∨
    NoneWithKey schema key contents ∧
      contents' = if contents = [] ∨ contents.getLast? = some lineFeed then contents ++ new
        else contents ++ [lineFeed] ++ new := by
  cases put with
  | inPlace cut passed read hit =>
      have first := firstWithKey_of_cut cut passed read hit
      exact .inl ⟨_, _, _, first, first.whole, rfl⟩
  | behind passed =>
      refine .inr ⟨fun l hl => not_holdsKey_of_passes (passed l hl), ?_⟩
      rw [terminate]
      by_cases h : isTerminated contents = true
      · rw [if_pos h, if_pos (isTerminated_iff.mp h)]
      · rw [if_neg h, if_neg (mt isTerminated_iff.mpr h)]

/-- The contents after a deletion: the line is gone, and all else is as it was. -/
theorem Taken.bytes (taken : Taken schema key contents contents') :
    ∃ front line back, FirstWithKey schema key contents front line back ∧
      contents = front ++ line ++ back ∧ contents' = front ++ back := by
  cases taken with
  | out cut passed read hit =>
      have first := firstWithKey_of_cut cut passed read hit
      exact ⟨_, _, _, first, first.whole, rfl⟩

namespace FileStore

variable {s : FileStore} {c : Connection}

/-- A change touches no other open file, also when it fails. -/
theorem read_of_change (connected : s.connection = some c) {other : Disk.Handle}
    (ne : other ≠ c.handle) :
    (∀ r, (s.upsert r).1.disk.read other = s.disk.read other) ∧
      ∀ key, (s.delete key).1.disk.read other = s.disk.read other := by
  constructor
  · intro r
    have outcome := upsert_outcome s r
    generalize s.upsert r = o at outcome ⊢
    cases outcome with
    | ignored | refused | disconnected | unreadable | unwritable => rfl
    | written _ _ hc _ replaced =>
        cases connected.symm.trans hc
        exact Disk.read_replace_of_ne replaced ne
  · intro key
    have outcome := delete_outcome s key
    generalize s.delete key = o at outcome ⊢
    cases outcome with
    | noKey | disconnected | unreadable | absent => rfl
    | removed _ hc _ replaced =>
        cases connected.symm.trans hc
        exact Disk.read_replace_of_ne replaced ne

/-- **A change edits one line of the file and leaves all other bytes as they are.**  On every
    contents, an upsert of a record with data that succeeds puts the line of the record in the
    place of the first line with its key, or behind all lines when none has it, after a line feed
    if the last line lacks one.  A deletion that succeeds takes the first line with the key out, or
    changes nothing when there is none.  What stands before the line and behind it is the same
    before and after, and so is every other file. -/
theorem bytes_of_change (connected : s.connection = some c) :
    (∀ r s', r.hasData = true → s.upsert r = (s', .ok ()) →
      (∃ front line back,
        FirstWithKey s.schema r.key (s.disk.read c.handle) front line back ∧
        s.disk.read c.handle = front ++ line ++ back ∧
        s'.disk.read c.handle = front ++ r.storedLine ++ back) ∨
      NoneWithKey s.schema r.key (s.disk.read c.handle) ∧
        s'.disk.read c.handle =
          if s.disk.read c.handle = [] ∨ (s.disk.read c.handle).getLast? = some lineFeed
          then s.disk.read c.handle ++ r.storedLine
          else s.disk.read c.handle ++ [lineFeed] ++ r.storedLine) ∧
    (∀ key s' answer, key ≠ "" → s.delete key = (s', .ok answer) →
      (∃ front line back, FirstWithKey s.schema key (s.disk.read c.handle) front line back ∧
        s.disk.read c.handle = front ++ line ++ back ∧
        s'.disk.read c.handle = front ++ back) ∨
      NoneWithKey s.schema key (s.disk.read c.handle) ∧
        s'.disk.read c.handle = s.disk.read c.handle) ∧
    ∀ other, other ≠ c.handle →
      (∀ r, (s.upsert r).1.disk.read other = s.disk.read other) ∧
      ∀ key, (s.delete key).1.disk.read other = s.disk.read other := by
  refine ⟨?_, ?_, fun other ne => read_of_change connected ne⟩
  · intro r s' data h
    have outcome := upsert_outcome s r
    rw [h] at outcome
    cases outcome with
    | ignored empty => exact nomatch data.symm.trans empty
    | written _ _ hc put replaced =>
        cases connected.symm.trans hc
        rw [Disk.read_replace_self replaced]
        exact put.bytes
  · intro key s' answer ne h
    have outcome := delete_outcome s key
    rw [h] at outcome
    cases outcome with
    | noKey empty => exact absurd empty ne
    | removed _ hc taken replaced =>
        cases connected.symm.trans hc
        rw [Disk.read_replace_self replaced]
        exact .inl taken.bytes
    | absent _ hc passed =>
        cases connected.symm.trans hc
        exact .inr ⟨fun l hl => not_holdsKey_of_passes (passed l hl), rfl⟩

/-- A file with a view between a blank line and one that is no text, all ended differently. -/
def mixedLines : Bytes :=
  encode "\r\n" ++ encode "box|film|one\r\n" ++ [0xFF, lineFeed] ++ encode "box|show"

/-- A store connected to such a file. -/
def mixedViews : FileStore :=
  ⟨.mediaViews, ⟨[("views", mixedLines)], []⟩, some ⟨"views", .file "views"⟩, []⟩

/-- The view is replaced by a longer one and taken out, and the lines around it stay, also the one
    that is no text and the one that is not terminated. -/
theorem bytes_of_change_mixedViews :
    (∃ front line back, FirstWithKey .mediaViews "boxfilm" mixedLines front line back ∧
      (mixedViews.upsert (.parse .mediaViews "box|film|another")).1.disk.read (.file "views")
        = front ++ encode "box|film|another|||\n" ++ back) ∧
    ∃ front line back, FirstWithKey .mediaViews "boxfilm" mixedLines front line back ∧
      (mixedViews.delete "boxfilm").1.disk.read (.file "views") = front ++ back := by
  have held : ¬ NoneWithKey .mediaViews "boxfilm" mixedLines := by
    intro none
    refine none (encode "box|film|one\r\n") (by decide +kernel) ?_
    exact ⟨"box|film|one\r\n", decode_encode _, by decide +kernel, by decide +kernel⟩
  have hread : mixedViews.disk.read (.file "views") = mixedLines := rfl
  have connected : mixedViews.connection = some ⟨"views", .file "views"⟩ := rfl
  obtain ⟨upserts, deletes, -⟩ := bytes_of_change connected
  constructor
  · rcases upserts (.parse .mediaViews "box|film|another") _ (by decide +kernel) (by rfl) with
      ⟨front, line, back, first, -, after⟩ | ⟨none, -⟩
    · exact ⟨front, line, back, first, after⟩
    · exact absurd none held
  · rcases deletes "boxfilm" _ true (by decide) (by rfl) with
      ⟨front, line, back, first, -, after⟩ | ⟨none, -⟩
    · exact ⟨front, line, back, first, after⟩
    · exact absurd none held

end FileStore

end Bytes

end RecordStore
