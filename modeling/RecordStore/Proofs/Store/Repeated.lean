import RecordStore.Proofs.Record.Storage
import RecordStore.Proofs.Store.Change
import RecordStore.Proofs.Store.Entries

/-! # A record put into a file twice

    A record that was put into a file is found there by the next search for its key, so putting it
    once more writes the same line over itself.  That is so on every contents, also among lines
    that are no text, as long as the line of the record is not empty.  An empty line is read as no
    record: it is not found again and not given out, and every further upsert puts one more into
    the file.  Only a record of one field has an empty line, when its value is blank.  The route:

    * `replace_again`, `insert_again`: the disk and what is remembered, when the same is put twice;
    * `Put.split`: where a line stands after it was put, and what a search goes past before it;
    * `Put.ne_of_passes`: a line that does not hold the key changes the bytes;
    * `stream_split`: what reading all records gives around a line that is found;
    * `upsert_found`, `upsert_missed`: an upsert that finds its own line, and one that cannot;
    * `upsert_again`: the second upsert. -/

namespace RecordStore

open RecordStore.Text

/-! ## The same put twice -/

theorem Keyed.insert_again {α : Type} (entries : Keyed α) (key : String) (a : α) :
    (entries.insert key a).insert key a = entries.insert key a := by
  have hgone : (entries.erase key).erase key = entries.erase key :=
    erase_of_get?_eq_none (get?_erase_self entries key)
  have hfirst : Keyed.erase ((key, a) :: entries.erase key) key = (entries.erase key).erase key :=
    List.filter_cons_of_neg (by simp)
  rw [insert, insert, hfirst, hgone]

theorem Disk.setContents_again (disk : Disk) (name : String) (contents : Bytes) :
    (disk.setContents name contents).setContents name contents
      = disk.setContents name contents := by
  have present : ((disk.setContents name contents).contents? name).isSome = true := by
    rw [contents?_setContents_self]
    rfl
  have same : ∀ file ∈ (disk.setContents name contents).files, file.1 = name →
      (name, contents) = file := by
    intro file hfile hname
    rw [setContents] at hfile
    by_cases h : (disk.contents? name).isSome = true
    · rw [if_pos h] at hfile
      obtain ⟨old, -, rfl⟩ := List.mem_map.mp hfile
      by_cases hold : old.1 = name
      · rw [if_pos hold]
      · rw [if_neg hold] at hname
        exact absurd hname hold
    · rw [if_neg h] at hfile
      rcases List.mem_append.mp hfile with hfile | hfile
      · -- a file of this name would have been there before
        refine absurd ?_ h
        rw [contents?, Option.isSome_map, List.find?_isSome]
        exact ⟨file, hfile, beq_iff_eq.mpr hname⟩
      · exact (List.mem_singleton.mp hfile).symm
  have hfiles : (disk.setContents name contents).files.map
      (fun file => if file.1 = name then (name, contents) else file)
        = (disk.setContents name contents).files := by
    refine (List.map_congr_left fun file hfile => ?_).trans (List.map_id' _)
    by_cases hname : file.1 = name
    · rw [if_pos hname]
      exact same file hfile hname
    · rw [if_neg hname]
  generalize disk.setContents name contents = disk' at present hfiles ⊢
  rw [setContents, if_pos present, hfiles]

/-- What was written to an open file can be written to it again, and changes nothing. -/
theorem Disk.replace_again {disk disk' : Disk} {handle : Handle} {contents : Bytes}
    (once : disk.replace contents handle = .ok disk') :
    disk'.replace contents handle = .ok disk' := by
  cases handle with
  | device => exact nomatch once
  | file name =>
      obtain rfl := Except.ok.inj once
      exact congrArg _ (setContents_again disk name contents)

/-! ## The line after it was put -/

section Put

variable {schema : Schema} {key : String} {line contents contents' : Bytes}
  {before after : List Bytes} {x : Record}

/-- A search that goes past a line goes past it when it is terminated. -/
theorem Passes.terminate {l : Bytes} (h : Passes key (Line.record schema l)) :
    Passes key (Line.record schema (terminate l)) := by
  obtain ⟨x, hread, miss⟩ := h
  refine ⟨x, ?_, miss⟩
  rw [Text.terminate]
  split
  · exact hread
  · exact Line.record_append_lineFeed hread

/-- A line that was put stands behind lines that a search for its key goes past. -/
theorem Put.split (put : Put schema key line contents contents') (done : Terminated line) :
    ∃ before after, lines contents' = before ++ line :: after ∧
      ∀ l ∈ before, Passes key (Line.record schema l) := by
  cases put with
  | @inPlace before after old x cut passed read hit =>
      exact ⟨before, after, lines_replace cut done, passed⟩
  | behind passed =>
      refine ⟨lines (terminate contents), [], lines_terminate_append contents done, ?_⟩
      rw [lines_terminate_eq_map]
      intro l hl
      obtain ⟨l', hl', rfl⟩ := List.mem_map.mp hl
      exact (passed l' hl').terminate

/-- A line that does not hold the key it is put under changes the bytes. -/
theorem Put.ne_of_passes (put : Put schema key line contents contents') (done : Terminated line)
    (miss : Passes key (Line.record schema line)) : contents' ≠ contents := by
  intro same
  cases put with
  | @inPlace before after old x cut passed read hit =>
      have hlines := lines_replace cut done
      rw [same, cut] at hlines
      -- the lines around it are the same, so it is the line that was found
      obtain rfl : old = line := (List.cons.inj (List.append_cancel_left hlines)).1
      obtain ⟨y, hy, hmiss⟩ := miss
      cases read.symm.trans hy
      exact hmiss hit
  | behind passed =>
      have hlines := lines_terminate_append contents done
      rw [same, lines_terminate_eq_map] at hlines
      have hlength := congrArg List.length hlines
      rw [List.length_append, List.length_map, List.length_singleton] at hlength
      omega

/-- What a search for a key goes past gives records without the key, and no error. -/
theorem seen_of_passes {rs : List Reading} (passed : ∀ y ∈ rs, Passes key y) :
    ∃ front : List Record, rs.filterMap seen? = front.map .ok ∧ ∀ y ∈ front, y.key ≠ key := by
  induction rs with
  | nil => exact ⟨[], rfl, List.forall_mem_nil _⟩
  | cons y rs ih =>
      obtain ⟨⟨r, rfl, miss⟩, hrs⟩ := List.forall_mem_cons.mp passed
      obtain ⟨front, hfront, hne⟩ := ih hrs
      cases data : r.hasData with
      | false =>
          have hnone : seen? (.ok r) = none := if_neg (by rw [data]; exact Bool.false_ne_true)
          exact ⟨front, by rw [List.filterMap_cons_none hnone, hfront], hne⟩
      | true =>
          refine ⟨r :: front, ?_, List.forall_mem_cons.mpr ⟨fun h => miss ⟨data, h⟩, hne⟩⟩
          rw [List.filterMap_cons_some (seen?_of_hasData data), hfront, List.map_cons]

/-- Reading all records gives the one on a line that is found, behind none with its key. -/
theorem stream_split (cut : lines contents = before ++ line :: after)
    (passed : ∀ l ∈ before, Passes key (Line.record schema l))
    (read : Line.record schema line = .ok x) (data : x.hasData = true) :
    ∃ (front : List Record) (back : List Reading),
      stream schema contents = front.map .ok ++ .ok x :: back ∧
        ∀ y ∈ front, y.key ≠ key := by
  have passes : ∀ y ∈ before.map (Line.record schema), Passes key y := by
    intro y hy
    obtain ⟨l, hl, rfl⟩ := List.mem_map.mp hy
    exact passed l hl
  obtain ⟨front, hfront, hne⟩ := seen_of_passes passes
  refine ⟨front, (after.map (Line.record schema)).filterMap seen?, ?_, hne⟩
  rw [stream_eq, readings, cut, List.map_append, List.filterMap_append, hfront, List.map_cons, read,
    List.filterMap_cons_some (seen?_of_hasData data)]

end Put

/-! ## The second upsert -/

namespace FileStore

variable {s s' : FileStore} {c : Connection} {r x : Record}

/-- An upsert that finds its own line writes it over itself. -/
theorem upsert_found {before after : List Bytes} (data : r.hasData = true)
    (valid : s.checkRecord r = .ok ()) (connected : s.connection = some c)
    (cut : lines (s.disk.read c.handle) = before ++ r.storedLine :: after)
    (passed : ∀ l ∈ before, Passes r.key (Line.record s.schema l))
    (read : Line.record s.schema r.storedLine = .ok x) (hit : x.HasKey r.key)
    (written : s.disk.replace (s.disk.read c.handle) c.handle = .ok s.disk)
    (remembered : s.written.insert r.key r = s.written) : s.upsert r = (s, .ok ()) := by
  have hh : s.handle = .ok c.handle := by rw [handle, connected]
  generalize hcontents : s.disk.read c.handle = contents at cut written
  have spliced :
      splice contents before.flatten.length r.storedLine.length r.storedLine = contents := by
    rw [splice_line cut, ← flatten_lines contents, cut, List.flatten_append, List.flatten_cons,
      List.append_assoc]
  have stored : s.store r = .ok s := by
    simp only [store, hh, hcontents, bind, Except.bind, locate_found cut passed read hit, edit,
      spliced, written]
  rw [upsert, if_pos data, valid]
  simp only [bind, Except.bind, stored, remembered]

/-- An upsert of a record whose line does not hold its key changes the bytes. -/
theorem upsert_missed (data : r.hasData = true) (connected : s.connection = some c)
    (done : Terminated r.storedLine) (miss : Passes r.key (Line.record s.schema r.storedLine))
    (puts : s.upsert r = (s', .ok ())) : s'.disk.read c.handle ≠ s.disk.read c.handle := by
  have outcome := upsert_outcome s r
  rw [puts] at outcome
  cases outcome with
  | ignored empty => cases data.symm.trans empty
  | written _ _ connected' put replaced =>
      cases connected.symm.trans connected'
      rw [Disk.read_replace_self replaced]
      exact put.ne_of_passes done miss

/-- **A record that was put into a file may be put into it again, and nothing changes**, unless its
    line is empty.  After an upsert that succeeds, on whatever contents, the same upsert succeeds
    and leaves the whole store as it is, the bytes of its file with it; and if the record has data,
    reading all records gives it, with its values, before any other with its key and before any
    line that is no text.  An empty line is not given out, and the same upsert changes the bytes
    of the file whenever it succeeds. -/
theorem upsert_again (once : s.upsert r = (s', .ok ())) :
    ((r.hasData = true → r.toLine ≠ "") →
      s'.upsert r = (s', .ok ()) ∧
      (r.hasData = true → ∃ (front : List Record) (back : List Reading),
        s'.records = .ok (front.map .ok ++ .ok r.stored :: back) ∧
        ∀ y ∈ front, y.key ≠ r.key)) ∧
    (r.hasData = true → r.toLine = "" →
      Line.seen? s.schema r.storedLine = none ∧
      ∃ c, s'.connection = some c ∧ ∀ s'', s'.upsert r = (s'', .ok ()) →
        s''.disk.read c.handle ≠ s'.disk.read c.handle) := by
  have outcome := upsert_outcome s r
  rw [once] at outcome
  cases outcome with
  | ignored empty =>
      have noData : r.hasData ≠ true := by rw [empty]; exact Bool.false_ne_true
      exact ⟨fun _ => ⟨once, fun data => absurd data noData⟩, fun data => absurd data noData⟩
  | @written c contents disk data valid connected put replaced =>
      obtain ⟨schema, storable⟩ := checkRecord_eq_ok_iff.mp valid
      have done := Record.terminated_storedLine storable
      have hcontents : disk.read c.handle = contents := Disk.read_replace_self replaced
      have read := Line.record_storedLine storable
      rw [schema] at read
      refine ⟨fun filled => ?_, fun _ blank => ?_⟩
      · rw [← schema, Record.parse_toLine storable (filled data), schema] at read
        obtain ⟨before, after, cut, passed⟩ := put.split done
        obtain ⟨front, back, hstream, hne⟩ := stream_split cut passed read rfl
        rw [← hcontents] at cut
        have hread : FileStore.contents { s with disk := disk, written := s.written.insert r.key r }
            = .ok contents := by
          simp only [FileStore.contents, handle, connected, Except.map, hcontents]
        refine ⟨?_, fun _ => ⟨front, back, ?_, hne⟩⟩
        · refine upsert_found data valid connected cut passed read ⟨rfl, rfl⟩ ?_
            (Keyed.insert_again ..)
          exact (congrArg (disk.replace · c.handle) hcontents).trans (Disk.replace_again replaced)
        · rw [records, hread, ← hstream]
          rfl
      · rw [blank] at read
        have lacks : (Record.parse s.schema "").hasData ≠ true := by
          rw [Record.hasData_parse]
          exact Bool.false_ne_true
        refine ⟨?_, c, connected, fun s'' twice => ?_⟩
        · rw [Line.seen?, read]
          exact if_neg lacks
        · exact upsert_missed data connected done ⟨_, read, fun hit => lacks hit.1⟩ twice

/-- A view that is put among lines that are no text is there once, however often it is put. -/
theorem upsert_again_mixedViews :
    ∃ s', mixedViews.upsert (.parse .mediaViews "box|film|another") = (s', .ok ()) ∧
      s'.upsert (.parse .mediaViews "box|film|another") = (s', .ok ()) ∧
      ∃ (front : List Record) (back : List Reading), s'.records = .ok (front.map .ok ++
        .ok (Record.parse .mediaViews "box|film|another").stored :: back) := by
  obtain ⟨s', once⟩ :
      ∃ s', mixedViews.upsert (.parse .mediaViews "box|film|another") = (s', .ok ()) := ⟨_, rfl⟩
  obtain ⟨again, shown⟩ := (upsert_again once).1 fun _ => by decide +kernel
  obtain ⟨front, back, hrecords, -⟩ := shown (by decide +kernel)
  exact ⟨_, once, again, front, back, hrecords⟩

/-- A store of titles with an empty file. -/
def noTitles : FileStore :=
  ⟨Record.titlesOnly, ⟨[("titles", [])], []⟩, some ⟨"titles", .file "titles"⟩, []⟩

/-- **A title that is blank is put into the file again and again.**  It has data, and both upserts
    succeed; but the file has one line more after the second, and no record is read from it. -/
theorem blank_title_repeated :
    ((Record.blank Record.titlesOnly).setAt 0 "").hasData = true ∧
    ∃ s' s'', noTitles.upsert ((Record.blank Record.titlesOnly).setAt 0 "") = (s', .ok ()) ∧
      s'.upsert ((Record.blank Record.titlesOnly).setAt 0 "") = (s'', .ok ()) ∧
      s'.disk.read (.file "titles") = [lineFeed] ∧ s'.records = .ok [] ∧
      s''.disk.read (.file "titles") = [lineFeed, lineFeed] ∧ s''.records = .ok [] :=
  ⟨rfl, _, _, rfl, rfl, by decide +kernel, rfl, by decide +kernel, rfl⟩

end FileStore

end RecordStore
