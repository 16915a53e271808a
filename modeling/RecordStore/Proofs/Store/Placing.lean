import RecordStore.Proofs.Disk.Resolve
import RecordStore.Proofs.Import.Pieces
import RecordStore.Proofs.Store.Entries

/-! # Files of settled records

    What imports write is known to the byte; and what they write a second time changes nothing. -/

namespace RecordStore

open RecordStore.Text

/-! ## A file of nothing but the lines of its records

    A file that only imports and deletions have changed, and that was empty before, is known to the
    byte: it is the lines of some settled records, one after the other, with no key twice.  For
    such a file the changes of a store are those of the list: an upsert of a settled record puts
    its line where the list has the record, and a deletion takes a line out.  The route:

    * `storedLines`: the bytes, and `holds_settled`: what is read from them is the list itself;
    * `Put.storedLines`, `Taken.storedLines`: the bytes after a change are those of the list after
      the change;
    * `FileStore.Filed`: the invariant of a store, connected or not, with such a file;
    * `Filed.upsert`, `Filed.delete` and the other steps: what each does to the list. -/

/-! ### The bytes of settled records -/

/-- The lines of records, one after the other. -/
def storedLines (rs : List Record) : Bytes := rs.flatMap Record.storedLine

section Bytes

variable {schema : Schema} {rs : List Record} {r : Record} {key : String} {contents : Bytes}

theorem storables_of_settled (settled : ∀ x ∈ rs, Settled schema x) : Storables schema rs :=
  fun x hx => ⟨(settled x hx).schema_eq, (settled x hx).fits.storable⟩

/-- The lines of settled records are one for each. -/
theorem lines_storedLines_settled (settled : ∀ x ∈ rs, Settled schema x) :
    lines (storedLines rs) = rs.map Record.storedLine :=
  lines_storedLines (storables_of_settled settled)

/-- The line of a settled record is read as the record. -/
theorem Settled.record_storedLine (h : Settled schema r) :
    Line.record schema r.storedLine = .ok r := by
  have hread := Line.record_storedLine h.fits.storable
  rwa [h.schema_eq, h.parse_toLine] at hread

/-- Settled records are shown as they are. -/
theorem shown_settled (settled : ∀ x ∈ rs, Settled schema x) : shown rs = rs := by
  have hfilter : (rs.filter fun x => x.toLine ≠ "") = rs :=
    List.filter_eq_self.mpr fun x hx => decide_eq_true (settled x hx).toLine_ne_empty
  rw [shown, hfilter, List.map_congr_left fun x hx => (settled x hx).stored, List.map_id']

/-- The lines of settled records hold the records. -/
theorem holds_settled (settled : ∀ x ∈ rs, Settled schema x) :
    Holds schema (storedLines rs) rs := by
  have hholds := holds_storedLines (storables_of_settled settled)
  rwa [shown_settled settled] at hholds

/-- Where a line is among the lines of settled records, its record is among the records. -/
private theorem split_of_cut (settled : ∀ x ∈ rs, Settled schema x) {before after : List Bytes}
    {old : Bytes} {x : Record} (cut : lines (storedLines rs) = before ++ old :: after)
    (read : Line.record schema old = .ok x) :
    ∃ rb ra, rs = rb ++ x :: ra ∧ before.flatten = storedLines rb ∧
      after.flatten = storedLines ra := by
  rw [lines_storedLines_settled settled] at cut
  obtain ⟨rb, rest, rfl, rfl, hrest⟩ := List.map_eq_append_iff.mp cut
  obtain ⟨e, ra, rfl, rfl, rfl⟩ := List.map_eq_cons_iff.mp hrest
  rw [(settled e (by simp)).record_storedLine] at read
  cases read
  exact ⟨rb, ra, rfl, List.flatMap_def.symm, List.flatMap_def.symm⟩

/-- A settled record put into the file is put into the list. -/
theorem Put.storedLines (settled : ∀ x ∈ rs, Settled schema x)
    (distinct : (Entries.keys rs).Nodup)
    (put : Put schema r.key r.storedLine (storedLines rs) contents) :
    contents = RecordStore.storedLines (Entries.put r rs) := by
  cases put with
  | inPlace cut passed read hit =>
      obtain ⟨rb, ra, rfl, hb, ha⟩ := split_of_cut settled cut read
      rw [Entries.put_split distinct hit.2, hb, ha]
      simp only [RecordStore.storedLines, List.flatMap_append, List.flatMap_cons,
        List.append_assoc]
  | behind passed =>
      have hkey : r.key ∉ Entries.keys rs := (holds_settled settled).notMem_keys passed
      have all : ∀ l ∈ lines (RecordStore.storedLines rs), Terminated l := by
        rw [lines_storedLines_settled settled]
        intro l hl
        obtain ⟨x, hx, rfl⟩ := List.mem_map.mp hl
        exact Record.terminated_storedLine (settled x hx).fits.storable
      rw [Entries.put_of_notMem hkey, terminate_eq_self all]
      simp only [RecordStore.storedLines, List.flatMap_append, List.flatMap_singleton]

/-- A record taken out of the file is taken out of the list. -/
theorem Taken.storedLines (settled : ∀ x ∈ rs, Settled schema x)
    (distinct : (Entries.keys rs).Nodup) (taken : Taken schema key (storedLines rs) contents) :
    contents = RecordStore.storedLines (Entries.remove key rs) := by
  cases taken with
  | out cut passed read hit =>
      obtain ⟨rb, ra, rfl, hb, ha⟩ := split_of_cut settled cut read
      rw [Entries.remove_split distinct hit.2, hb, ha]
      simp only [RecordStore.storedLines, List.flatMap_append]

end Bytes

namespace FileStore

/-! ### The invariant -/

/-- A store of a schema whose path leads to a regular file of nothing but the lines of settled
    records with distinct keys; it may be connected to the file or not. -/
structure Filed (schema : Schema) (path name : String) (rs : List Record) (s : FileStore) :
    Prop where
  schema_eq : s.schema = schema
  connection : s.connection = none ∨ s.connection = some ⟨path, .file name⟩
  reopened : s.disk.attach path = .ok (.file name, s.disk)
  settled : ∀ r ∈ rs, Settled schema r
  distinct : (Entries.keys rs).Nodup
  contents : s.disk.read (.file name) = storedLines rs

namespace Filed

variable {schema : Schema} {path name : String} {rs : List Record} {s : FileStore}

theorem holds (h : s.Filed schema path name rs) :
    Holds s.schema (s.disk.read (.file name)) rs := by
  rw [h.contents, h.schema_eq]
  exact holds_settled h.settled

/-- Reading all records of a connected store gives the list. -/
theorem records (h : s.Filed schema path name rs) (connected : s.connection.isSome) :
    s.records = .ok (rs.map .ok) := by
  have hc : s.connection = some ⟨path, .file name⟩ :=
    h.connection.resolve_left (Option.isSome_iff_ne_none.mp connected)
  rw [FileStore.records, FileStore.contents, handle, hc]
  exact congrArg Except.ok h.holds

/-- Other contents of the file, known to the byte, and whatever is remembered with them. -/
private theorem replace (h : s.Filed schema path name rs) {rs' : List Record} {bytes : Bytes}
    {disk : Disk} (settled : ∀ r ∈ rs', Settled schema r) (distinct : (Entries.keys rs').Nodup)
    (hbytes : bytes = storedLines rs')
    (replaced : s.disk.replace bytes (.file name) = .ok disk) (written : Keyed Record) :
    Filed schema path name rs' { s with disk := disk, written := written } where
  schema_eq := h.schema_eq
  connection := h.connection
  reopened := Disk.attach_replace h.reopened replaced
  settled := settled
  distinct := distinct
  contents := by
    show disk.read (.file name) = storedLines rs'
    rw [Disk.read_replace_self replaced, hbytes]

/-! ### Steps -/

/-- An upsert of a settled record puts it into the list. -/
theorem upsert (h : s.Filed schema path name rs)
    (connected : s.connection = some ⟨path, .file name⟩) {r : Record} (hr : Settled schema r) :
    ∃ s', s.upsert r = (s', .ok ()) ∧ s'.connection = s.connection ∧
      s'.Filed schema path name (Entries.put r rs) := by
  obtain ⟨bytes, disk, put, replaced, hupsert⟩ := upsert_of_holds connected h.holds
    (hr.schema_eq.trans h.schema_eq.symm) hr.hasData hr.fits.storable
  rw [h.contents, h.schema_eq] at put
  have settled : ∀ x ∈ Entries.put r rs, Settled schema x := by
    intro x hx
    rcases Entries.mem_put.mp hx with rfl | ⟨hx, -⟩
    · exact hr
    · exact h.settled x hx
  exact ⟨_, hupsert, rfl, h.replace settled (Entries.nodup_keys_put r h.distinct)
    (put.storedLines h.settled h.distinct) replaced _⟩

/-- An upsert of a settled record leaves a store with such a file, connected or not. -/
theorem exists_upsert (h : s.Filed schema path name rs) {r : Record} (hr : Settled schema r) :
    ∃ rs', (s.upsert r).1.Filed schema path name rs' := by
  rcases h.connection with closed | connected
  · have hstays : (s.upsert r).1 = s := by
      have outcome := upsert_outcome s r
      generalize s.upsert r = o at outcome ⊢
      cases outcome with
      | ignored | refused | disconnected | unreadable | unwritable => rfl
      | written _ _ connected => exact nomatch closed.symm.trans connected
    rw [hstays]
    exact ⟨rs, h⟩
  · obtain ⟨s', hs', -, hfiled⟩ := h.upsert connected hr
    rw [hs']
    exact ⟨_, hfiled⟩

/-- So does a deletion. -/
theorem exists_delete (h : s.Filed schema path name rs) (key : String) :
    ∃ rs', (s.delete key).1.Filed schema path name rs' := by
  have forgetting (written : Keyed Record) :
      Filed schema path name rs { s with written := written } :=
    ⟨h.schema_eq, h.connection, h.reopened, h.settled, h.distinct, h.contents⟩
  have outcome := delete_outcome s key
  generalize s.delete key = o at outcome ⊢
  cases outcome with
  | noKey => exact ⟨rs, h⟩
  | disconnected | unreadable | absent => exact ⟨rs, forgetting _⟩
  | removed _ connected taken replaced =>
      rcases h.connection with closed | hc
      · exact nomatch closed.symm.trans connected
      cases hc.symm.trans connected
      rw [h.contents, h.schema_eq] at taken
      have settled : ∀ x ∈ Entries.remove key rs, Settled schema x :=
        fun x hx => h.settled x (Entries.mem_remove.mp hx).1
      exact ⟨_, h.replace settled (Entries.nodup_keys_remove key h.distinct)
        (taken.storedLines h.settled h.distinct) replaced _⟩

theorem disconnect (h : s.Filed schema path name rs) :
    s.disconnect.Filed schema path name rs :=
  ⟨h.schema_eq, .inl rfl, h.reopened, h.settled, h.distinct, h.contents⟩

/-- A new store on a disk that has such a file is connected to it. -/
theorem connect_new {disk : Disk} (opened : disk.attach path = .ok (.file name, disk))
    (settled : ∀ r ∈ rs, Settled schema r) (distinct : (Entries.keys rs).Nodup)
    (contents : disk.read (.file name) = storedLines rs) :
    Filed schema path name rs ⟨schema, disk, some ⟨path, .file name⟩, []⟩ :=
  ⟨rfl, .inr rfl, opened, settled, distinct, contents⟩

end Filed

end FileStore

/-! ## Records put into a file twice

    When several records are put into a file, one after the other, and then the same records once
    more, the file passes through states that it had before: a record that was replaced by a later
    one of the same key comes back, and is replaced again.  In the end nothing has changed.  That
    is seen by looking at one line of the file at a time.  A line keeps its key; the records with
    that key do nothing but replace the line, and the last of them is what is left of it; and all
    the others go past the line and do to the rest of the file what they would do by themselves.
    The route:

    * `putLine`, `putLines`: records put into a file, as a function on its lines, and
      `putLine_of_put`: it is what an upsert does to them;
    * `putLines_cons`: what becomes of the first line, apart from the others;
    * `lineAfter_again`: becoming it again changes nothing;
    * `putLines_again`: by induction on the lines, and behind them on the number of records. -/

section Placing

/-! ### Putting records among lines -/

variable {schema : Schema} {line : Bytes} {ls : List Bytes} {found : Option String}
  {r : Record} {rs : List Record}

/-- The key of a record with data. -/
def Record.key? (r : Record) : Option String := if r.hasData then some r.key else none

/-- A record counts under a key when it has data and the key. -/
theorem Record.key?_eq_some_iff {key : String} : r.key? = some key ↔ r.HasKey key := by
  rw [key?, HasKey]
  cases r.hasData <;> simp

/-- The key under which a line is found, if it is text. -/
def Line.key? (schema : Schema) (line : Bytes) : Except StoreError (Option String) :=
  (Line.record schema line).map Record.key?

/-- The lines of a file after a record was put among them: over the first line with its key, or
    behind all lines. -/
def putLine (schema : Schema) (r : Record) : List Bytes → Except StoreError (List Bytes)
  | [] => .ok [r.storedLine]
  | line :: ls => do
    if (← Line.key? schema line) = some r.key then return r.storedLine :: ls
    return terminate line :: (← putLine schema r ls)

/-- The lines of a file after records were put among them, one after the other. -/
def putLines (schema : Schema) (rs : List Record) (ls : List Bytes) :
    Except StoreError (List Bytes) :=
  rs.foldlM (fun ls r => putLine schema r ls) ls

/-- A line with the key is replaced. -/
theorem putLine_of_eq (hline : Line.key? schema line = .ok (some r.key)) :
    putLine schema r (line :: ls) = .ok (r.storedLine :: ls) := by
  simp only [putLine, hline, bind, Except.bind, if_pos]
  rfl

/-- The search goes past a line without the key, which is terminated if it was not. -/
theorem putLine_of_ne (hline : Line.key? schema line = .ok found) (ne : found ≠ some r.key) :
    putLine schema r (line :: ls) = (putLine schema r ls).map (terminate line :: ·) := by
  simp only [putLine, hline, bind, Except.bind, if_neg ne]
  cases putLine schema r ls <;> rfl

theorem putLine_of_error {e : StoreError} (hline : Line.key? schema line = .error e) :
    putLine schema r (line :: ls) = .error e := by
  simp only [putLine, hline, bind, Except.bind]

theorem putLines_cons_eq {ls' : List Bytes} (h : putLine schema r ls = .ok ls') :
    putLines schema (r :: rs) ls = putLines schema rs ls' := by
  rw [putLines, List.foldlM_cons, h]
  rfl

theorem putLines_cons_error {e : StoreError} (h : putLine schema r ls = .error e) :
    putLines schema (r :: rs) ls = .error e := by
  rw [putLines, List.foldlM_cons, h]
  rfl

/-! ### It is what an upsert does -/

/-- A search goes past a line that is text and has another key or none. -/
theorem passes_iff {key : String} : Passes key (Line.record schema line) ↔
    ∃ found, Line.key? schema line = .ok found ∧ found ≠ some key := by
  rw [Line.key?]
  cases Line.record schema line with
  | error e =>
      refine iff_of_false ?_ ?_
      · rintro ⟨x, ⟨⟩, -⟩
      · rintro ⟨found, ⟨⟩, -⟩
  | ok x =>
      constructor
      · rintro ⟨_, ⟨⟩, miss⟩
        exact ⟨x.key?, rfl, mt Record.key?_eq_some_iff.mp miss⟩
      · rintro ⟨_, ⟨⟩, ne⟩
        exact ⟨x, rfl, mt Record.key?_eq_some_iff.mpr ne⟩

/-- Lines that a search goes past are terminated. -/
theorem putLine_passed {before : List Bytes}
    (passed : ∀ l ∈ before, Passes r.key (Line.record schema l)) (ls : List Bytes) :
    putLine schema r (before ++ ls) = (putLine schema r ls).map (before.map terminate ++ ·) := by
  induction before with
  | nil =>
      show putLine schema r ls = (putLine schema r ls).map id
      cases putLine schema r ls <;> rfl
  | cons line before ih =>
      obtain ⟨hline, hbefore⟩ := List.forall_mem_cons.mp passed
      obtain ⟨found, hfound, ne⟩ := passes_iff.mp hline
      rw [List.cons_append, putLine_of_ne hfound ne, ih hbefore]
      cases putLine schema r ls <;> rfl

/-- A record that was put into a file was put among its lines. -/
theorem putLine_of_put {contents contents' : Bytes}
    (put : Put schema r.key r.storedLine contents contents') (done : Terminated r.storedLine) :
    putLine schema r (lines contents) = .ok (lines contents') := by
  cases put with
  | @inPlace before after old x cut passed read hit =>
      have hold : Line.key? schema old = .ok (some r.key) := by
        rw [Line.key?, read, ← Record.key?_eq_some_iff.mpr hit]
        rfl
      have hbefore : before.map terminate = before :=
        map_terminate (cut ▸ cut_lines contents).split.1
      rw [cut, putLine_passed passed, putLine_of_eq hold, lines_replace cut done, Except.map,
        hbefore]
  | behind passed =>
      have hall := putLine_passed passed []
      rw [List.append_nil] at hall
      rw [hall, lines_terminate_append contents done, lines_terminate_eq_map]
      rfl

/-- An upsert that meets a line that is no text is refused, as a function on lines as well. -/
theorem putLine_of_unreadable {contents : Bytes} {e : StoreError}
    (bad : Unreadable schema r.key contents e) : putLine schema r (lines contents) = .error e := by
  obtain ⟨before, line, after, cut, passed, fault⟩ := bad
  have hline : Line.key? schema line = .error e := by
    rw [Line.key?, fault]
    rfl
  rw [cut, putLine_passed passed, putLine_of_error hline]
  rfl

/-! ### One line -/

/-- What becomes of a line with a key when records are put into the file. -/
def lineAfter (found : Option String) (line : Bytes) : List Record → Bytes
  | [] => line
  | r :: rs => lineAfter found (if found = some r.key then r.storedLine else terminate line) rs

/-- The records that go past a line with a key. -/
def goPast (found : Option String) (rs : List Record) : List Record :=
  rs.filter fun r => found ≠ some r.key

/-- The line of a settled record has the record's key. -/
theorem Settled.key?_storedLine (h : Settled schema r) :
    Line.key? schema r.storedLine = .ok (some r.key) := by
  have hkey : r.key? = some r.key := if_pos h.hasData
  rw [Line.key?, h.record_storedLine, ← hkey]
  rfl

/-- A line keeps its key when it is terminated. -/
theorem key?_terminate (hline : Line.key? schema line = .ok found) :
    Line.key? schema (terminate line) = .ok found := by
  rw [terminate]
  by_cases h : isTerminated line = true
  · rw [if_pos h, hline]
  · rw [if_neg h]
    rw [Line.key?] at hline ⊢
    cases hread : Line.record schema line with
    | error e =>
        rw [hread] at hline
        cases hline
    | ok x => rwa [Line.record_append_lineFeed hread, ← hread]

/-- **A line becomes what the records with its key make of it**, and the others do to the rest of
    the file what they would do to it by themselves. -/
theorem putLines_cons (settled : ∀ r ∈ rs, Settled schema r)
    (hline : Line.key? schema line = .ok found) :
    putLines schema rs (line :: ls)
      = (putLines schema (goPast found rs) ls).map (lineAfter found line rs :: ·) := by
  induction rs generalizing line ls with
  | nil => rfl
  | cons r rs ih =>
      obtain ⟨hr, hrs⟩ := List.forall_mem_cons.mp settled
      by_cases h : found = some r.key
      · have hpast : goPast found (r :: rs) = goPast found rs :=
          List.filter_cons_of_neg (by simpa using h)
        have hput : putLine schema r (line :: ls) = .ok (r.storedLine :: ls) :=
          putLine_of_eq (h ▸ hline)
        rw [putLines_cons_eq hput, ih hrs (h ▸ hr.key?_storedLine), hpast, lineAfter, if_pos h]
      · have hpast : goPast found (r :: rs) = r :: goPast found rs :=
          List.filter_cons_of_pos (by simpa using h)
        have hput := @putLine_of_ne _ _ ls _ _ hline h
        rw [hpast, lineAfter, if_neg h]
        cases hrest : putLine schema r ls with
        | error e =>
            rw [hrest] at hput
            rw [putLines_cons_error hput, putLines_cons_error hrest]
            rfl
        | ok ls' =>
            rw [hrest] at hput
            rw [putLines_cons_eq hput, putLines_cons_eq hrest, ih hrs (key?_terminate hline)]

/-- A line keeps its key. -/
theorem key?_lineAfter (settled : ∀ r ∈ rs, Settled schema r)
    (hline : Line.key? schema line = .ok found) :
    Line.key? schema (lineAfter found line rs) = .ok found := by
  induction rs generalizing line with
  | nil => exact hline
  | cons r rs ih =>
      obtain ⟨hr, hrs⟩ := List.forall_mem_cons.mp settled
      rw [lineAfter]
      by_cases h : found = some r.key
      · rw [if_pos h]
        exact ih hrs (h ▸ hr.key?_storedLine)
      · rw [if_neg h]
        exact ih hrs (key?_terminate hline)

/-- What becomes of a line depends on the line only if no record has its key, and then it is
    terminated. -/
private theorem lineAfter_cases (found : Option String) (rs : List Record) :
    (∃ last, ∀ line, lineAfter found line rs = last) ∨
      ∀ line, lineAfter found line rs = if rs = [] then line else terminate line := by
  induction rs with
  | nil => exact .inr fun line => rfl
  | cons r rs ih =>
      rcases ih with ⟨last, hlast⟩ | hsame
      · exact .inl ⟨last, fun line => hlast _⟩
      · by_cases h : found = some r.key
        · refine .inl ⟨if rs = [] then r.storedLine else terminate r.storedLine, fun line => ?_⟩
          rw [lineAfter, if_pos h, hsame]
        · refine .inr fun line => ?_
          rw [lineAfter, if_neg h, hsame, if_neg (List.cons_ne_nil r rs), terminate_terminate,
            ite_self]

/-- Becoming it again changes nothing. -/
theorem lineAfter_again (found : Option String) (line : Bytes) (rs : List Record) :
    lineAfter found (lineAfter found line rs) rs = lineAfter found line rs := by
  rcases lineAfter_cases found rs with ⟨last, hlast⟩ | hsame
  · rw [hlast, hlast]
  · rw [hsame, hsame]
    by_cases h : rs = []
    · rw [if_pos h, if_pos h]
    · rw [if_neg h, if_neg h, terminate_terminate]

/-! ### All lines -/

/-- If putting the others again changes nothing behind a line, putting all of them again changes
    nothing. -/
private theorem again_cons (settled : ∀ r ∈ rs, Settled schema r)
    (hline : Line.key? schema line = .ok found)
    (again : ∀ ls', putLines schema (goPast found rs) ls = .ok ls' →
      putLines schema (goPast found rs) ls' = .ok ls')
    {after : List Bytes} (h : putLines schema rs (line :: ls) = .ok after) :
    putLines schema rs after = .ok after := by
  rw [putLines_cons settled hline] at h
  cases hrest : putLines schema (goPast found rs) ls with
  | error e =>
      rw [hrest] at h
      exact nomatch h
  | ok ls' =>
      rw [hrest] at h
      obtain rfl := Except.ok.inj h
      rw [putLines_cons settled (key?_lineAfter settled hline), again ls' hrest, lineAfter_again]
      rfl

/-- The records that go past a line are settled as all are. -/
theorem settled_goPast (settled : ∀ r ∈ rs, Settled schema r) :
    ∀ r ∈ goPast found rs, Settled schema r :=
  fun r hr => settled r (List.mem_filter.mp hr).1

/-- Records that are put into an empty file, and put again. -/
private theorem again_nil (settled : ∀ r ∈ rs, Settled schema r) {after : List Bytes}
    (h : putLines schema rs [] = .ok after) : putLines schema rs after = .ok after := by
  -- the first record takes all with its key away, so fewer are left for the rest of the file
  induction hn : rs.length using Nat.strongRecOn generalizing rs after with
  | _ n ih =>
      cases rs with
      | nil => rfl
      | cons r rs =>
          have hr := (settled r List.mem_cons_self).key?_storedLine
          have hfirst :
              putLines schema (r :: rs) [] = putLines schema (r :: rs) [r.storedLine] := by
            rw [putLines_cons_eq (putLine_of_eq hr), putLines_cons_eq rfl]
          rw [hfirst] at h
          refine again_cons settled hr (fun ls' h' => ?_) h
          have hpast : goPast (some r.key) (r :: rs) = goPast (some r.key) rs :=
            List.filter_cons_of_neg (by simp)
          have hfewer : (goPast (some r.key) (r :: rs)).length < n := by
            rw [hpast, ← hn, List.length_cons]
            exact Nat.lt_succ_of_le (List.length_filter_le ..)
          exact ih _ hfewer (settled_goPast settled) h' rfl

/-- **Records that are put into a file again change nothing.** -/
theorem putLines_again (settled : ∀ r ∈ rs, Settled schema r) {after : List Bytes}
    (h : putLines schema rs ls = .ok after) : putLines schema rs after = .ok after := by
  induction ls generalizing rs after with
  | nil => exact again_nil settled h
  | cons line ls ih =>
      cases rs with
      | nil => rfl
      | cons r rs =>
          cases hline : Line.key? schema line with
          | error e =>
              rw [putLines_cons_error (putLine_of_error hline)] at h
              exact nomatch h
          | ok found => exact again_cons settled hline (fun _ => ih (settled_goPast settled)) h

end Placing

end RecordStore
