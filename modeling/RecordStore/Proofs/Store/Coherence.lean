import RecordStore.Proofs.Store.Call
import RecordStore.Proofs.Store.Change

/-! # The file and what is remembered of it

    A store in a file answers some questions from the file and others from what it remembers.  That
    the answers agree is an invariant of its calls, and what is remembered is told by these. -/

namespace RecordStore

/-! ## What a store remembers agrees with its file

    A store in a file keeps two states: the file, and the records it remembers to have written.
    They are changed one after the other, and each change can fail in between.  That they agree
    all the same is the invariant `Coherent`: a record that is remembered under a key is the one
    that a search for the key finds first, before any line that is no text.  The route:

    * `firstRecord?`: what a search for a key finds among the readings of a file, and how an
      upsert and a deletion change it: for the key they name, and for no other;
    * `Coherent` and `coherent_run`: the invariant, and that it holds after every run of calls;
    * `Coherent.delete_error`: a deletion that fails had nothing to forget. -/

open RecordStore.Text

/-! ### The first record with a key -/

/-- The first record with a key, unless a line that cannot be read comes before it. -/
def firstRecord? (key : String) : List Reading → Option Record
  | [] => none
  | .error _ :: _ => none
  | .ok r :: rest => if r.HasKey key then some r else firstRecord? key rest

/-- The search goes past readings without the key. -/
theorem firstRecord?_append {key : String} {before : List Reading}
    (passed : ∀ y ∈ before, Passes key y) (rest : List Reading) :
    firstRecord? key (before ++ rest) = firstRecord? key rest := by
  induction before with
  | nil => rfl
  | cons y before ih =>
      obtain ⟨r, rfl, hr⟩ := passed y List.mem_cons_self
      rw [List.cons_append, firstRecord?, if_neg hr]
      exact ih fun z hz => passed z (List.mem_cons_of_mem _ hz)

/-- A record without the key makes no difference, wherever it stands. -/
theorem firstRecord?_middle {key : String} {r : Record} (hr : ¬ r.HasKey key)
    (before after : List Reading) :
    firstRecord? key (before ++ .ok r :: after) = firstRecord? key (before ++ after) := by
  induction before with
  | nil => rw [List.nil_append, List.nil_append, firstRecord?, if_neg hr]
  | cons y before ih =>
      cases y with
      | error e => rfl
      | ok r' => rw [List.cons_append, List.cons_append, firstRecord?, firstRecord?, ih]

/-- A search that finds a record finds it on a line of the file. -/
theorem exists_line_of_firstRecord? {schema : Schema} {key : String} {ls : List Bytes}
    {r : Record} (h : firstRecord? key (ls.map (Line.record schema)) = some r) :
    ∃ before line after, ls = before ++ line :: after ∧
      (∀ l ∈ before, Passes key (Line.record schema l)) ∧
      Line.record schema line = .ok r ∧ r.HasKey key := by
  cases search schema key ls with
  | found cut passed read hit =>
      rw [cut, List.map_append, firstRecord?_append (by simpa using passed), List.map_cons, read,
        firstRecord?, if_pos hit] at h
      cases h
      exact ⟨_, _, _, cut, passed, read, hit⟩
  | absent passed =>
      rw [← List.append_nil (ls.map _), firstRecord?_append (by simpa using passed)] at h
      exact nomatch h
  | unreadable cut passed fault =>
      rw [cut, List.map_append, firstRecord?_append (by simpa using passed), List.map_cons,
        fault] at h
      exact nomatch h

/-- Behind a line that is no text nothing is found. -/
theorem firstRecord?_eq_none_of_unreadable {schema : Schema} {key : String} {contents : Bytes}
    {e : StoreError} (bad : Unreadable schema key contents e) :
    firstRecord? key (readings schema contents) = none := by
  obtain ⟨before, line, after, cut, passed, fault⟩ := bad
  rw [readings, cut, List.map_append, firstRecord?_append (by simpa using passed), List.map_cons,
    fault]
  rfl

section Changes

variable {key : String} {x : Record} {rs rs' : List Reading}

/-- A record put under its key is the first with the key. -/
theorem firstRecord?_put (put : PutReading key (.ok x) rs rs') (hx : x.HasKey key) :
    firstRecord? key rs' = some x := by
  cases put with
  | inPlace passed _ => rw [firstRecord?_append passed, firstRecord?, if_pos hx]
  | behind passed => rw [firstRecord?_append passed, firstRecord?, if_pos hx]

theorem not_hasKey_of_ne {r : Record} {other : String} (hit : r.HasKey key) (ne : other ≠ key) :
    ¬ r.HasKey other :=
  fun h => ne (h.2.symm.trans hit.2)

/-- A record put under a key leaves the first records of the other keys as they were. -/
theorem firstRecord?_put_of_ne {other : String} (put : PutReading key (.ok x) rs rs')
    (ne : other ≠ key) (hx : ¬ x.HasKey other) :
    firstRecord? other rs' = firstRecord? other rs := by
  cases put with
  | inPlace _ hit =>
      rw [firstRecord?_middle hx, firstRecord?_middle (not_hasKey_of_ne hit ne)]
  | behind _ => rw [firstRecord?_middle hx, List.append_nil]

/-- So does taking a record out. -/
theorem firstRecord?_taken_of_ne {other : String} (taken : TakenReading key rs rs')
    (ne : other ≠ key) : firstRecord? other rs' = firstRecord? other rs := by
  cases taken with
  | out _ hit => rw [firstRecord?_middle (not_hasKey_of_ne hit ne)]

end Changes

/-! ### The line of a record, read again -/

/-- The line of a record is read as the record, but for a line that is empty. -/
theorem Line.record_storedLine_cases {r : Record} (hr : r.Storable) :
    ∃ x, Line.record r.schema r.storedLine = .ok x ∧
      (r.toLine ≠ "" → x = r.stored) ∧ ∀ key, x.HasKey key → x = r.stored := by
  refine ⟨_, Line.record_storedLine hr, fun ne => Record.parse_toLine hr ne, fun key hx => ?_⟩
  refine Record.parse_toLine hr fun h => ?_
  have hdata := hx.1
  rw [h, Record.hasData_parse] at hdata
  exact nomatch hdata

namespace FileStore

/-! ### The invariant -/

/-- What a store remembers, the file has first: nothing is remembered without a file, and the
    record remembered under a key is the first with the key.  A record of one field that is blank
    is left out: its line is empty, so no search finds it. -/
structure Coherent (s : FileStore) : Prop where
  forgotten : s.connection = none → s.written = []
  indexed : ∀ c, s.connection = some c → ∀ key r, s.written.get? key = some r →
    key ≠ "" ∨ 2 ≤ s.schema.width →
      firstRecord? key (readings s.schema (s.disk.read c.handle)) = some r.stored

theorem coherent_new (schema : Schema) (disk : Disk) : (new schema disk).Coherent where
  forgotten _ := rfl
  indexed _ h := nomatch h

/-- Connecting forgets, so there is nothing to disagree on. -/
theorem coherent_connect {s : FileStore} (h : s.Coherent) (path : String) :
    (s.connect path).1.Coherent := by
  cases hc : s.connection with
  | some c => simpa only [connect, hc] using h
  | none =>
      simp only [connect, hc]
      cases s.disk.attach path with
      | error fault => exact h
      | ok opened =>
          -- whatever the file has, nothing is remembered yet
          refine ⟨fun e => (nomatch e), fun c _ key r hr _ => ?_⟩
          have hr' : s.written.get? key = some r := hr
          rw [h.forgotten hc] at hr'
          exact nomatch hr'

theorem coherent_disconnect (s : FileStore) : s.disconnect.Coherent where
  forgotten _ := rfl
  indexed _ h := nomatch h

/-- An upsert remembers the record that it has put where a search finds it first. -/
theorem coherent_upsert {s : FileStore} (h : s.Coherent) (r : Record) :
    (s.upsert r).1.Coherent := by
  have outcome := upsert_outcome s r
  generalize s.upsert r = o at outcome ⊢
  cases outcome with
  | ignored | refused | disconnected | unreadable | unwritable => exact h
  | @written c contents disk data valid connected put replaced =>
      obtain ⟨hschema, storable⟩ := checkRecord_eq_ok_iff.mp valid
      obtain ⟨x, hx, hstored, hkey⟩ := Line.record_storedLine_cases storable
      have hput := put.putReading (Record.terminated_storedLine storable)
      rw [← hschema, hx] at hput
      refine ⟨fun e => ?_, fun c' hc' key r' hr' hne => ?_⟩
      · exact absurd (connected.symm.trans e) (by simp)
      · cases connected.symm.trans hc'
        show firstRecord? key (readings s.schema (disk.read c.handle)) = _
        rw [Disk.read_replace_self replaced, ← hschema]
        by_cases hk : key = r.key
        · -- the key of the record: it was put there, and is read as itself
          have hr : some r = some r' := by
            rw [← hr', hk]
            exact (Keyed.get?_insert_self ..).symm
          cases hr
          have hx' : x = r.stored := hstored (Record.toLine_ne_empty (by rwa [hschema, ← hk]))
          rw [hx'] at hput
          rw [hk]
          exact firstRecord?_put hput ⟨rfl, rfl⟩
        · -- another key: neither the file nor what is remembered has changed for it
          have hmiss : ¬ x.HasKey key := by
            intro hit
            have hk' := hit.2
            rw [hkey key hit] at hk'
            exact hk hk'.symm
          have hold : s.written.get? key = some r' := by
            rw [← hr']
            exact (Keyed.get?_insert_of_ne _ _ hk).symm
          rw [firstRecord?_put_of_ne hput hk hmiss, hschema]
          exact h.indexed c connected key r' hold hne

/-- A deletion forgets the record before it looks for the line, so nothing is remembered that is
    gone. -/
theorem coherent_delete {s : FileStore} (h : s.Coherent) (key : String) :
    (s.delete key).1.Coherent := by
  -- what is remembered under other keys was remembered before
  have hold {other : String} {r : Record} (hr : (s.written.erase key).get? other = some r) :
      other ≠ key ∧ s.written.get? other = some r := by
    by_cases ho : other = key
    · rw [ho, Keyed.get?_erase_self] at hr
      exact nomatch hr
    · exact ⟨ho, by rw [← hr, Keyed.get?_erase_of_ne _ ho]⟩
  have outcome := delete_outcome s key
  generalize s.delete key = o at outcome ⊢
  cases outcome with
  | noKey => exact h
  | disconnected _ closed =>
      refine ⟨fun _ => ?_, fun c hc => absurd (closed.symm.trans hc) (by simp)⟩
      show s.written.erase key = []
      rw [h.forgotten closed]
      rfl
  | unreadable _ connected | absent _ connected =>
      refine ⟨fun e => absurd (connected.symm.trans e) (by simp), fun c hc other r hr hne => ?_⟩
      exact h.indexed c hc other r (hold hr).2 hne
  | @removed c contents disk _ connected taken replaced =>
      refine ⟨fun e => absurd (connected.symm.trans e) (by simp), fun c' hc other r hr hne => ?_⟩
      cases connected.symm.trans hc
      show firstRecord? other (readings s.schema (disk.read c.handle)) = _
      rw [Disk.read_replace_self replaced,
        firstRecord?_taken_of_ne taken.takenReading (hold hr).1]
      exact h.indexed c connected other r (hold hr).2 hne

/-! ### Every run keeps the invariant -/

/-- No call changes the schema, and only an upsert or a deletion changes what is remembered. -/
theorem schema_call (s : FileStore) (c : Call) : (Store.call s c).1.schema = s.schema := by
  have hput (r : Record) : (s.upsert r).1.schema = s.schema := by
    have outcome := upsert_outcome s r
    generalize s.upsert r = o at outcome ⊢
    cases outcome <;> rfl
  cases c with
  | connect path =>
      show (s.connect path).1.schema = s.schema
      rw [connect]
      cases s.connection with
      | some c => rfl
      | none => cases s.disk.attach path <;> rfl
  | upsert r | create r | update r => exact hput r
  | delete key =>
      show (s.delete key).1.schema = s.schema
      have outcome := delete_outcome s key
      generalize s.delete key = o at outcome ⊢
      cases outcome <;> rfl
  | _ => rfl

theorem schema_run (s : FileStore) (calls : List Call) :
    (Store.run s calls).schema = s.schema := by
  have step (s' : FileStore) (c : Call) (h : s'.schema = s.schema) :
      (Store.call s' c).1.schema = s.schema := (schema_call s' c).trans h
  exact Store.run_induction step rfl calls

/-- **Every call keeps the invariant.** -/
theorem coherent_call {s : FileStore} (h : s.Coherent) (c : Call) :
    (Store.call s c).1.Coherent := by
  cases c with
  | connect path => exact coherent_connect h path
  | disconnect => exact coherent_disconnect s
  | upsert r | create r | update r => exact coherent_upsert h r
  | delete key => exact coherent_delete h key
  | _ => exact h

/-- So does a run from a new store, by induction on its calls. -/
theorem coherent_run (schema : Schema) (disk : Disk) (calls : List Call) :
    (Store.run (new schema disk) calls).Coherent := by
  have step (s : FileStore) (c : Call) (h : s.Coherent) : (Store.call s c).1.Coherent :=
    coherent_call h c
  exact Store.run_induction step (coherent_new schema disk) calls

/-! ### A change that fails changes nothing -/

/-- A deletion forgets what it names before it searches the file.  When the search fails there was
    nothing to forget, since the file has what is remembered before any line that is no text. -/
theorem Coherent.delete_error {s : FileStore} (h : s.Coherent) {key : String} {e : StoreError}
    (he : (s.delete key).2 = .error e) : (s.delete key).1 = s := by
  have outcome := delete_outcome s key
  generalize s.delete key = o at outcome he ⊢
  cases outcome with
  | noKey | removed | absent => exact nomatch he
  | disconnected _ closed =>
      have hnil : s.written = [] := h.forgotten closed
      have herase : s.written.erase key = s.written := by
        rw [hnil]
        rfl
      show { s with written := s.written.erase key } = s
      rw [herase]
  | @unreadable c _ ne connected bad =>
      have hnone : s.written.get? key = none := by
        rw [Option.eq_none_iff_forall_ne_some]
        intro r hr
        have hfirst := h.indexed c connected key r hr (.inl ne)
        rw [firstRecord?_eq_none_of_unreadable bad] at hfirst
        exact nomatch hfirst
      show { s with written := s.written.erase key } = s
      rw [Keyed.erase_of_get?_eq_none hnone]

/-- An upsert that fails leaves the store as it was. -/
theorem upsert_error {s : FileStore} {r : Record} {e : StoreError}
    (he : (s.upsert r).2 = .error e) : (s.upsert r).1 = s := by
  have outcome := upsert_outcome s r
  generalize s.upsert r = o at outcome he ⊢
  cases outcome with
  | ignored | written => exact nomatch he
  | refused | disconnected | unreadable | unwritable => rfl

/-- **An upsert or a deletion that fails leaves the store as it was**, whatever the file holds and
    however the store came to the state it is in: the disk, the records remembered and the
    connection are the same. -/
theorem failed_change_unchanged (schema : Schema) (disk : Disk) (calls : List Call) :
    (∀ r e, (Store.upsert (Store.run (new schema disk) calls) r).2 = .error e →
      (Store.upsert (Store.run (new schema disk) calls) r).1 =
        Store.run (new schema disk) calls) ∧
    ∀ key e, (Store.delete (Store.run (new schema disk) calls) key).2 = .error e →
      (Store.delete (Store.run (new schema disk) calls) key).1 =
        Store.run (new schema disk) calls :=
  ⟨fun _ _ he => upsert_error he, fun _ _ he => (coherent_run schema disk calls).delete_error he⟩

/-- A file whose only line is no text. -/
def spoiled : Disk := ⟨[("views", [0xFF, lineFeed])], []⟩

/-- In a file that cannot be searched, neither an upsert nor a deletion works or does anything. -/
theorem spoiled_unchanged :
    (Store.upsert (Store.run (new .mediaViews spoiled) [.connect "views"])
        (Record.parse .mediaViews "box|film")).1
      = Store.run (new .mediaViews spoiled) [.connect "views"] ∧
    (Store.delete (Store.run (new .mediaViews spoiled) [.connect "views"]) "boxfilm").1
      = Store.run (new .mediaViews spoiled) [.connect "views"] := by
  constructor
  · have fails : (Store.upsert (Store.run (new .mediaViews spoiled) [.connect "views"])
        (Record.parse .mediaViews "box|film")).2 = .error (.readFailed .notText) := by rfl
    exact (failed_change_unchanged .mediaViews spoiled [.connect "views"]).1 _ _ fails
  · have fails : (Store.delete (Store.run (new .mediaViews spoiled) [.connect "views"])
        "boxfilm").2 = .error (.readFailed .notText) := by rfl
    exact (failed_change_unchanged .mediaViews spoiled [.connect "views"]).2 _ _ fails

end FileStore

end RecordStore

namespace RecordStore.FileStore

/-! ## What a store in a file remembers

    The records that a store remembers are those put into it, the last one for each key, until a
    deletion names the key or a disconnection forgets them all.  And the file has what is
    remembered: by the invariant of `Coherent` the first line with the key holds it.  The route:

    * `find?_call_iff`: what each call does to what is remembered under a key;
    * `FirstLine`: what a scan of the file for a key comes to first;
    * `Coherent.firstLine`: what is remembered is what such a scan comes to. -/

open RecordStore.Text

/-! ### What a call does to what is remembered -/

section Remembered

variable {s : FileStore} {key : String}

/-- A call that puts a record into the store forgets none. -/
private theorem not_forgets {c : Call} {reply : Reply} {r : Record} (hc : c.put? = some r) :
    ¬ Forgets key (c, reply) := by
  rintro (h | ⟨-, h⟩)
  · cases h
    exact nomatch hc
  · cases h
    exact nomatch hc

/-- What is remembered under a key after a put, whatever key the record has. -/
private theorem find?_call_put {c : Call} {r₀ : Record} (hc : c.put? = some r₀) (r : Record) :
    Store.find? (Store.call s c).1 key = some r ↔
      Known key (Store.find? s key) (c, (Store.call s c).2) r := by
  rw [Store.call_put s hc]
  have outcome := upsert_outcome s r₀
  rw [show Store.upsert s r₀ = s.upsert r₀ from rfl]
  generalize s.upsert r₀ = o at outcome ⊢
  have failed {e : StoreError} (r' : Record) : ¬ Puts key r' (c, .done (.error e)) := by
    rintro ⟨-, h, -⟩
    exact nomatch Reply.done.inj h
  cases outcome with
  | ignored empty =>
      have noPut (r' : Record) : ¬ Puts key r' (c, .done (.ok ())) := by
        rintro ⟨h, -, data, -⟩
        cases hc.symm.trans h
        exact absurd (data.symm.trans empty) (by simp)
      exact (known_of_quiet (not_forgets hc) noPut).symm
  | refused | disconnected | unreadable | unwritable =>
      exact (known_of_quiet (not_forgets hc) failed).symm
  | written data =>
      show (s.written.insert r₀.key r₀).get? key = some r ↔ _
      by_cases hk : key = r₀.key
      · -- the record is put under this key, whatever was remembered there
        have puts : Puts key r₀ (c, .done (.ok ())) := ⟨hc, rfl, data, hk.symm⟩
        rw [known_of_puts puts, hk, Keyed.get?_insert_self, Option.some_inj]
      · have noPut (r' : Record) : ¬ Puts key r' (c, .done (.ok ())) := by
          rintro ⟨h, -, -, hkey⟩
          cases hc.symm.trans h
          exact hk hkey.symm
        rw [known_of_quiet (not_forgets hc) noPut, Keyed.get?_insert_of_ne _ _ hk]
        rfl

/-- A deletion forgets the record of its key, also when it fails. -/
theorem written_delete (s : FileStore) (key : String) :
    (s.delete key).1.written = if key = "" then s.written else s.written.erase key := by
  have outcome := delete_outcome s key
  generalize s.delete key = o at outcome ⊢
  cases outcome with
  | noKey empty => rw [if_pos empty]
  | disconnected ne | unreadable ne | removed ne | absent ne => rw [if_neg ne]

/-- What one call does to what is remembered under a key. -/
theorem find?_call_iff (s : FileStore) (c : Call) (r : Record) :
    Store.find? (Store.call s c).1 key = some r ↔
      Known key (Store.find? s key) (c, (Store.call s c).2) r := by
  cases c with
  | upsert r₀ | create r₀ | update r₀ => exact find?_call_put rfl r
  | disconnect =>
      show none = some r ↔ _
      exact iff_of_false (by simp) (known_of_forgets (.inl rfl) (not_puts rfl))
  | connect path =>
      rw [known_of_quiet (by simp [Forgets]) (not_puts rfl)]
      show (s.connect path).1.written.get? key = some r ↔ s.written.get? key = some r
      rw [connect]
      cases s.connection with
      | some c => rfl
      | none => cases s.disk.attach path <;> rfl
  | delete key' =>
      show (s.delete key').1.written.get? key = some r ↔ _
      rw [written_delete]
      by_cases hk : key' ≠ "" ∧ key' = key
      · obtain ⟨ne, rfl⟩ := hk
        rw [if_neg ne, Keyed.get?_erase_self]
        exact iff_of_false (by simp) (known_of_forgets (.inr ⟨ne, rfl⟩) (not_puts rfl))
      · have quiet (reply : Reply) : ¬ Forgets key (.delete key', reply) := by
          rintro (h | ⟨ne, h⟩)
          · cases h
          · cases h
            exact hk ⟨ne, rfl⟩
        rw [known_of_quiet (quiet _) (not_puts rfl)]
        show _ ↔ s.written.get? key = some r
        by_cases ne : key' = ""
        · rw [if_pos ne]
        · rw [if_neg ne, Keyed.get?_erase_of_ne _ fun h => hk ⟨ne, h.symm⟩]
  | _ =>
      -- a call that only asks
      exact (known_of_quiet (by simp [Forgets]) (not_puts rfl)).symm

end Remembered

/-! ### What is remembered was put last, and the file has it -/

/-- The first line of a file that holds a record with the key, before any line that is no text,
    holds these values. -/
def FirstLine (schema : Schema) (key : String) (values : List String) (contents : Bytes) : Prop :=
  ∃ before line after found, lines contents = before ++ line :: after ∧
    (∀ l ∈ before, Passes key (Line.record schema l)) ∧
    Line.record schema line = .ok found ∧ found.HasKey key ∧ found.values = values

/-- What a search finds first stands in the first line with the key. -/
theorem firstLine_of_firstRecord? {schema : Schema} {key : String} {contents : Bytes} {r : Record}
    (h : firstRecord? key (readings schema contents) = some r) :
    FirstLine schema key r.values contents := by
  obtain ⟨before, line, after, cut, passed, read, hit⟩ := exists_line_of_firstRecord? h
  exact ⟨before, line, after, r, cut, passed, read, hit, rfl⟩

/-- What a coherent store remembers stands in the file that it is connected to. -/
theorem Coherent.firstLine {s : FileStore} (h : s.Coherent) {key : String} {r : Record}
    (hr : Store.find? s key = some r) (hkey : key ≠ "" ∨ 2 ≤ s.schema.width) :
    ∃ c, s.connection = some c ∧ FirstLine s.schema key r.values (s.disk.read c.handle) := by
  have hget : s.written.get? key = some r := hr
  cases hc : s.connection with
  | none =>
      rw [h.forgotten hc] at hget
      exact nomatch hget
  | some c =>
      have hline : FirstLine s.schema key r.stored.values (s.disk.read c.handle) :=
        firstLine_of_firstRecord? (h.indexed c hc key r hget hkey)
      exact ⟨c, rfl, hline⟩

/-- **A record is remembered exactly when it was put last, and then the file has it first.**
    After every run of calls on every disk, the record found under a key is the one that was last
    put under the key since the store was connected, with no deletion of the key after it; and the
    first line with the key, before any line that is no text, holds the values of that record.
    Only a record that is blank, in a schema of one field, is not found in the file. -/
theorem remembered_iff_lastPut (schema : Schema) (disk : Disk) (calls : List Call) (key : String)
    (r : Record) :
    (Store.find? (Store.run (new schema disk) calls) key = some r ↔
      LastPut key r (Store.history (new schema disk) calls)) ∧
    (Store.find? (Store.run (new schema disk) calls) key = some r →
      key ≠ "" ∨ 2 ≤ schema.width →
        ∃ c, (Store.run (new schema disk) calls).connection = some c ∧
          FirstLine schema key r.values
            ((Store.run (new schema disk) calls).disk.read c.handle)) := by
  constructor
  · have hnone : ¬ Store.find? (new schema disk) key = some r := fun h => nomatch h
    rw [find?_run_iff (fun s c r => find?_call_iff s c r)]
    exact ⟨fun h => h.elim id fun h => absurd h.1 hnone, .inl⟩
  · intro hr hkey
    have hschema : (Store.run (new schema disk) calls).schema = schema := schema_run _ calls
    have hline := (coherent_run schema disk calls).firstLine hr (by rwa [hschema])
    rwa [hschema] at hline

/-- A record put into a file that did not exist is found again, and stands in the file. -/
theorem remembered_after_upsert :
    ∃ c, (Store.run (new .mediaViews Disk.empty)
          [.connect "views", .upsert (.parse .mediaViews "box|film")]).connection = some c ∧
      FirstLine .mediaViews "boxfilm" ["box", "film", "", "", "", ""]
        ((Store.run (new .mediaViews Disk.empty)
          [.connect "views", .upsert (.parse .mediaViews "box|film")]).disk.read c.handle) := by
  have found : Store.find? (Store.run (new .mediaViews Disk.empty)
      [.connect "views", .upsert (.parse .mediaViews "box|film")]) "boxfilm"
        = some (.parse .mediaViews "box|film") := by decide +kernel
  exact (remembered_iff_lastPut _ _ _ _ _).2 found (.inl (by decide))

end RecordStore.FileStore
