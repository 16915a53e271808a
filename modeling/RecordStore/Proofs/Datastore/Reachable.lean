import RecordStore.Proofs.Datastore.Access
import RecordStore.Proofs.Datastore.Request
import RecordStore.Proofs.Query.Fitting
import RecordStore.Proofs.Query.Rows
import RecordStore.Proofs.Store.Placing
import RecordStore.Proofs.Store.Refinement

/-! # Datastores that imports have filled

    Where only imports and deletions have changed the file of a datastore, the file is known well
    enough for two guarantees: queries do not fail because of what it holds, and a copy of it is
    restored to the byte. -/

namespace RecordStore

/-! ## Datastores whose file only imports and deletions have changed

    A datastore is made on a path, serves requests, is closed, and is made anew on the same path,
    without the old one having been closed as well; meanwhile other files of the disk may change.
    Of all this only imports and deletions change the file of the store.  If the file was empty in
    the beginning, it holds nothing but the lines of settled records ever after, with no key twice.
    The route:

    * `Reachable`: the datastores that come about in this way;
    * `Reachable.filed`: the invariant, by induction on how the datastore came about. -/

/-- The file at a path is on another disk as it is on this one. -/
def Disk.SameFile (path : String) (disk disk' : Disk) : Prop :=
  ∀ name, disk.attach path = .ok (.file name, disk) →
    disk'.attach path = .ok (.file name, disk') ∧
      disk'.read (.file name) = disk.read (.file name)

namespace Datastore

/-- The datastores that come of making one on a path of a disk. -/
inductive Reachable (schema : Schema) (path : String) (disk : Disk) : Datastore FileStore → Prop
    where
  | made {d : Datastore FileStore} (make : (make (FileStore.new schema disk) path).2 = .ok d) :
      Reachable schema path disk d
  | served {d : Datastore FileStore} (before : Reachable schema path disk d) (request : Request) :
      Reachable schema path disk (d.serve FileStore.disk request).1
  | closed {d : Datastore FileStore} (before : Reachable schema path disk d) :
      Reachable schema path disk d.close.1
  | remade {d d' : Datastore FileStore} (before : Reachable schema path disk d)
      (make : (make (FileStore.new schema d.store.disk) path).2 = .ok d') :
      Reachable schema path disk d'
  | elsewhere {d : Datastore FileStore} {disk' : Disk} (before : Reachable schema path disk d)
      (same : Disk.SameFile path d.store.disk disk') :
      Reachable schema path disk { d with store := { d.store with disk := disk' } }

variable {schema : Schema} {path name : String} {disk disk₀ : Disk} {d : Datastore FileStore}
  {rs : List Record}

/-- So do those that come of a run of requests. -/
theorem Reachable.run (reached : Reachable schema path disk d) (requests : List Request) :
    Reachable schema path disk (d.run FileStore.disk requests) := by
  induction requests generalizing d with
  | nil => exact reached
  | cons request requests ih => exact ih (reached.served request)

/-- A datastore can be made on a path that leads to a regular file, and there is only one way in
    which it can come out. -/
theorem make_eq (opened : disk.attach path = .ok (.file name, disk₀)) :
    (make (FileStore.new schema disk) path).2
      = .ok ⟨⟨schema, disk₀, some ⟨path, .file name⟩, []⟩, Sessions.none⟩ := by
  have hconnect : Store.connect (FileStore.new schema disk) path
      = (⟨schema, disk₀, some ⟨path, .file name⟩, []⟩, .ok ()) := FileStore.connect_new opened
  rw [make, hconnect]

/-- A datastore is made with a new store on what the path leads to. -/
theorem store_of_make (opened : disk.attach path = .ok (.file name, disk₀))
    (made : (make (FileStore.new schema disk) path).2 = .ok d) :
    d.store = ⟨schema, disk₀, some ⟨path, .file name⟩, []⟩ := by
  rw [make_eq opened] at made
  cases made
  rfl

/-- A datastore on an empty file has the lines of no records. -/
theorem filed_of_make (opened : disk.attach path = .ok (.file name, disk₀))
    (empty : disk₀.read (.file name) = [])
    (made : (make (FileStore.new schema disk) path).2 = .ok d) :
    d.store.Filed schema path name [] := by
  rw [store_of_make opened made]
  exact .connect_new (Disk.attach_attach opened) (by simp) List.nodup_nil empty

/-- A request keeps the file of such a store one of settled records. -/
theorem filed_serve (h : d.store.Filed schema path name rs) (request : Request) :
    ∃ rs', (d.serve FileStore.disk request).1.store.Filed schema path name rs' := by
  refine serve_induction (P := fun s : FileStore => ∃ rs, s.Filed schema path name rs) ?_ ?_ _
    ⟨rs, h⟩ request
  · rintro s line r ⟨rs, hs⟩ hline
    have hr : Settled schema r := hs.schema_eq ▸ settled_of_judge hline
    exact hs.exists_upsert hr
  · rintro s key ⟨rs, hs⟩
    exact hs.exists_delete key

/-- Closing a datastore leaves its file as it is. -/
theorem filed_close (h : d.store.Filed schema path name rs) :
    d.close.1.store.Filed schema path name rs := by
  rw [close]
  split
  · cases Store.flush d.store with
    | error e => exact h
    | ok u => exact h.disconnect
  · exact h

/-- **A file that was empty, and that only imports and deletions have changed, holds nothing but
    the lines of settled records with distinct keys.** -/
theorem Reachable.filed (opened : disk.attach path = .ok (.file name, disk₀))
    (empty : disk₀.read (.file name) = []) (reached : Reachable schema path disk d) :
    ∃ rs, d.store.Filed schema path name rs := by
  induction reached with
  | made made => exact ⟨[], filed_of_make opened empty made⟩
  | served _ request ih =>
      obtain ⟨rs, h⟩ := ih
      exact filed_serve h request
  | closed _ ih =>
      obtain ⟨rs, h⟩ := ih
      exact ⟨rs, filed_close h⟩
  | remade _ made ih =>
      obtain ⟨rs, h⟩ := ih
      rw [store_of_make h.reopened made]
      exact ⟨rs, .connect_new h.reopened h.settled h.distinct h.contents⟩
  | elsewhere _ same ih =>
      obtain ⟨rs, h⟩ := ih
      obtain ⟨reopened, hread⟩ := same name h.reopened
      exact ⟨rs, h.schema_eq, h.connection, reopened, h.settled, h.distinct,
        hread.trans h.contents⟩

/-- A datastore of views without sessions, on an empty file of a disk that has no other. -/
def emptyAt (path : String) : Datastore FileStore :=
  ⟨⟨.mediaViews, Disk.empty.setContents path [], some ⟨path, .file path⟩, []⟩, Sessions.none⟩

end Datastore

end RecordStore

namespace RecordStore.Datastore

/-! ## Imported data cannot break queries

    Whatever is imported, only records whose values fit the schema reach the file of a store, and
    no other change of the file makes them unreadable.  So a query can fail for the query itself,
    or because values add up to something that is too large, but not for what is in the file.  The
    route:

    * `query_eq_run`: on a file of settled records a query is the run of its plan on the records;
    * `query_of_reachable`: the run succeeds, but for sums. -/

open RecordStore.Text

variable {schema : Schema} {path name text : String} {disk disk₀ : Disk}
  {d : Datastore FileStore} {rs : List Record} {c : Credentials} {query : Query}
  {plan : Query.Plan}

/-- A client's query on a file of settled records is the run of its plan on these records. -/
theorem query_eq_run (h : d.store.Filed schema path name rs)
    (connected : Store.isConnected d.store = true) (admitted : d.sessions.authenticate c = true)
    (parsed : Query.parse text = .ok query) (made : Query.Plan.make schema query = .ok plan) :
    d.query c text = plan.run (rs.map .ok) := by
  have hrequire : d.sessions.require c = .ok () := if_pos admitted
  have hrecords : Store.records d.store = .ok (rs.map .ok) := h.records connected
  have hmade : Query.Plan.make (Store.schema d.store) query = .ok plan := by
    show Query.Plan.make d.store.schema query = .ok plan
    rw [h.schema_eq]
    exact made
  simp only [Datastore.query, Store.query, hrequire, parsed, hmade, hrecords, bind, Except.bind]

/-- **Imported data cannot break queries.**  Let the file of a datastore have been empty in the
    beginning, and let only imports and deletions have changed it since, whatever was imported and
    deleted and however often the datastore was made anew.  While it is connected, a query of an
    admitted client that can be read and has a plan succeeds, unless it groups and sums a field;
    and if it does both, then it fails only with an error of summing values that fit the field. -/
theorem query_of_reachable (opened : disk.attach path = .ok (.file name, disk₀))
    (empty : disk₀.read (.file name) = []) (reached : Reachable schema path disk d)
    (connected : Store.isConnected d.store = true) (admitted : d.sessions.authenticate c = true)
    (parsed : Query.parse text = .ok query) (made : Query.Plan.make schema query = .ok plan) :
    (¬ (.group ∈ query.kinds ∧ ∃ item ∈ plan.items, item.aggregate = some .sum) →
      ∃ table, d.query c text = .ok table) ∧
    ∀ e, d.query c text = .error e →
      .group ∈ query.kinds ∧ Query.SumError schema plan.items e := by
  obtain ⟨rs, h⟩ := reached.filed opened empty
  rw [query_eq_run h connected admitted parsed made]
  have ends := Query.run_of_fits parsed made (fun r hr => (h.settled r hr).schema_eq)
    fun r hr => (h.settled r hr).fits
  cases hrun : plan.run (rs.map .ok) with
  | ok table => exact ⟨fun _ => ⟨table, rfl⟩, fun _ he => nomatch he⟩
  | error e =>
      rw [hrun] at ends
      obtain ⟨grouped, sums⟩ := ends
      refine ⟨fun unsummed => ?_, fun _ he => Except.error.inj he ▸ ⟨grouped, sums⟩⟩
      obtain ⟨chosen, hsum, -, -, -, -⟩ := sums
      exact absurd ⟨grouped, _, chosen, hsum⟩ unsummed

/-- Views are imported, one of them with a revenue that is no number. -/
def importedViews : Datastore FileStore :=
  (emptyAt "views").run FileStore.disk
    [.connect "ann" "secret" "t1",
      .act ⟨"ann", "t1"⟩ (.importData
        (encode "box|film|one|2014-04-01|4.50\nset|film|one|2014-04-01|free\nset|show||||1:30"))]

/-- The greatest revenue of each title. -/
def greatestByTitle : Query.Plan where
  schema := .mediaViews
  query := Query.ofCommands
    [⟨"title,rev:max", .select [⟨"title", none⟩, ⟨"rev", some .max⟩]⟩, ⟨"title", .group "title"⟩]
  items := [⟨"title", none⟩, ⟨"rev", some .max⟩]

/-- The greatest revenue of each title is found. -/
theorem importedViews_queried :
    ∃ table, importedViews.query ⟨"ann", "t1"⟩ "-s title,rev:max -g title" = .ok table := by
  have views : Disk.empty.attach "views"
      = .ok (.file "views", Disk.empty.setContents "views" []) := by rfl
  have reached : Reachable .mediaViews "views" Disk.empty importedViews :=
    (Reachable.made (make_eq views)).run _
  have parsed : Query.parse "-s title,rev:max -g title" = .ok greatestByTitle.query := by
    have hsegments : Query.Segment.ofChars? "-s title,rev:max -g title".toList
        = some [⟨"s", "title,rev:max"⟩, ⟨"g", "title"⟩] := by decide +kernel
    rw [Query.parse, hsegments]
    rfl
  have made : Query.Plan.make .mediaViews greatestByTitle.query = .ok greatestByTitle := by rfl
  refine (query_of_reachable views (by rfl) reached (by decide +kernel) (by decide +kernel)
    parsed made).1 ?_
  rintro ⟨-, hsum⟩
  revert hsum
  decide

end RecordStore.Datastore

namespace RecordStore

/-! ## A backup is restored to the byte

    The file of a store is written by one rule and imported by another: the store's own reader
    keeps a line that is only white space and passes over one that is empty, an import passes over
    both, and takes carriage returns off a line's end.  On a file of settled records the two agree:
    each line is accepted as the record that it was written from, and is written again as it was.
    The route:

    * `Writing`: an import under way into a store with such a file;
    * `step_settled`: the line of a settled record with a new key puts the record behind all
      others, and is counted;
    * `run_settled`: so do all lines of a file of settled records, by induction on the records;
    * `restore_backup`: importing the file of a datastore into a new one. -/

open RecordStore.Text

namespace Import

variable {schema : Schema} {path name : String} {rs : List Record} {p : Progress FileStore}

/-- An import that nothing has stopped, into a store that is connected to a file of nothing but
    the lines of settled records. -/
structure Writing (schema : Schema) (path name : String) (rs : List Record)
    (p : Progress FileStore) : Prop where
  filed : p.store.Filed schema path name rs
  connected : p.store.connection = some ⟨path, .file name⟩
  running : p.stopped = none

/-- The line of a settled record with a new key puts the record behind all others. -/
theorem step_settled (h : Writing schema path name rs p) {r : Record} (hr : Settled schema r)
    (new : r.key ∉ Entries.keys rs) :
    Writing schema path name (rs ++ [r]) (step p r.storedLine) ∧
      (step p r.storedLine).report = ⟨p.report.imported + 1, p.report.skipped⟩ ∧
      (step p r.storedLine).skips = p.skips := by
  obtain ⟨s, hupsert, hconnection, hfiled⟩ := h.filed.upsert h.connected hr
  rw [Entries.put_of_notMem new] at hfiled
  have hjudge : judge (Store.schema p.store) r.storedLine = .accept r := by
    show judge p.store.schema r.storedLine = .accept r
    rw [h.filed.schema_eq]
    exact hr.judge
  have hput : Store.upsert p.store r = (s, .ok ()) := hupsert
  have hstep : step p r.storedLine = { p with
      store := s
      line := p.line + 1
      report := ⟨p.report.imported + 1, p.report.skipped⟩ } := by
    simp only [step, h.running, hjudge, hput]
  rw [hstep]
  exact ⟨⟨hfiled, hconnection.trans h.connected, h.running⟩, rfl, rfl⟩

/-- The lines of settled records put all of them behind those that were there. -/
theorem foldl_settled (h : Writing schema path name rs p) {more : List Record}
    (settled : ∀ r ∈ more, Settled schema r) (distinct : (Entries.keys (rs ++ more)).Nodup) :
    Writing schema path name (rs ++ more) ((more.map Record.storedLine).foldl step p) ∧
      ((more.map Record.storedLine).foldl step p).report
        = ⟨p.report.imported + more.length, p.report.skipped⟩ ∧
      ((more.map Record.storedLine).foldl step p).skips = p.skips := by
  induction more generalizing rs p with
  | nil =>
      rw [List.append_nil]
      exact ⟨h, rfl, rfl⟩
  | cons r more ih =>
      obtain ⟨hr, hmore⟩ := List.forall_mem_cons.mp settled
      have hassoc : rs ++ r :: more = rs ++ [r] ++ more := by simp
      have new : r.key ∉ Entries.keys rs := by
        rw [Entries.keys, List.map_append, List.map_cons, List.nodup_append] at distinct
        exact fun hk => distinct.2.2 _ hk _ List.mem_cons_self rfl
      obtain ⟨hwriting, hreport, hskips⟩ := step_settled h hr new
      rw [hassoc] at distinct ⊢
      obtain ⟨hlast, hreport', hskips'⟩ := ih hwriting hmore distinct
      refine ⟨hlast, ?_, hskips'.trans hskips⟩
      rw [List.map_cons, List.foldl_cons, hreport', hreport, List.length_cons, Nat.add_assoc,
        Nat.add_comm 1]

/-- Into an empty file the lines of settled records are imported as they are, every one. -/
theorem run_settled {s : FileStore} (filed : s.Filed schema path name [])
    (connected : s.connection = some ⟨path, .file name⟩)
    (settled : ∀ r ∈ rs, Settled schema r) (distinct : (Entries.keys rs).Nodup) :
    (run s (storedLines rs)).outcome = .ok ⟨rs.length, 0⟩ ∧
      (run s (storedLines rs)).skips = [] ∧
      (run s (storedLines rs)).store.Filed schema path name rs := by
  have hstart : Writing schema path name [] (start s) := ⟨filed, connected, rfl⟩
  obtain ⟨hwriting, hreport, hskips⟩ := foldl_settled hstart settled distinct
  rw [← lines_storedLines_settled settled] at hwriting hreport hskips
  have hflush : Store.flush (lines (start s) (storedLines rs)).store = .ok () := by
    show FileStore.flush _ = _
    rw [FileStore.flush, FileStore.handle, Import.lines, hwriting.connected]
    rfl
  have hrunning : (lines (start s) (storedLines rs)).stopped = none := hwriting.running
  refine ⟨?_, hskips, hwriting.filed⟩
  rw [run, finish]
  simp only [hrunning, hflush]
  have hcount : (lines (start s) (storedLines rs)).report = ⟨0 + rs.length, 0⟩ := hreport
  rw [hcount, Nat.zero_add]
  rfl

end Import

/-- The number of records of a connected store with such a file. -/
theorem FileStore.Filed.count {schema : Schema} {path name : String} {rs : List Record}
    {s : FileStore} (h : s.Filed schema path name rs) (connected : s.connection.isSome) :
    Store.count s = .ok rs.length := by
  have hrecords : Store.records s = .ok (rs.map .ok) := h.records connected
  simp only [Store.count, hrecords, bind, Except.bind, Query.collect_map_ok, pure, Except.pure]

namespace Datastore

/-- **A backup is restored to the byte.**  Let the file of a datastore have been empty in the
    beginning, and let only imports and deletions have changed it since.  When a client of a new
    datastore of the same schema, on another empty file, imports the bytes of the file, then this
    succeeds, no line is skipped, as many lines are imported as the first datastore counts records,
    and the other file has the same bytes in the end. -/
theorem restore_backup {schema : Schema} {path path' name name' : String}
    {disk disk₀ disk' disk₁ : Disk} {d fresh entered : Datastore FileStore}
    {client secret token : String} {c : Credentials}
    (opened : disk.attach path = .ok (.file name, disk₀)) (empty : disk₀.read (.file name) = [])
    (reached : Reachable schema path disk d)
    (opened' : disk'.attach path' = .ok (.file name', disk₁))
    (empty' : disk₁.read (.file name') = [])
    (made : (make (FileStore.new schema disk') path').2 = .ok fresh)
    (session : fresh.connect client secret token = (entered, .ok c)) :
    ∃ n, (Store.isConnected d.store = true → Store.count d.store = .ok n) ∧
      (entered.importData c (d.store.disk.read (.file name))).outcome = .ok ⟨n, 0⟩ ∧
      (entered.importData c (d.store.disk.read (.file name))).skips = [] ∧
      (entered.importData c (d.store.disk.read (.file name))).datastore.store.disk.read
        (.file name') = d.store.disk.read (.file name) := by
  obtain ⟨rs, h⟩ := reached.filed opened empty
  refine ⟨rs.length, h.count, ?_⟩
  obtain ⟨hstore, hrequire⟩ := require_of_connect session
  have hfresh := filed_of_make opened' empty' made
  have hconnected : fresh.store.connection = some ⟨path', .file name'⟩ := by
    rw [store_of_make opened' made]
  rw [← hstore] at hfresh hconnected
  obtain ⟨houtcome, hskips, hfiled⟩ :=
    Import.run_settled hfresh hconnected h.settled h.distinct
  rw [h.contents]
  simp only [importData, hrequire]
  exact ⟨houtcome, hskips, hfiled.contents⟩

/-- Four lines are imported, of which one is blank and one replaces another; then a record is
    deleted. -/
def changedViews : Datastore FileStore :=
  (emptyAt "views").run FileStore.disk
    [.connect "ann" "secret" "t1",
      .act ⟨"ann", "t1"⟩ (.importData
        (encode "box|film|one\r\n \t\nset|show|two\nbox|film|three")),
      .act ⟨"ann", "t1"⟩ (.delete "setshow")]

/-- The one record that is left is restored, in the line that it has. -/
theorem changedViews_restored :
    ∃ entered, (emptyAt "copy").connect "bob" "secret" "t2" = (entered, .ok ⟨"bob", "t2"⟩) ∧
      (entered.importData ⟨"bob", "t2"⟩
        (changedViews.store.disk.read (.file "views"))).outcome = .ok ⟨1, 0⟩ ∧
      (entered.importData ⟨"bob", "t2"⟩
        (changedViews.store.disk.read (.file "views"))).datastore.store.disk.read (.file "copy")
          = encode "box|film|three|||\n" := by
  have views : Disk.empty.attach "views"
      = .ok (.file "views", Disk.empty.setContents "views" []) := by rfl
  have copy : Disk.empty.attach "copy"
      = .ok (.file "copy", Disk.empty.setContents "copy" []) := by rfl
  have session : (emptyAt "copy").connect "bob" "secret" "t2"
      = (⟨(emptyAt "copy").store, ⟨[("t2", "bob")]⟩⟩, .ok ⟨"bob", "t2"⟩) := by rfl
  have reached : Reachable .mediaViews "views" Disk.empty changedViews :=
    (Reachable.made (make_eq views)).run _
  obtain ⟨n, counted, imported, -, same⟩ := restore_backup views (by rfl) reached copy (by rfl)
    (make_eq copy) session
  have hbytes : changedViews.store.disk.read (.file "views") = encode "box|film|three|||\n" := by
    decide +kernel
  have hcount : (Store.count changedViews.store).toOption = some 1 := by decide +kernel
  rw [counted (by decide +kernel)] at hcount
  obtain rfl : n = 1 := Option.some.inj hcount
  exact ⟨_, session, imported, same.trans hbytes⟩

end Datastore

end RecordStore
