import RecordStore.Proofs.Datastore.Request
import RecordStore.Proofs.Import.Progress
import RecordStore.Proofs.Store.Agreement
import RecordStore.Proofs.Store.Change
import RecordStore.Proofs.Store.Coherence
import RecordStore.Proofs.Store.Placing

/-! # Imports into any store

    An import goes line by line, and an import that is made again leaves everything as it is. -/

namespace RecordStore

open RecordStore.Text

/-! ## An import goes line by line

    A text may be imported in parts, as long as it is cut where a line ends; a line that is
    rejected may be left empty; and what an import leaves is what putting the accepted records into
    the store leaves.  This holds of every store that an upsert leaves with its schema, and able to
    be flushed if it was: of one in memory, and of one in a regular file, whatever stands in the
    file and however the import ends.  The route:

    * `Importable`: what is asked of the store, and `importData_eq`: what an import gives;
    * `LineWise`: what it is for an import to go line by line;
    * `importData_append`, `importData_without`, `importData_written`: its three parts;
    * `import_lineWise`: both kinds of stores. -/

section LineWise

variable {σ : Type} [Store σ] {Ready : σ → Prop}

/-- Stores that an upsert leaves with their schema, and ready to be flushed if they were. -/
structure Importable (Ready : σ → Prop) : Prop where
  schema_upsert : ∀ (s : σ) r, Store.schema (Store.upsert s r).1 = Store.schema s
  ready_upsert : ∀ (s : σ) r, Ready s → Ready (Store.upsert s r).1
  flush_ready : ∀ s : σ, Ready s → Store.flush s = .ok ()

namespace Datastore

open Import

variable {d : Datastore σ} {c : Credentials}

/-- What an import gives that has come this far and ends here. -/
def imported (d : Datastore σ) (p : Progress σ) : Imported σ :=
  ⟨{ d with store := p.store }, p.skips, p.outcome⟩

/-- An import is the progress that its lines make: finishing it adds nothing. -/
theorem importData_eq (h : Importable Ready) (ready : Ready d.store)
    (session : d.sessions.require c = .ok ()) (data : Bytes) :
    d.importData c data = d.imported ((Text.lines data).foldl step (start d.store)) := by
  have hready : Ready ((Text.lines data).foldl step (start d.store)).store :=
    lines_induction (fun s _ r hs _ => h.ready_upsert s r hs) _ ready
  simp only [importData, session, Import.run, Import.lines, finish_eq (h.flush_ready _ hready)]
  rfl

/-! ### What it is to go line by line -/

/-- An import, and then, if it succeeded, one of text that stands `number` lines further on. -/
def Imported.andThen (i : Imported σ) (c : Credentials) (number : Nat) (data : Bytes) :
    Imported σ :=
  match i.outcome with
  | .error _ => i
  | .ok report =>
    ⟨(i.datastore.importData c data).datastore,
      i.skips ++ (i.datastore.importData c data).skips.map (.behind number),
      (i.datastore.importData c data).outcome.map (report + ·)⟩

/-- An import that is another one, but that it skips one more line, if it comes so far. -/
structure SkipsAlso (i j : Imported σ) (number : Nat) : Prop where
  datastore_eq : i.datastore = j.datastore
  outcome_eq : i.outcome = j.outcome.map fun report => report + ⟨0, 1⟩
  skips_eq : (∃ e, j.outcome = .error e ∧ i.skips = j.skips) ∨
    ∃ front reason back, j.skips = front ++ back ∧ i.skips = front ++ ⟨number, reason⟩ :: back

/-- What is imported into a datastore is imported line by line. -/
structure LineWise (d : Datastore σ) (c : Credentials) : Prop where
  /-- Text that is empty or ends in a line feed may be imported before what stands behind it. -/
  chunks : ∀ front back, front = [] ∨ front.getLast? = some lineFeed →
    d.importData c (front ++ back)
      = (d.importData c front).andThen c (Text.lines front).length back
  /-- A rejected piece may be left out between the line feeds around it. -/
  inert : ∀ before piece after, before = [] ∨ before.getLast? = some lineFeed →
    lineFeed ∉ piece → after = [] ∨ after.head? = some lineFeed →
    isRejected (Store.schema d.store) piece = true →
    SkipsAlso (d.importData c (before ++ piece ++ after)) (d.importData c (before ++ after))
      ((Text.lines before).length + 1)
  /-- What is left is what is left by putting the records of the accepted pieces into the store;
      and if that succeeds, these and the rejected ones are counted. -/
  written : ∀ data,
    (d.importData c data).datastore = { d with
      store := (Store.upsertAll d.store (recordsOf (Store.schema d.store) data)).1 } ∧
    (d.importData c data).outcome
      = (Store.upsertAll d.store (recordsOf (Store.schema d.store) data)).2.map fun _ =>
        ⟨(recordsOf (Store.schema d.store) data).length,
          (pieces data).countP (isRejected (Store.schema d.store))⟩
  /-- Each piece that counts is counted once, and there are as many warnings as skipped lines. -/
  counted : ∀ data report, (d.importData c data).outcome = .ok report →
    report.imported + report.skipped = (pieces data).countP isCounted ∧
    report.skipped = (d.importData c data).skips.length

/-! ### The three parts -/

/-- **Text may be imported in two parts that are cut where a line ends.** -/
theorem importData_append (h : Importable Ready) (ready : Ready d.store)
    (session : d.sessions.require c = .ok ()) {front : Bytes} (back : Bytes)
    (ended : front = [] ∨ front.getLast? = some lineFeed) :
    d.importData c (front ++ back)
      = (d.importData c front).andThen c (Text.lines front).length back := by
  have hready : Ready ((Text.lines front).foldl step (start d.store)).store :=
    lines_induction (fun s _ r hs _ => h.ready_upsert s r hs) _ ready
  have begun : (start d.store).stopped = none := rfl
  have hwritten := foldl_step_written h.schema_upsert rfl begun (Text.lines front)
  rw [importData_eq h ready session, importData_eq h ready session,
    lines_append (isTerminated_iff.mpr ended), List.foldl_append]
  generalize (Text.lines front).foldl step (start d.store) = q at hready hwritten ⊢
  cases hwritten with
  | @partly e _ stopped =>
      have houtcome : (d.imported q).outcome = .error e := by
        rw [imported, Progress.outcome, stopped]
      rw [foldl_step_of_stopped stopped, Imported.andThen, houtcome]
  | whole _ running line =>
      have houtcome : (d.imported q).outcome = .ok q.report := by
        rw [imported, Progress.outcome, running]
      have hnumber : q.line = (Text.lines front).length := line.trans (Nat.zero_add _)
      -- what stands behind is imported into the store that is left, by the same client
      have hback : (d.imported q).datastore.importData c back
          = (d.imported q).datastore.imported ((Text.lines back).foldl step (start q.store)) :=
        importData_eq (d := (d.imported q).datastore) h hready session back
      rw [foldl_step running, Imported.andThen, houtcome]
      dsimp only
      rw [hback, ← hnumber, imported, Progress.outcome_followedBy]
      rfl

/-- Text in which a piece stands where a line begins and ends, and without the piece: the lines
    are the same, but that one is the piece and the other is empty, or not there at the end. -/
theorem lines_around {before piece after : Bytes}
    (ended : before = [] ∨ before.getLast? = some lineFeed) (free : lineFeed ∉ piece)
    (ne : piece ≠ []) (begun : after = [] ∨ after.head? = some lineFeed) :
    ∃ line more, Text.lines (before ++ piece ++ after) = Text.lines before ++ line :: more ∧
      chomp line = piece ∧ (Text.lines (before ++ after) = Text.lines before ++ [lineFeed] :: more ∨
        Text.lines (before ++ after) = Text.lines before ∧ more = []) := by
  have done := isTerminated_iff.mpr ended
  rw [List.append_assoc, lines_append done, lines_append done]
  rcases begun with rfl | hhead
  · have hpiece : Text.lines piece = [piece] := by
      have hcut := (Cut.unterminated ne free).lines_flatten
      rwa [List.flatten_singleton] at hcut
    rw [List.append_nil, hpiece]
    refine ⟨piece, [], rfl, chomp_of_notMem free, .inr ⟨?_, rfl⟩⟩
    exact List.append_nil _
  · obtain ⟨rest, rfl⟩ := List.head?_eq_some_iff.mp hhead
    have hpiece : Terminated (piece ++ [lineFeed]) := ⟨piece, free, rfl⟩
    have hempty : Terminated [lineFeed] := ⟨[], List.not_mem_nil, rfl⟩
    have hrest : Text.lines (lineFeed :: rest) = [lineFeed] :: Text.lines rest :=
      hempty.lines_append rest
    rw [List.append_cons, hpiece.lines_append, hrest]
    exact ⟨_, _, rfl, chomp_append_lineFeed piece, .inl rfl⟩

/-- **A line that is rejected may as well be empty.** -/
theorem importData_without (h : Importable Ready) (ready : Ready d.store)
    (session : d.sessions.require c = .ok ()) {before piece after : Bytes}
    (ended : before = [] ∨ before.getLast? = some lineFeed) (free : lineFeed ∉ piece)
    (begun : after = [] ∨ after.head? = some lineFeed)
    (rejected : isRejected (Store.schema d.store) piece = true) :
    SkipsAlso (d.importData c (before ++ piece ++ after)) (d.importData c (before ++ after))
      ((Text.lines before).length + 1) := by
  have ne : piece ≠ [] := by
    rintro rfl
    exact nomatch rejected
  obtain ⟨line, more, hwith, hchomp, hwithout⟩ := lines_around ended free ne begun
  have started : (start d.store).stopped = none := rfl
  have hwritten := foldl_step_written h.schema_upsert rfl started (Text.lines before)
  have hschema := hwritten.schema_eq h.schema_upsert
  rw [importData_eq h ready session, importData_eq h ready session, hwith, List.foldl_append,
    List.foldl_cons]
  generalize hbefore : (Text.lines before).foldl step (start d.store) = p at hschema hwritten ⊢
  cases hwritten with
  | @partly e _ stopped =>
      -- the import has ended before it comes to the line
      have hsame : (Text.lines (before ++ after)).foldl step (start d.store) = p := by
        rcases hwithout with hw | ⟨hw, -⟩
        · rw [hw, List.foldl_append, hbefore, foldl_step_of_stopped stopped]
        · rw [hw, hbefore]
      have houtcome : (d.imported p).outcome = .error e := by
        rw [imported, Progress.outcome, stopped]
      rw [hsame, step_of_stopped stopped, foldl_step_of_stopped stopped]
      refine ⟨rfl, ?_, .inl ⟨e, houtcome, rfl⟩⟩
      rw [houtcome]
      rfl
  | whole _ running line' =>
      have hpass : judge (Store.schema p.store) [lineFeed] = .passOver := rfl
      have hskips : (judge (Store.schema p.store) line).isSkip = true := by
        rw [← judge_chomp (hchomp ▸ free), hchomp, isSkip_judge free, hschema]
        exact rejected
      obtain ⟨reason, hskip⟩ := Verdict.isSkip_iff.mp hskips
      obtain ⟨hstore, hstopped, hreport, back, hskips, hskips'⟩ :=
        foldl_step_skip running hskip hpass more
      have hempty : d.imported ((Text.lines (before ++ after)).foldl step (start d.store))
          = d.imported (more.foldl step (step p [lineFeed])) := by
        rcases hwithout with hw | ⟨hw, rfl⟩
        · rw [hw, List.foldl_append, hbefore, List.foldl_cons]
        · rw [hw, hbefore, List.foldl_nil, step_passOver running hpass]
          rfl
      rw [hempty]
      generalize more.foldl step (step p line) = q at hstore hstopped hreport hskips' ⊢
      generalize more.foldl step (step p [lineFeed]) = q₀ at hstore hstopped hreport hskips ⊢
      refine ⟨?_, ?_, .inr ⟨p.skips, reason, back, hskips, ?_⟩⟩
      · rw [imported, imported, hstore]
      · rw [imported, imported, Progress.outcome, Progress.outcome, hstopped, hreport]
        cases q₀.stopped <;> rfl
      · have hnumber : p.line = (Text.lines before).length := line'.trans (Nat.zero_add _)
        rw [imported, hskips', hnumber]

/-- **What an import leaves is what the accepted records leave**, and all that counts is
    counted. -/
theorem importData_written (h : Importable Ready) (ready : Ready d.store)
    (session : d.sessions.require c = .ok ()) (data : Bytes) :
    ((d.importData c data).datastore = { d with
        store := (Store.upsertAll d.store (recordsOf (Store.schema d.store) data)).1 } ∧
      (d.importData c data).outcome
        = (Store.upsertAll d.store (recordsOf (Store.schema d.store) data)).2.map fun _ =>
          ⟨(recordsOf (Store.schema d.store) data).length,
            (pieces data).countP (isRejected (Store.schema d.store))⟩) ∧
    ∀ report, (d.importData c data).outcome = .ok report →
      (d.importData c data).skips = skipsBehind (Store.schema d.store) 0 (Text.lines data) := by
  have begun : (start d.store).stopped = none := rfl
  have hwritten := foldl_step_written h.schema_upsert rfl begun (Text.lines data)
  rw [importData_eq h ready session, ← acceptedRecords_lines, ← skippedCount_lines]
  generalize (Text.lines data).foldl step (start d.store) = q at hwritten ⊢
  cases hwritten with
  | whole stored running _ report skips =>
      have hreport : q.report = tally (Store.schema d.store) (Text.lines data) := by
        rw [report]
        simp [start, Report.add_def]
      have hstored : Store.upsertAll d.store
          (acceptedRecords (Store.schema d.store) (Text.lines data)) = (q.store, .ok ()) := stored
      rw [hstored]
      refine ⟨⟨rfl, ?_⟩, fun _ _ => skips⟩
      show q.outcome = .ok _
      rw [Progress.outcome, running, hreport]
      rfl
  | @partly e stored stopped =>
      have hstored : Store.upsertAll d.store
          (acceptedRecords (Store.schema d.store) (Text.lines data)) = (q.store, .error e) := stored
      have hstopped : q.outcome = .error e := by rw [Progress.outcome, stopped]
      rw [hstored]
      refine ⟨⟨rfl, hstopped⟩, fun report ok => ?_⟩
      cases hstopped.symm.trans ok

/-- Where the store keeps what is asked of it, an import goes line by line. -/
theorem lineWise_of_importable (h : Importable Ready) (ready : Ready d.store)
    (session : d.sessions.require c = .ok ()) : LineWise d c where
  chunks front back ended := importData_append h ready session back ended
  inert before piece after ended free begun rejected :=
    importData_without h ready session ended free begun rejected
  written data := (importData_written h ready session data).1
  counted data report ok := by
    obtain ⟨⟨-, houtcome⟩, hskips⟩ := importData_written h ready session data
    have hcounted := countP_isCounted (Store.schema d.store)
      fun piece => @notMem_of_mem_pieces data piece
    rw [hskips report ok, length_skipsBehind, skippedCount_lines, hcounted]
    rw [houtcome] at ok
    -- a result means that all records were put into the store, and then it is the two counts
    cases hput : (Store.upsertAll d.store (recordsOf (Store.schema d.store) data)).2 with
    | error e =>
        rw [hput] at ok
        exact nomatch ok
    | ok u =>
        rw [hput] at ok
        obtain rfl := Except.ok.inj ok
        exact ⟨rfl, rfl⟩

/-! ### The stores -/

/-- A store on a regular file stays on it and can be flushed. -/
theorem FileStore.importable :
    Importable fun s : FileStore => ∃ path name, s.connection = some ⟨path, .file name⟩ where
  schema_upsert s r := s.schema_call (.upsert r)
  ready_upsert s r ready := by
    obtain ⟨path, name, hs⟩ := ready
    refine ⟨path, name, ?_⟩
    show (s.upsert r).1.connection = _
    have outcome := s.upsert_outcome r
    generalize s.upsert r = o at outcome ⊢
    cases outcome <;> exact hs
  flush_ready s ready := by
    obtain ⟨path, name, hs⟩ := ready
    show s.flush = _
    rw [FileStore.flush, FileStore.handle, hs]
    rfl

/-- Of a store in memory nothing need be asked. -/
theorem MemoryStore.importable : Importable fun _ : MemoryStore => True where
  schema_upsert m r := (m.frame_call (.upsert r)).1
  ready_upsert _ _ := id
  flush_ready _ _ := rfl

/-- **An import goes line by line**, into a store that is connected to a regular file with any
    contents, and into one in memory, for any client with an open session. -/
theorem import_lineWise :
    (∀ (d : Datastore FileStore) c path name,
      d.store.connection = some ⟨path, .file name⟩ → d.sessions.require c = .ok () →
      LineWise d c) ∧
    ∀ (d : Datastore MemoryStore) c, d.sessions.require c = .ok () → LineWise d c := by
  constructor
  · intro d c path name connected session
    exact lineWise_of_importable FileStore.importable ⟨path, name, connected⟩ session
  · intro d c session
    exact lineWise_of_importable MemoryStore.importable trivial session

/-- A client's views, in a file with a line that is no text. -/
def annsViews : Datastore FileStore := ⟨FileStore.mixedViews, ⟨[("t1", "ann")]⟩⟩

/-- The client's views in memory. -/
def annsMemory : Datastore MemoryStore := ⟨.new .mediaViews, ⟨[("t1", "ann")]⟩⟩

/-- A view that is in the file, before a line that is no text. -/
def spoiledViews : Bytes := encode "box|film|another\n" ++ [0xFF, lineFeed]

/-- Both lines are counted; the second may be left empty, and a third may be imported after them,
    although its view cannot be looked up in the file. -/
theorem import_lineWise_annsViews :
    (annsViews.importData ⟨"ann", "t1"⟩ spoiledViews).outcome = .ok ⟨1, 1⟩ ∧
      SkipsAlso (annsViews.importData ⟨"ann", "t1"⟩ spoiledViews)
        (annsViews.importData ⟨"ann", "t1"⟩ (encode "box|film|another\n\n")) 2 ∧
      annsViews.importData ⟨"ann", "t1"⟩ (spoiledViews ++ encode "set|show")
        = (annsViews.importData ⟨"ann", "t1"⟩ spoiledViews).andThen ⟨"ann", "t1"⟩ 2
          (encode "set|show") ∧
      annsMemory.importData ⟨"ann", "t1"⟩ (spoiledViews ++ encode "set|show")
        = (annsMemory.importData ⟨"ann", "t1"⟩ spoiledViews).andThen ⟨"ann", "t1"⟩ 2
          (encode "set|show") := by
  have houtcome : (annsViews.importData ⟨"ann", "t1"⟩ spoiledViews).outcome = .ok ⟨1, 1⟩ := by
    decide +kernel
  have ended : spoiledViews.getLast? = some lineFeed := by decide +kernel
  have file : LineWise annsViews ⟨"ann", "t1"⟩ :=
    import_lineWise.1 annsViews ⟨"ann", "t1"⟩ "views" "views" rfl rfl
  have memory : LineWise annsMemory ⟨"ann", "t1"⟩ :=
    import_lineWise.2 annsMemory ⟨"ann", "t1"⟩ rfl
  refine ⟨houtcome, ?_, ?_, ?_⟩
  · exact file.inert (encode "box|film|another\n") [0xFF] [lineFeed] (.inr (by decide +kernel))
      (by decide) (.inr rfl) (by decide +kernel)
  · exact file.chunks _ _ (.inr ended)
  · exact memory.chunks _ _ (.inr ended)

end Datastore

end LineWise

/-! ## The same text imported twice

    An import that succeeds may be made again: it succeeds again, it gives the same report and the
    same warnings, and the store is as it was, in every byte of its file and in every record that
    is looked up by its key.  That is so whatever stands in the file, also when the text has
    several lines for one key and the second import goes back to the first of them for a while.
    The route:

    * `remember`, `get?_remember_again`: what is remembered of records that are put twice;
    * `upsert_placed`, `upsertAll_placed`: an upsert, and by induction many of them, as a function
      on the lines of the file;
    * `import_again`: by `putLines_again`, all of an import. -/

/-! ### What is remembered -/

/-- What is remembered when records were put into a store, one after the other. -/
def remember (written : Keyed Record) (rs : List Record) : Keyed Record :=
  rs.foldl (fun written r => written.insert r.key r) written

/-- What is remembered under a key is the last of the records with the key, if there is one. -/
private theorem get?_remember_cases (key : String) (rs : List Record) :
    (∃ last, ∀ written, (remember written rs).get? key = some last) ∨
      ∀ written, (remember written rs).get? key = written.get? key := by
  induction rs with
  | nil => exact .inr fun written => rfl
  | cons r rs ih =>
      rcases ih with ⟨last, hlast⟩ | hsame
      · exact .inl ⟨last, fun written => hlast _⟩
      · by_cases h : key = r.key
        · refine .inl ⟨r, fun written => (hsame _).trans ?_⟩
          rw [h, Keyed.get?_insert_self]
        · exact .inr fun written => (hsame _).trans (Keyed.get?_insert_of_ne _ _ h)

/-- What is remembered of records is remembered when they are put again. -/
theorem get?_remember_again (key : String) (written : Keyed Record) (rs : List Record) :
    (remember (remember written rs) rs).get? key = (remember written rs).get? key := by
  rcases get?_remember_cases key rs with ⟨last, hlast⟩ | hsame
  · rw [hlast, hlast]
  · rw [hsame, hsame]

/-! ### Records put into the file -/

namespace FileStore

variable {s s' : FileStore} {path name : String} {r : Record} {rs : List Record}

/-- A store after records were put into it, whose file has these lines then. -/
structure Placed (name : String) (rs : List Record) (ls : List Bytes) (s s' : FileStore) :
    Prop where
  lines_eq : lines (s'.disk.read (.file name)) = ls
  schema_eq : s'.schema = s.schema
  connection_eq : s'.connection = s.connection
  written_eq : s'.written = remember s.written rs
  others : ∀ other, other ≠ .file name → s'.disk.read other = s.disk.read other

/-- An upsert of a settled record succeeds exactly if the record can be put among the lines. -/
theorem upsert_placed (connected : s.connection = some ⟨path, .file name⟩)
    (hr : Settled s.schema r) :
    (∃ ls s', putLine s.schema r (lines (s.disk.read (.file name))) = .ok ls ∧
      s.upsert r = (s', .ok ()) ∧ Placed name [r] ls s s') ∨
    ∃ e, putLine s.schema r (lines (s.disk.read (.file name))) = .error e ∧
      s.upsert r = (s, .error e) := by
  have valid : s.checkRecord r = .ok () :=
    checkRecord_eq_ok_iff.mpr ⟨hr.schema_eq, hr.fits.storable⟩
  have outcome := upsert_outcome s r
  generalize s.upsert r = o at outcome ⊢
  cases outcome with
  | ignored empty => exact nomatch hr.hasData.symm.trans empty
  | refused _ invalid => exact nomatch valid.symm.trans invalid
  | disconnected _ _ closed => exact nomatch connected.symm.trans closed
  | unreadable _ _ hc bad =>
      cases connected.symm.trans hc
      exact .inr ⟨_, putLine_of_unreadable bad, rfl⟩
  | unwritable _ _ hc fails =>
      cases connected.symm.trans hc
      exact nomatch fails
  | written _ _ hc put replaced =>
      cases connected.symm.trans hc
      refine .inl ⟨_, _, putLine_of_put put (Record.terminated_storedLine hr.fits.storable), rfl,
        ?_, rfl, rfl, rfl, fun other ne => Disk.read_replace_of_ne replaced ne⟩
      rw [Disk.read_replace_self replaced]

/-- So do upserts of settled records, one after the other. -/
theorem upsertAll_placed (connected : s.connection = some ⟨path, .file name⟩)
    (settled : ∀ r ∈ rs, Settled s.schema r) :
    (∃ ls s', putLines s.schema rs (lines (s.disk.read (.file name))) = .ok ls ∧
      Store.upsertAll s rs = (s', .ok ()) ∧ Placed name rs ls s s') ∨
    ∃ e, putLines s.schema rs (lines (s.disk.read (.file name))) = .error e ∧
      (Store.upsertAll s rs).2 = .error e := by
  induction rs generalizing s with
  | nil => exact .inl ⟨_, s, rfl, rfl, rfl, rfl, rfl, rfl, fun _ _ => rfl⟩
  | cons r rs ih =>
      obtain ⟨hr, hrs⟩ := List.forall_mem_cons.mp settled
      rcases upsert_placed connected hr with ⟨ls, s', hput, hupsert, placed⟩ | ⟨e, hput, hupsert⟩
      · have hrest := ih (placed.connection_eq.trans connected) (placed.schema_eq ▸ hrs)
        rw [placed.schema_eq, placed.lines_eq] at hrest
        rw [putLines_cons_eq hput, Store.upsertAll_cons hupsert]
        refine hrest.imp_left ?_
        rintro ⟨ls', s'', hputs, hupserts, more⟩
        refine ⟨ls', s'', hputs, hupserts, more.lines_eq, more.schema_eq.trans placed.schema_eq,
          more.connection_eq.trans placed.connection_eq, ?_,
          fun other ne => (more.others other ne).trans (placed.others other ne)⟩
        rw [more.written_eq, placed.written_eq]
        rfl
      · refine .inr ⟨e, putLines_cons_error hput, ?_⟩
        rw [Store.upsertAll_cons_error hupsert]

/-- **Settled records that were put into a store may be put into it again**, and nothing changes. -/
theorem upsertAll_again (connected : s.connection = some ⟨path, .file name⟩)
    (settled : ∀ r ∈ rs, Settled s.schema r) (done : Store.upsertAll s rs = (s', .ok ())) :
    s'.schema = s.schema ∧ s'.connection = s.connection ∧
      ∃ s'', Store.upsertAll s' rs = (s'', .ok ()) ∧
        (∀ handle, s''.disk.read handle = s'.disk.read handle) ∧
        ∀ key, s''.written.get? key = s'.written.get? key := by
  rcases upsertAll_placed connected settled with ⟨ls, _, hputs, hupserts, placed⟩ | ⟨e, -, failed⟩
  · cases done.symm.trans hupserts
    have hagain : putLines s'.schema rs (lines (s'.disk.read (.file name))) = .ok ls := by
      rw [placed.schema_eq, placed.lines_eq]
      exact putLines_again settled hputs
    rcases upsertAll_placed (placed.connection_eq.trans connected) (placed.schema_eq ▸ settled) with
      ⟨_, s'', hputs', hupserts', placed'⟩ | ⟨e, hputs', -⟩
    · cases hagain.symm.trans hputs'
      refine ⟨placed.schema_eq, placed.connection_eq, s'', hupserts', fun handle => ?_,
        fun key => ?_⟩
      · by_cases h : handle = .file name
        · rw [h, ← flatten_lines (s''.disk.read (.file name)), placed'.lines_eq,
            ← placed.lines_eq, flatten_lines]
        · exact placed'.others handle h
      · rw [placed'.written_eq, placed.written_eq, get?_remember_again]
    · exact nomatch hagain.symm.trans hputs'
  · rw [done] at failed
    exact nomatch failed

end FileStore

/-! ### The text imported again -/

namespace Datastore

/-- **Whoever has imported a text may import it again**: that succeeds with the same report and the
    same warnings, no file has other bytes than after the first import, and every client is given
    the same record for every key. -/
theorem import_again {d d' : Datastore FileStore} {c : Credentials} {path name : String}
    {data : Bytes} {skips : List Skip} {report : Report}
    (connected : d.store.connection = some ⟨path, .file name⟩)
    (once : d.importData c data = ⟨d', skips, .ok report⟩) :
    ∃ d'', d'.importData c data = ⟨d'', skips, .ok report⟩ ∧
      (∀ handle, d''.store.disk.read handle = d'.store.disk.read handle) ∧
      ∀ c' key, d''.get c' key = d'.get c' key := by
  have session : d.sessions.require c = .ok () := by
    cases hc : d.sessions.require c with
    | ok u => rfl
    | error e =>
        rw [importData, hc] at once
        cases congrArg Imported.outcome once
  obtain ⟨⟨hdatastore, houtcome⟩, hskips⟩ :=
    importData_written FileStore.importable ⟨path, name, connected⟩ session data
  rw [once] at hdatastore houtcome hskips
  rcases hput : Store.upsertAll d.store (recordsOf (Store.schema d.store) data) with ⟨s', e | u⟩
  · rw [hput] at houtcome
    cases houtcome
  · rw [hput] at hdatastore houtcome
    obtain rfl : d' = { d with store := s' } := hdatastore
    have settled : ∀ r ∈ recordsOf (Store.schema d.store) data, Settled d.store.schema r :=
      fun r => settled_of_mem_recordsOf
    obtain ⟨hschema, hconnection, s'', hagain, hread, hfind⟩ :=
      FileStore.upsertAll_again connected settled hput
    have hschema' : Store.schema s' = Store.schema d.store := hschema
    obtain ⟨⟨hdatastore', houtcome'⟩, hskips'⟩ :=
      @importData_written _ _ _ { d with store := s' } c FileStore.importable
        ⟨path, name, hconnection.trans connected⟩ session data
    simp only [hschema', hagain] at hdatastore' houtcome' hskips'
    generalize importData { d with store := s' } c data = i at hdatastore' houtcome' hskips' ⊢
    obtain ⟨d'', skips', outcome⟩ := i
    obtain rfl : d'' = { d with store := s'' } := hdatastore'
    obtain rfl : outcome = .ok report := houtcome'.trans houtcome.symm
    obtain rfl : skips' = skips := (hskips' report rfl).trans (hskips report rfl).symm
    refine ⟨_, rfl, hread, fun c' key => ?_⟩
    have hkey : Store.find? s'' key = Store.find? s' key := hfind key
    rw [get, get, hkey]

/-- Two lines for one view around a line that is no text; the view is in the file. -/
def repeatedViews : Bytes :=
  encode "box|film|another\n" ++ [0xFF, lineFeed] ++ encode "box|film|b\r\n"

/-- The second of the two is left after the first import, and after the second. -/
theorem import_again_annsViews :
    ∃ d' d'' skips,
      annsViews.importData ⟨"ann", "t1"⟩ repeatedViews = ⟨d', skips, .ok ⟨2, 1⟩⟩ ∧
      d'.importData ⟨"ann", "t1"⟩ repeatedViews = ⟨d'', skips, .ok ⟨2, 1⟩⟩ ∧
      d''.store.disk.read (.file "views") = encode "\r\nbox|film|b|||\n" ++ [0xFF, lineFeed]
        ++ encode "box|show" := by
  have hread : (annsViews.importData ⟨"ann", "t1"⟩ repeatedViews).datastore.store.disk.read
      (.file "views") = encode "\r\nbox|film|b|||\n" ++ [0xFF, lineFeed] ++ encode "box|show" := by
    decide +kernel
  have houtcome : (annsViews.importData ⟨"ann", "t1"⟩ repeatedViews).outcome = .ok ⟨2, 1⟩ := by
    decide +kernel
  generalize honce : annsViews.importData ⟨"ann", "t1"⟩ repeatedViews = i at hread houtcome
  obtain ⟨d', skips, outcome⟩ := i
  obtain rfl : outcome = .ok ⟨2, 1⟩ := houtcome
  have connected : annsViews.store.connection = some ⟨"views", .file "views"⟩ := rfl
  obtain ⟨d'', htwice, hsame, -⟩ := import_again connected honce
  exact ⟨d', d'', skips, rfl, htwice, (hsame _).trans hread⟩

end Datastore

end RecordStore
