import RecordStore.Output.Format
import RecordStore.Proofs.Json.RoundTrip
import RecordStore.Proofs.Query.Columns
import RecordStore.Store.File
import RecordStore.Store.Memory

/-! # A result in JSON, decoded

    A result in JSON is an array of objects, one for each row, in which the cells of the row stand
    under the labels of the columns.  The members of an object are sorted by name, and of two with
    the same name only one is left; so nothing is lost as long as the labels are distinct and every
    row has a cell for each, which is so for whatever a query gives that was read from a text.  The
    characters of labels and cells do not matter: whoever decodes the text has them all again.  The
    route:

    * `rowObject_eq`: the object of one row;
    * `Carries`, `read?_table`: the text of a whole result is decoded to its rows;
    * `Uniform`, `uniform_file`, `uniform_memory`: the records of a store are of its schema;
    * `decoded_of_query`, `json_table_decoded`: queries to a store. -/

namespace RecordStore.Output

open RecordStore.Text

variable {columns : List String} {row : Record} {rows : List Record} {table : Query.Table}

/-! ## Rows and results -/

/-- The labels with the cells of a row, as members. -/
def rowMembers (columns : List String) (row : Record) : List (Option String × Json) :=
  (columns.zip row.cells).map Json.textMember

/-- The object of a row with a cell for each label has just these members. -/
theorem rowObject_eq (distinct : columns.Nodup) (full : row.cells.length = columns.length) :
    ∃ members, Writer.rowObject columns row.cells = .object members ∧
      members.Perm (rowMembers columns row) := by
  have labels : (columns.zip row.cells).map Prod.fst = columns :=
    List.map_fst_zip (Nat.le_of_eq full.symm)
  exact Json.perm_ofTexts (labels.symm ▸ distinct)

/-- A JSON value that is an array with an object for each row of a result, in order, whose members
    are the labels of the columns with the cells of the row. -/
def Carries (table : Query.Table) (value : Json) : Prop :=
  ∃ objects, value = .array (objects.map Json.object) ∧
    List.Forall₂ (fun row members => members.Perm (rowMembers table.columns row))
      table.rows objects

/-- Each row becomes an object with a member for each column, in some order. -/
theorem rowObjects_eq (distinct : columns.Nodup)
    (full : ∀ row ∈ rows, row.cells.length = columns.length) :
    ∃ objects, rows.map (fun row => Writer.rowObject columns row.cells)
        = objects.map Json.object ∧
      List.Forall₂ (fun row members => members.Perm (rowMembers columns row)) rows objects := by
  induction rows with
  | nil => exact ⟨[], rfl, .nil⟩
  | cons row rows ih =>
      obtain ⟨hrow, hrows⟩ := List.forall_mem_cons.mp full
      obtain ⟨members, hmembers, perm⟩ := rowObject_eq distinct hrow
      obtain ⟨objects, hobjects, perms⟩ := ih hrows
      exact ⟨members :: objects, by rw [List.map_cons, hmembers, hobjects, List.map_cons],
        .cons perm perms⟩

/-- **The text of a result is decoded to the result**, where its columns can be told apart and each
    row has a cell in each. -/
theorem read?_table (distinct : table.columns.Nodup)
    (full : ∀ row ∈ table.rows, row.cells.length = table.columns.length) (color : Bool) :
    ∃ value, Json.read? (Writer.table ⟨.json, color⟩ table) = some value ∧
      Carries table value := by
  obtain ⟨objects, hobjects, perms⟩ := rowObjects_eq distinct full
  refine ⟨.array (objects.map .object), ?_, objects, rfl, perms⟩
  rw [← hobjects]
  refine Json.read?_pretty ?_
  rw [Json.Numberless, Json.numberlessItems_iff]
  exact List.forall_mem_map.mpr fun row _ => Json.numberless_ofTexts _

/-! ## Queries to a store -/

/-- What is read from lines is of the schema it is read with. -/
theorem follows_stream (schema : Schema) (contents : Bytes) :
    Query.Follows schema (stream schema contents) := by
  intro r hr
  obtain ⟨line, -, hseen⟩ := List.mem_filterMap.mp hr
  rw [Line.seen?, Line.record] at hseen
  cases hdecode : decode line with
  | error fault =>
      rw [hdecode] at hseen
      cases hseen
  | ok text =>
      rw [hdecode] at hseen
      dsimp only at hseen
      split at hseen
      · obtain rfl := Except.ok.inj (Option.some.inj hseen)
        exact Record.schema_parse ..
      · cases hseen

/-- A store whose records are of its schema. -/
def Uniform {σ : Type} [Store σ] (s : σ) : Prop :=
  ∀ source, Store.records s = .ok source → Query.Follows (Store.schema s) source

theorem uniform_file (s : FileStore) : Uniform s := by
  intro source records
  replace records : s.contents.map (stream s.schema) = .ok source := records
  cases hcontents : s.contents with
  | error e =>
      rw [hcontents] at records
      exact nomatch records
  | ok contents =>
      rw [hcontents] at records
      cases records
      exact follows_stream s.schema contents

theorem uniform_memory (s : MemoryStore) : Uniform s := by
  intro source records
  obtain ⟨-, -, given⟩ := bind_eq_ok_iff.mp records
  cases given
  exact follows_stream s.schema s.contents

/-- A result of a query that was read from a text, with the fields that the query chooses: it is
    aligned, every row has a cell in each column, and its text in JSON is decoded to it. -/
def Decoded (text : String) (color : Bool) (table : Query.Table) : Prop :=
  ∃ query items, Query.parse text = .ok query ∧ query.select = some items ∧
    Query.Aligned items table ∧
    (∀ row ∈ table.rows, row.cells.length = table.columns.length) ∧
    ∃ value, Json.read? (Writer.table ⟨.json, color⟩ table) = some value ∧ Carries table value

/-- The result of a query is decoded from its text, in every store with records of its schema. -/
theorem decoded_of_query {σ : Type} [Store σ] {s : σ} (uniform : Uniform s) {text : String}
    (gives : Store.query s text = .ok table) (color : Bool) : Decoded text color table := by
  obtain ⟨query, read, gives⟩ := bind_eq_ok_iff.mp gives
  obtain ⟨plan, made, gives⟩ := bind_eq_ok_iff.mp gives
  obtain ⟨source, records, gives⟩ := bind_eq_ok_iff.mp gives
  obtain ⟨select, aligned⟩ := Query.aligned_of_run read made (uniform source records) gives
  exact ⟨query, plan.items, read, select, aligned, aligned.length_cells,
    read?_table aligned.distinct aligned.length_cells color⟩

/-- **A result in JSON loses nothing.**  Whatever a store holds, in a file or in memory, and
    whatever query it is asked: if there is a result, then each of its rows shows the chosen fields
    in the order of the choice, has a cell in each column and nothing in any other field; the labels
    of the columns are distinct; and decoding the result in JSON gives an array with one object for
    each row, in the order of the rows, whose members are the labels of the columns with the cells
    of the row, whatever characters these are made of. -/
theorem json_table_decoded (text : String) (color : Bool) (table : Query.Table) :
    (∀ s : FileStore, Store.query s text = .ok table → Decoded text color table) ∧
    ∀ s : MemoryStore, Store.query s text = .ok table → Decoded text color table :=
  ⟨fun s gives => decoded_of_query (uniform_file s) gives color,
    fun s gives => decoded_of_query (uniform_memory s) gives color⟩

/-- Two views of one title, with a quote and a backslash in the title and a tab in a box. -/
def quotedViews : List Record :=
  [.parse .mediaViews "b\t1|\"up\\|pixar", .parse .mediaViews "b2|\"up\\|pixar"]

/-- The views in memory. -/
def quotedMemory : MemoryStore := ⟨.mediaViews, true, quotedViews, []⟩

/-- The views in a file. -/
def quotedFile : FileStore :=
  ⟨.mediaViews, ⟨[("views", quotedViews.flatMap Record.storedLine)], []⟩,
    some ⟨"views", .file "views"⟩, []⟩

/-- The boxes of each title. -/
def boxesByTitle : Query.Plan where
  schema := .mediaViews
  query := Query.ofCommands
    [⟨"title,stb:collect", .select [⟨"title", none⟩, ⟨"stb", some .collect⟩]⟩,
      ⟨"title", .group "title"⟩]
  items := [⟨"title", none⟩, ⟨"stb", some .collect⟩]

/-- The one title with its two boxes. -/
def quotedBoxes : Query.Table :=
  ⟨["title", "stb:collect"], [⟨.mediaViews, ["[b\t1,b2]", "\"up\\", "", "", "", ""],
    some ["title", "stb"], true, rfl⟩]⟩

theorem run_boxesByTitle : boxesByTitle.run (quotedViews.map .ok) = .ok quotedBoxes := by
  rw [Query.Plan.run_eq_resume]
  show boxesByTitle.resume _ [⟨_, .select _⟩, ⟨_, .group "title"⟩] _ = _
  rw [Query.Plan.resume_select]
  show boxesByTitle.resume _ [⟨_, .group "title"⟩] ⟨[], some [_, _]⟩ = _
  rw [Query.Plan.resume_group]
  show Query.groupRows .mediaViews _ _ _ >>= _ = _
  have hordered (a b : Record) (h : Query.precedes [1] a b = true) :
      Query.orderRows .mediaViews ["title"] [a, b] = .ok [a, b] := by
    show Except.ok ([a, b].mergeSort (Query.precedes [1])) = _
    rw [List.mergeSort_of_pairwise (by simpa using h)]
  rw [Query.groupRows, hordered _ _ (by decide +kernel)]
  rfl

theorem query_boxesByTitle {σ : Type} [Store σ] {s : σ} (schema : Store.schema s = .mediaViews)
    (records : Store.records s = .ok (quotedViews.map .ok)) :
    Store.query s "-s title,stb:collect -g title" = .ok quotedBoxes := by
  have read : Query.parse "-s title,stb:collect -g title" = .ok boxesByTitle.query := by
    have hsegments : Query.Segment.ofChars? "-s title,stb:collect -g title".toList
        = some [⟨"s", "title,stb:collect"⟩, ⟨"g", "title"⟩] := by decide +kernel
    rw [Query.parse, hsegments]
    rfl
  have made : Query.Plan.make .mediaViews boxesByTitle.query = .ok boxesByTitle := by rfl
  rw [Store.query, read, schema, records]
  show (Query.Plan.make .mediaViews boxesByTitle.query >>= fun plan =>
    plan.run (quotedViews.map .ok)) = _
  rw [made]
  exact run_boxesByTitle

/-- The views are grouped in a file and in memory, and the tab, the quote and the backslash are in
    the value that the text of the result is decoded to. -/
theorem json_table_decoded_quotedViews :
    Store.query quotedFile "-s title,stb:collect -g title" = .ok quotedBoxes ∧
      Store.query quotedMemory "-s title,stb:collect -g title" = .ok quotedBoxes ∧
      Decoded "-s title,stb:collect -g title" true quotedBoxes := by
  have hfile : Store.query quotedFile "-s title,stb:collect -g title" = .ok quotedBoxes :=
    query_boxesByTitle rfl (by decide +kernel)
  have hmemory : Store.query quotedMemory "-s title,stb:collect -g title" = .ok quotedBoxes :=
    query_boxesByTitle rfl (by decide +kernel)
  exact ⟨hfile, hmemory, (json_table_decoded _ true _).1 quotedFile hfile⟩

end RecordStore.Output
