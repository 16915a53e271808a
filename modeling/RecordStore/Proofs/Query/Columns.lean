import RecordStore.Proofs.Query.Origin
import RecordStore.Proofs.Query.Written

/-! # The columns of a result

    Each column of a result has a label, and each row has a cell in each column.  That the cells
    stand below the right labels is a matter of the rows alone: however they were made, filtered,
    ordered and folded, they show the chosen fields in the order of the choice.  That the labels
    tell the columns apart is a matter of the query's text: no field is chosen twice, and since the
    name of a field ends at the first colon, no name can pass for another one with an aggregate
    behind it.  A choice made by hand need not be like this.  The route:

    * `Separate`: what is known of a choice that was read, and `separate_of_parse`;
    * `Separate.nodup_labels`: labels from which the fields can be read again are distinct;
    * `Aligned`: columns and the rows below them, and `aligned_of_run`: what a query gives is
      aligned. -/

namespace RecordStore.Query

open RecordStore.Text

/-! ## What is known of a choice that was read -/

/-- Chosen fields of which none is chosen twice, and none has the mark behind which an aggregate is
    named. -/
structure Separate (items : List SelectItem) : Prop where
  distinct : (items.map (·.field)).Nodup
  unmarked : ∀ item ∈ items, ':' ∉ item.field.toList

variable {item : SelectItem} {items earlier : List SelectItem} {token : String}
  {tokens : List String}

/-- The field of an item is what stands before the first mark. -/
theorem unmarked_of_parseItem (h : parseItem token = .ok item) : ':' ∉ item.field.toList := by
  rw [parseItem, splitFirst?] at h
  cases hsplit : splitAtFirst? (· == ':') token.toList with
  | none =>
      rw [hsplit] at h
      cases h
      exact fun mem => absurd (not_of_splitAtFirst?_eq_none hsplit _ mem) (by decide)
  | some parts =>
      obtain ⟨before, after⟩ := parts
      obtain ⟨-, -, -, free⟩ := splitAtFirst?_eq_some hsplit
      rw [hsplit] at h
      dsimp only [Option.map_some] at h
      split at h
      · cases h
        intro mem
        rw [toList_trim, String.toList_ofList] at mem
        exact free ':' (mem_of_mem_trimChars mem) rfl
      · cases h

/-- Items are read one by one, and each has another field than those before it. -/
theorem separate_of_parseItems (separate : Separate earlier)
    (h : parseItems earlier tokens = .ok items) : Separate items := by
  induction tokens generalizing earlier with
  | nil =>
      cases h
      exact separate
  | cons token tokens ih =>
      obtain ⟨item, hitem, h⟩ := bind_eq_ok_iff.mp h
      by_cases repeated : earlier.any (·.field == item.field) = true
      · rw [if_pos repeated] at h
        cases h
      · rw [if_neg repeated] at h
        have fresh : item.field ∉ earlier.map (·.field) := by
          intro mem
          obtain ⟨other, hother, same⟩ := List.mem_map.mp mem
          exact repeated (List.any_eq_true.mpr ⟨other, hother, beq_iff_eq.mpr same⟩)
        refine ih ⟨?_, ?_⟩ h
        · rw [List.map_append]
          refine List.nodup_append.mpr ⟨separate.distinct, List.pairwise_singleton _ _, ?_⟩
          rintro name hname _ hlast rfl
          obtain rfl : name = item.field := List.mem_singleton.mp hlast
          exact fresh hname
        · refine List.forall_mem_append.mpr ⟨separate.unmarked, ?_⟩
          exact List.forall_mem_singleton.mpr (unmarked_of_parseItem hitem)

/-- A stage that was read from the argument of a command. -/
def Stage.Read (stage : Stage) : Prop := ∃ args kind, parseStage args kind = .ok stage

/-- Every command that is read has a stage that was read, by induction on the segments. -/
theorem read_of_parseCommands {before commands : List Command} {segments : List Segment}
    (read : ∀ command ∈ before, command.stage.Read)
    (h : parseCommands before segments = .ok commands) :
    ∀ command ∈ commands, command.stage.Read := by
  induction segments generalizing before with
  | nil =>
      cases h
      exact read
  | cons segment segments ih =>
      obtain ⟨command, hcommand, -, hrest⟩ := parseCommands_cons_eq_ok_iff.mp h
      refine ih (List.forall_mem_append.mpr ⟨read, List.forall_mem_singleton.mpr ?_⟩) hrest
      rw [parseCommand] at hcommand
      split at hcommand
      · cases hcommand
      · next kind _ =>
        obtain ⟨stage, hstage, ⟨⟩⟩ := bind_eq_ok_iff.mp hcommand
        exact ⟨_, kind, hstage⟩

/-- The items of a choice that was read can be told apart. -/
theorem Stage.Read.separate (h : (Stage.select items).Read) : Separate items := by
  obtain ⟨args, kind, h⟩ := h
  cases kind with
  | select =>
      obtain ⟨fields, -, h⟩ := bind_eq_ok_iff.mp h
      obtain ⟨_, hitems, ⟨⟩⟩ := bind_eq_ok_iff.mp h
      have none : Separate [] := ⟨List.nodup_nil, List.forall_mem_nil _⟩
      exact separate_of_parseItems none hitems
  | order | group | filter =>
      obtain ⟨_, -, h⟩ := bind_eq_ok_iff.mp h
      exact nomatch h

/-- The fields that a query chooses, if it was read from a text. -/
theorem separate_of_parse {text : String} {query : Query} (read : parse text = .ok query)
    (select : query.select = some items) : Separate items := by
  rw [parse] at read
  split at read
  · cases read
  split at read
  · cases read
  · next segments _ =>
    cases hcommands : parseCommands [] segments with
    | error e =>
        rw [hcommands] at read
        cases read
    | ok commands =>
        rw [hcommands] at read
        cases read
        obtain ⟨command, hmem, hstage⟩ := List.exists_of_findSome?_eq_some select
        have hread := read_of_parseCommands (List.forall_mem_nil _) hcommands command hmem
        revert hread hstage
        cases command.stage with
        | select chosen =>
            rintro ⟨⟩ hread
            exact hread.separate
        | order | group | filter =>
            intro h
            cases h

/-! ## Labels -/

/-- A label is cut where the aggregate begins, if there is one. -/
theorem splitFirst?_label (unmarked : ':' ∉ item.field.toList) :
    splitFirst? ':' item.label
      = item.aggregate.map fun aggregate => (item.field, aggregate.key) := by
  obtain ⟨field, aggregate⟩ := item
  have free : ∀ c ∈ field.toList, (c == ':') = false := by
    intro c hc
    rw [beq_eq_false_iff_ne]
    rintro rfl
    exact unmarked hc
  cases aggregate with
  | none =>
      show splitFirst? ':' field = none
      rw [splitFirst?, splitAtFirst?_eq_none free]
      rfl
  | some aggregate =>
      rw [splitFirst?, toList_label, splitAtFirst?_append free rfl]
      simp only [Option.map_some, String.ofList_toList]

/-- A label tells the field. -/
theorem field_eq_of_label_eq {item other : SelectItem} (hi : ':' ∉ item.field.toList)
    (ho : ':' ∉ other.field.toList) (same : item.label = other.label) :
    item.field = other.field := by
  have hsplit := splitFirst?_label hi
  rw [same, splitFirst?_label ho] at hsplit
  obtain ⟨field, aggregate⟩ := item
  obtain ⟨field', aggregate'⟩ := other
  cases aggregate with
  | none =>
      cases aggregate' with
      | none => exact same
      | some _ => exact nomatch hsplit
  | some _ =>
      cases aggregate' with
      | none => exact nomatch hsplit
      | some _ => exact (Prod.mk.inj (Option.some.inj hsplit)).1.symm

/-- **The labels of a choice that was read are distinct.** -/
theorem Separate.nodup_labels (h : Separate items) : (items.map (·.label)).Nodup := by
  refine List.pairwise_map.mpr ((List.pairwise_map.mp h.distinct).imp_of_mem ?_)
  intro item other hi ho ne same
  exact ne (field_eq_of_label_eq (h.unmarked item hi) (h.unmarked other ho) same)

/-! ## Rows below their columns -/

/-- A result in which every row shows the chosen fields in order, so that each of its cells stands
    below its label, has nothing in any other field, and no two columns have the same label. -/
structure Aligned (items : List SelectItem) (table : Table) : Prop where
  columns : table.columns = items.map (·.label)
  distinct : table.columns.Nodup
  ordering : ∀ row ∈ table.rows, row.ordering = items.map (·.field)
  cells : ∀ row ∈ table.rows, row.cells = (items.map (·.field)).map row.valueOf
  blank : ∀ row ∈ table.rows, ∀ name, name ∉ items.map (·.field) → row.valueOf name = ""

/-- Every row of an aligned result has a cell in each column. -/
theorem Aligned.length_cells {table : Table} (h : Aligned items table) :
    ∀ row ∈ table.rows, row.cells.length = table.columns.length := by
  intro row hrow
  rw [h.cells row hrow, h.columns, List.length_map, List.length_map, List.length_map]

/-- **What a query gives that was read from a text is aligned**, whatever commands it has. -/
theorem aligned_of_run {schema : Schema} {source : Source} {text : String} {query : Query}
    {plan : Plan} {table : Table} (read : parse text = .ok query)
    (made : Plan.make schema query = .ok plan) (follow : Follows schema source)
    (gives : plan.run source = .ok table) :
    query.select = some plan.items ∧ Aligned plan.items table := by
  obtain ⟨rfl, rfl, checked⟩ := Plan.make_eq_ok_iff.mp made
  rw [Plan.run] at gives
  obtain ⟨progress, reached, gives⟩ := bind_eq_ok_iff.mp gives
  have showing := showing_of_foldlM checked follow (List.append_nil _).symm reached
  cases hrows : progress.rows with
  | none =>
      rw [hrows] at gives
      exact nomatch gives
  | some rows =>
      rw [hrows] at gives
      cases gives
      have shows := showing.rows rows hrows
      refine ⟨checked.select, rfl, (separate_of_parse read checked.select).nodup_labels, ?_, ?_, ?_⟩
      · intro row hrow
        rw [Record.ordering, (shows row hrow).shown]
        rfl
      · intro row hrow
        rw [Record.cells, (shows row hrow).shown]
        rfl
      · exact fun row hrow => (shows row hrow).blank

end RecordStore.Query
