import RecordStore.Proofs.Query.RunErrors

/-! # Where the rows of a run come from

    The commands of a plan make rows in three ways only: a record is narrowed to the chosen fields,
    a row is taken over as it is, or the first row of a group is rewritten by folds.  So what is to
    be known of the rows, however far a run has come, has to be shown of these ways alone.  The
    route:

    * `RowOrigin`, `step_origin`: where each row is from that is there after a command;
    * `ShowsChosen`, `RowOrigin.showsChosen`: the rows show the chosen fields and have no value in
      any other, whichever way they are made;
    * `step_showing`, `showing_of_foldlM`: so it is after every list of commands. -/

namespace RecordStore.Query

variable {plan : Plan} {source : Source} {done rest : List Command} {command : Command}
  {progress : Progress} {run : List Record} {r : Record}

/-! ## One command -/

/-- The ways in which a command makes a row, of the source or of the rows that there are. -/
inductive RowOrigin (plan : Plan) (source : Source) (rows : Option (List Record)) (r : Record) :
    Prop where
  | selected {record : Record} (read : .ok record ∈ source)
      (narrowed : r = record.narrow plan.fields)
  | kept {before : List Record} (there : rows = some before) (mem : r ∈ before)
  | grouped {before : List Record} {key v : String} (there : rows = some before)
      (into : GroupedInto plan.schema plan.items key before v r)

/-- Every row that is there after a command was made in one of these ways. -/
theorem step_origin (checked : plan.Checked) (follow : Follows plan.schema source)
    (place : plan.query.commands = done ++ command :: rest) (reached : Reached plan done progress) :
    Ends (fun next => ∀ rows, next.rows = some rows → ∀ r ∈ rows,
        RowOrigin plan source progress.rows r) (fun _ => True)
      (plan.step source progress command) := by
  have suits := checked.suits command (place ▸ List.mem_append_right _ List.mem_cons_self)
  obtain ⟨args, stage⟩ := command
  obtain ⟨pending, _ | before⟩ := progress
  · cases stage with
    | select items =>
        have hknown : ∀ name ∈ plan.fields, name ∈ plan.schema.names :=
          List.forall_mem_map.mpr checked.known
        show Ends _ _ (selectRows plan.fields pending source >>= _)
        rw [selectRows_eq follow hknown reached.pending]
        cases hread : collect source with
        | error e => exact trivial
        | ok records =>
            rintro _ ⟨⟩
            refine List.forall_mem_map.mpr fun record hr => ?_
            exact .selected (mem_of_mem_collect hread (List.mem_filter.mp hr).1) rfl
    | filter condition => exact fun _ h => nomatch h
    | order fields | group key => exact trivial
  · have schemas : ∀ r ∈ before, r.schema = plan.schema := (reached.rows before rfl).2
    cases stage with
    | select items => exact trivial
    | filter condition =>
        have hfilter : filterRows condition before = .ok (before.filter condition.holds) :=
          filterRows_eq fun r hr name hn => schemas r hr ▸ (suits name hn).1
        show Ends _ _ (filterRows condition before >>= _)
        rw [hfilter]
        rintro _ ⟨⟩ r hr
        exact .kept rfl (List.mem_filter.mp hr).1
    | order fields =>
        obtain ⟨sorted, hsorted, stable⟩ :=
          orderRows_stablySorted (fun name hn => (suits name hn).1) schemas
        show Ends _ _ (orderRows plan.schema fields before >>= _)
        rw [hsorted]
        rintro _ ⟨⟩ r hr
        exact .kept rfl (stable.perm.mem_iff.mp hr)
    | group key =>
        obtain ⟨values, -, -, made⟩ := groupRows_madeOf suits schemas
        refine Ends.bind (Ends.mono made (fun _ h => h) fun _ _ => trivial) ?_
        rintro grouped ⟨-, h⟩ _ ⟨⟩ r hr
        obtain ⟨v, -, into⟩ := exists_of_mem_forall₂ h hr
        exact .grouped rfl into

/-! ## What the rows show -/

/-- A row of the chosen fields: it shows just these, and it has no value in any other. -/
structure ShowsChosen (plan : Plan) (r : Record) : Prop where
  schema : r.schema = plan.schema
  shown : r.override = some plan.fields
  blank : ∀ name, name ∉ plan.fields → r.valueOf name = ""

/-- A record that is narrowed shows the chosen fields. -/
theorem ShowsChosen.narrow (h : r.schema = plan.schema) :
    ShowsChosen plan (r.narrow plan.fields) where
  schema := h
  shown := rfl
  blank _ left := Record.valueOf_narrow_of_not_mem left

/-- A row that is rewritten shows them still, since the folds are set in chosen fields. -/
theorem ShowsChosen.folded {first : Record} (h : ShowsChosen plan first)
    (folded : Folded plan.schema plan.items run first r) : ShowsChosen plan r where
  schema := folded.schema_eq.trans h.schema
  shown := folded.shown_eq.trans h.shown
  blank name left := by
    rw [folded.kept name fun item chosen _ same => left (List.mem_map.mpr ⟨item, chosen, same⟩)]
    exact h.blank name left

/-- A row shows the chosen fields, wherever it comes from. -/
theorem RowOrigin.showsChosen {rows : Option (List Record)} (follow : Follows plan.schema source)
    (shows : ∀ before, rows = some before → ∀ r ∈ before, ShowsChosen plan r)
    (h : RowOrigin plan source rows r) : ShowsChosen plan r := by
  cases h with
  | selected read narrowed => exact narrowed ▸ .narrow (follow _ read)
  | kept there mem => exact shows _ there r mem
  | grouped there into =>
      obtain ⟨first, hfirst, -, folded⟩ := into
      exact (shows _ there first hfirst).folded folded

/-! ## All commands -/

/-- What is known of the progress after some commands, and of its rows if there are any. -/
structure Showing (plan : Plan) (done : List Command) (progress : Progress) : Prop where
  reached : Reached plan done progress
  rows : ∀ rows, progress.rows = some rows → ∀ r ∈ rows, ShowsChosen plan r

/-- A command keeps that the rows show the chosen fields. -/
theorem step_showing (checked : plan.Checked) (follow : Follows plan.schema source)
    (place : plan.query.commands = done ++ command :: rest) (showing : Showing plan done progress) :
    Ends (Showing plan (done ++ [command])) (fun _ => True)
      (plan.step source progress command) := by
  have origins := step_origin checked follow place showing.reached
  refine ((step_ends checked follow place showing.reached).and origins).mono ?_ fun _ _ => trivial
  rintro next ⟨reached, origin⟩
  exact ⟨reached, fun rows hrows r hr => (origin rows hrows r hr).showsChosen follow showing.rows⟩

/-- The first commands of a plan bring about rows that show the chosen fields. -/
theorem showing_of_foldlM (checked : plan.Checked) (follow : Follows plan.schema source)
    (place : plan.query.commands = done ++ rest)
    (reached : done.foldlM (plan.step source) ⟨[], none⟩ = .ok progress) :
    Showing plan done progress := by
  have start : Showing plan [] ⟨[], none⟩ :=
    ⟨⟨fun _ h => (nomatch h), fun _ h => (nomatch h), fun _ h => nomatch h⟩, fun _ h => nomatch h⟩
  have ends : Ends (Showing plan done) (fun _ => True)
      (done.foldlM (plan.step source) ⟨[], none⟩) := by
    refine Ends.foldlM_done ?_ done.nil_append.symm start
    intro done' command rest' _ hdone showing
    have hplace : plan.query.commands = done' ++ command :: (rest' ++ rest) := by
      rw [place, hdone, List.append_assoc, List.cons_append]
    exact step_showing checked follow hplace showing
  rwa [reached] at ends

end RecordStore.Query
