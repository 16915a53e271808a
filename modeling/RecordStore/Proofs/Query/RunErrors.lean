import RecordStore.Proofs.Query.Checked
import RecordStore.Proofs.Query.Groups
import RecordStore.Proofs.Query.Rows

/-! # What can still go wrong with a plan

    The check of a query looks every name up once; the run of the plan looks them up again and
    again, in rows that were narrowed, filtered, ordered, grouped and folded since.  None of these
    look-ups fails.  What is left to fail is the source, the folding of values in a group, and, of
    queries that were not read from a text, that nothing or twice something is selected.  The
    route:

    * `RunError`: what is left to fail;
    * `Reached`: what is known of the progress that a run has made after some commands;
    * `step_ends`, `foldlM_ends`, `run_ends`: one command keeps it or fails with one of these
      errors, so does every list of commands, and so does the run;
    * `run_error`: all of it together, and what of it is left of a query that was read. -/

namespace RecordStore.Query

/-- The errors of running a plan. -/
inductive RunError (plan : Plan) (source : Source) : StoreError → Prop where
  | source {e : StoreError} (read : collect source = .error e) : RunError plan source e
  | group {e : StoreError} (grouped : .group ∈ plan.query.kinds)
      (error : GroupError plan.schema plan.items e) : RunError plan source e
  | neverSelected (none : .select ∉ plan.query.kinds) (fault : SelectFault) :
      RunError plan source (.cannotExecute fault)
  | selectedAgain (twice : 1 < plan.query.kinds.count .select) :
      RunError plan source (.malformedQuery (.commandRepeated .select))

variable {plan : Plan} {source : Source} {done rest : List Command} {command : Command}
  {progress : Progress}

/-! ## One command -/

/-- What is known of the progress after some commands: the filters that wait look at chosen fields
    only, and there are rows when fields were selected, which are of the schema. -/
structure Reached (plan : Plan) (done : List Command) (progress : Progress) : Prop where
  pending : ∀ condition ∈ progress.pending, ∀ name ∈ condition.fields, name ∈ plan.fields
  rows : ∀ rows, progress.rows = some rows →
    .select ∈ done.map Command.kind ∧ ∀ r ∈ rows, r.schema = plan.schema
  noRows : progress.rows = none → .select ∉ done.map Command.kind

/-- A command that only rows can be given to stands behind the first that selects, or there is
    none that selects. -/
theorem Plan.Checked.select_not_mem (checked : plan.Checked)
    (place : plan.query.commands = done ++ command :: rest)
    (hdone : .select ∉ done.map Command.kind) (late : ¬ MayPrecede command.kind) :
    .select ∉ plan.query.kinds := by
  intro hselect
  have hcommand : command.kind ≠ .select := fun h => late (.inl h)
  have hrest : .select ∈ rest.map Command.kind := by
    rw [kinds, place, List.map_append, List.map_cons, List.mem_append, List.mem_cons] at hselect
    exact (hselect.resolve_left hdone).resolve_left (Ne.symm hcommand)
  have hfirst : done.findIdx? (·.kind == .select) = none := by
    rw [List.findIdx?_eq_none_iff]
    intro c hc
    exact beq_eq_false_iff_ne.mpr fun h => hdone (List.mem_map.mpr ⟨c, hc, h⟩)
  obtain ⟨i, hi⟩ : ∃ i, rest.findIdx? (·.kind == .select) = some i := by
    obtain ⟨c, hc, hkind⟩ := List.mem_map.mp hrest
    rw [← Option.isSome_iff_exists, List.findIdx?_isSome, List.any_eq_true]
    exact ⟨c, hc, beq_iff_eq.mpr hkind⟩
  have hposition : plan.query.selectPosition? = some (done.length + (i + 1)) := by
    rw [selectPosition?, place, List.findIdx?_append, hfirst, List.findIdx?_cons, hi,
      beq_eq_false_iff_ne.mpr hcommand, Option.none_or]
    exact congrArg some (Nat.add_comm _ _)
  refine late (checked.before command ?_)
  rw [hposition, Option.getD_some, place, List.take_length_add_append, List.take_succ_cons]
  exact List.mem_append_right _ List.mem_cons_self

/-- Before there are rows, a command keeps what is known or fails with one of the errors. -/
theorem step_none_ends {pending : List Filter} (checked : plan.Checked)
    (follow : Follows plan.schema source) (place : plan.query.commands = done ++ command :: rest)
    (reached : Reached plan done ⟨pending, none⟩) :
    Ends (Reached plan (done ++ [command])) (RunError plan source)
      (plan.step source ⟨pending, none⟩ command) := by
  have suits := checked.suits command (place ▸ List.mem_append_right _ List.mem_cons_self)
  have unselected := reached.noRows rfl
  obtain ⟨args, stage⟩ := command
  cases stage with
  | select items =>
      have hknown : ∀ name ∈ plan.fields, name ∈ plan.schema.names :=
        List.forall_mem_map.mpr checked.known
      show Ends _ _ (selectRows plan.fields pending source >>= _)
      rw [selectRows_eq follow hknown reached.pending]
      cases hread : collect source with
      | error e => exact .source hread
      | ok records =>
          refine ⟨reached.pending, ?_, fun h => nomatch h⟩
          rintro _ ⟨⟩
          rw [List.map_append]
          refine ⟨List.mem_append_right _ List.mem_cons_self, ?_⟩
          refine List.forall_mem_map.mpr fun r hr => ?_
          exact follow.schema_of_mem hread r (List.mem_filter.mp hr).1
  | filter condition =>
      refine ⟨?_, fun _ h => (nomatch h), fun _ => ?_⟩
      · refine List.forall_mem_append.mpr ⟨reached.pending, ?_⟩
        exact List.forall_mem_singleton.mpr fun name hn => (suits name hn).2
      · rw [List.map_append, List.mem_append]
        exact fun h => h.elim unselected fun h => nomatch List.mem_singleton.mp h
  | order fields | group key =>
      refine .neverSelected (checked.select_not_mem place unselected ?_) _
      exact fun h => h.elim (nomatch ·) (nomatch ·)

/-- On the rows that there are, a command keeps what is known or fails with one of the errors. -/
theorem step_some_ends {pending : List Filter} {rows : List Record} (checked : plan.Checked)
    (place : plan.query.commands = done ++ command :: rest)
    (reached : Reached plan done ⟨pending, some rows⟩) :
    Ends (Reached plan (done ++ [command])) (RunError plan source)
      (plan.step source ⟨pending, some rows⟩ command) := by
  have hmem : command ∈ plan.query.commands := place ▸ List.mem_append_right _ List.mem_cons_self
  have suits := checked.suits command hmem
  obtain ⟨selected, hrows⟩ := reached.rows _ rfl
  -- it is enough that the rows after the command are of the schema
  have keep {rows' : List Record} (hrows' : ∀ r ∈ rows', r.schema = plan.schema) :
      Reached plan (done ++ [command]) ⟨pending, some rows'⟩ := by
    refine ⟨reached.pending, ?_, fun h => nomatch h⟩
    rintro _ ⟨⟩
    rw [List.map_append]
    exact ⟨List.mem_append_left _ selected, hrows'⟩
  obtain ⟨args, stage⟩ := command
  cases stage with
  | select items =>
      refine .selectedAgain ?_
      have hpos := List.count_pos_iff.mpr selected
      rw [kinds, place, List.map_append, List.map_cons, List.count_append]
      show 1 < _ + List.count CommandKind.select (CommandKind.select :: _)
      rw [List.count_cons_self]
      omega
  | filter condition =>
      have hfilter : filterRows condition rows = .ok (rows.filter condition.holds) :=
        filterRows_eq fun r hr name hn => hrows r hr ▸ (suits name hn).1
      show Ends _ _ (filterRows condition rows >>= _)
      rw [hfilter]
      exact keep fun r hr => hrows r (List.mem_filter.mp hr).1
  | order fields =>
      obtain ⟨sorted, hsorted, stable⟩ :=
        orderRows_stablySorted (fun name hn => (suits name hn).1) hrows
      show Ends _ _ (orderRows plan.schema fields rows >>= _)
      rw [hsorted]
      exact keep fun r hr => hrows r (stable.perm.mem_iff.mp hr)
  | group key =>
      have grouped : .group ∈ plan.query.kinds := List.mem_map.mpr ⟨_, hmem, rfl⟩
      refine Ends.bind ((groupRows_ends suits hrows).mono (fun _ h => h) ?_) ?_
      · exact fun _ error => .group grouped error
      · exact fun _ hgrouped => keep hgrouped

/-- **One command**: what was reached is reached with it, or it fails in one of the known ways. -/
theorem step_ends (checked : plan.Checked) (follow : Follows plan.schema source)
    (place : plan.query.commands = done ++ command :: rest) (reached : Reached plan done progress) :
    Ends (Reached plan (done ++ [command])) (RunError plan source)
      (plan.step source progress command) := by
  obtain ⟨pending, rows⟩ := progress
  cases rows with
  | none => exact step_none_ends checked follow place reached
  | some rows => exact step_some_ends checked place reached

/-! ## All commands -/

/-- Commands, one after the other, by induction on them. -/
theorem foldlM_ends (checked : plan.Checked) (follow : Follows plan.schema source)
    (place : plan.query.commands = done ++ rest) (reached : Reached plan done progress) :
    Ends (Reached plan plan.query.commands) (RunError plan source)
      (rest.foldlM (plan.step source) progress) :=
  Ends.foldlM_done (fun _ _ _ _ => step_ends checked follow) place reached

/-- A run fails in one of the known ways, or not at all. -/
theorem run_ends (checked : plan.Checked) (follow : Follows plan.schema source) :
    Ends (fun _ => True) (RunError plan source) (plan.run source) := by
  have start : Reached plan [] ⟨[], none⟩ :=
    ⟨fun _ h => (nomatch h), fun _ h => (nomatch h), fun _ h => nomatch h⟩
  refine (foldlM_ends checked follow rfl start).bind fun progress reached => ?_
  cases hrows : progress.rows with
  | some rows => exact trivial
  | none => exact .neverSelected (reached.noRows hrows) _

/-! ## What the check excludes -/

/-- The errors that a query is checked for before it is run. -/
def Foreseen : StoreError → Prop
  | .unknownField _ | .fieldNotSelected _ | .invalidGroup _ | .malformedFilter _ => True
  | _ => False

/-- An error of a run is that of a record that cannot be read, or none that the check could have
    found. -/
theorem RunError.not_foreseen {e : StoreError} (h : RunError plan source e) :
    collect source = .error e ∨ ¬ Foreseen e := by
  cases h with
  | source read => exact .inl read
  | neverSelected | selectedAgain => exact .inr id
  | group grouped error =>
      obtain ⟨-, -, -, -, -, error⟩ := error
      cases error <;> exact .inr id

/-- Of a query that selects once only the source and the folding of values can fail. -/
theorem RunError.of_distinct {e : StoreError} (h : RunError plan source e)
    (distinct : plan.query.kinds.Nodup) (selects : .select ∈ plan.query.kinds) :
    collect source = .error e ∨
      .group ∈ plan.query.kinds ∧ GroupError plan.schema plan.items e := by
  cases h with
  | source read => exact .inl read
  | group grouped error => exact .inr ⟨grouped, error⟩
  | neverSelected none => exact absurd selects none
  | selectedAgain twice => exact absurd (List.nodup_iff_count.mp distinct .select) (by omega)

/-- **A query that was checked fails only for what the check cannot know.**  Where a query has a
    plan, its run on records of the schema fails with the first error of the source; where values
    of a group are folded; or where the query selects nothing or selects twice.  Unless the source
    gives it, no error is one that the check is there to find.  A query that was read from a text
    fails with the first error of the source or where values are folded, and if it does not group,
    with nothing but the former. -/
theorem run_error (schema : Schema) (query : Query) (plan : Plan) (source : Source)
    (e : StoreError) (made : Plan.make schema query = .ok plan) (follow : Follows schema source)
    (fails : plan.run source = .error e) :
    RunError plan source e ∧ (collect source = .error e ∨ ¬ Foreseen e) ∧
      ∀ s, parse s = .ok query →
        (collect source = .error e ∨ GroupError schema plan.items e) ∧
        (.group ∉ query.kinds → collect source = .error e) := by
  obtain ⟨rfl, rfl, checked⟩ := Plan.make_eq_ok_iff.mp made
  have error : RunError plan source e := by
    have ends := run_ends checked follow
    rwa [fails] at ends
  refine ⟨error, error.not_foreseen, fun s read => ?_⟩
  obtain ⟨distinct, selects⟩ := kinds_of_parse read
  have left := error.of_distinct distinct (selects _ checked.select)
  exact ⟨left.imp_right And.right, fun ungrouped => left.resolve_right fun h => ungrouped h.1⟩

/-- A view whose revenue is no number. -/
def freeView : Source := [.ok (.parse .mediaViews "box|film|none|2014-04-01|free|1:30")]

/-- The revenue of each title. -/
def revenueByTitle : Plan where
  schema := .mediaViews
  query := ofCommands
    [⟨"title,rev:sum", .select [⟨"title", none⟩, ⟨"rev", some .sum⟩]⟩, ⟨"title", .group "title"⟩]
  items := [⟨"title", none⟩, ⟨"rev", some .sum⟩]

/-- The query is read and has a plan, and the revenue that is no number is found when it is added;
    that is an error of folding. -/
theorem run_error_of_freeView :
    parse "-s title,rev:sum -g title" = .ok revenueByTitle.query ∧
      Plan.make .mediaViews revenueByTitle.query = .ok revenueByTitle ∧
      revenueByTitle.run freeView = .error (.invalidValue "rev" (.notOfKind "free" .decimal)) ∧
      GroupError .mediaViews revenueByTitle.items
        (.invalidValue "rev" (.notOfKind "free" .decimal)) := by
  have read : parse "-s title,rev:sum -g title" = .ok revenueByTitle.query := by
    have hsegments : Segment.ofChars? "-s title,rev:sum -g title".toList
        = some [⟨"s", "title,rev:sum"⟩, ⟨"g", "title"⟩] := by decide +kernel
    rw [parse, hsegments]
    rfl
  have made : Plan.make .mediaViews revenueByTitle.query = .ok revenueByTitle := by rfl
  have fails : revenueByTitle.run freeView
      = .error (.invalidValue "rev" (.notOfKind "free" .decimal)) := by
    have hordered (r : Record) : orderRows .mediaViews ["title"] [r] = .ok [r] := by
      show Except.ok ([r].mergeSort _) = _
      rw [List.mergeSort_singleton]
    rw [Plan.run_eq_resume]
    show revenueByTitle.resume freeView [⟨_, .select _⟩, ⟨_, .group "title"⟩] _ = _
    rw [Plan.resume_select]
    show revenueByTitle.resume freeView [⟨_, .group "title"⟩] ⟨[], some [_]⟩ = _
    rw [Plan.resume_group]
    show groupRows .mediaViews _ _ _ >>= _ = _
    rw [groupRows, hordered]
    rfl
  have follow : Follows .mediaViews freeView := by
    intro r hr
    cases List.mem_singleton.mp hr
    exact Record.schema_parse _ _
  refine ⟨read, made, fails, ?_⟩
  have left := ((run_error .mediaViews _ _ freeView _ made follow fails).2.2 _ read).1
  refine left.resolve_left fun h => ?_
  cases h

end RecordStore.Query
