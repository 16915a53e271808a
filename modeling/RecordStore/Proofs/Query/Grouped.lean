import RecordStore.Proofs.Query.Origin
import RecordStore.Proofs.Text.Utf8

/-! # Groups and their rows

    What is in the row of each group, and which groups a filter on the key leaves. -/

namespace RecordStore.Query

open Text

/-! ## What grouping gives

    A plan groups rows that have come through the commands before: narrowed, filtered, ordered, or
    grouped already.  Whatever these were, grouping gives one row for each value that the rows
    have, as if it had looked through all of them for every value.  The route:

    * `GroupRow`, `GroupedInto.groupRow`: what the row of a group is, when no field is chosen twice;
    * `GroupRow.collected`: what it has in a field that is collected;
    * `row_per_value`: all rows, together with how grouping fails. -/

section Grouped

variable {plan : Plan} {source : Source} {key : String} {rows : List Record}

/-! ### The row of a group -/

/-- The row of a group: it shows the chosen fields, has the value of the group, and in every other
    chosen field what the item asks for of the rows with this value, in their order. -/
structure GroupRow (plan : Plan) (key : String) (rows : List Record) (v : String)
    (row : Record) : Prop extends ShowsChosen plan row where
  key_eq : row.valueOf key = v
  folds_eq : ∀ item ∈ plan.items, item.field ≠ key → ∃ aggregate,
    item.aggregate = some aggregate ∧
    foldOf plan.schema (withValue key rows v) item aggregate = .ok (row.valueOf item.field)

/-- Where no field is chosen twice, each chosen field of the row of a group is known by itself. -/
theorem GroupedInto.groupRow {v : String} {row : Record}
    (suits : Suits plan.schema plan.items (.group key)) (distinct : plan.fields.Nodup)
    (hrows : ∀ r ∈ rows, ShowsChosen plan r)
    (h : GroupedInto plan.schema plan.items key rows v row) : GroupRow plan key rows v row := by
  obtain ⟨first, hfirst, hv, folded⟩ := h
  refine ⟨(hrows first hfirst).folded folded, (folded.key_eq suits.2).trans hv, ?_⟩
  intro item chosen other
  cases carried : item.aggregate with
  | none => exact absurd ((suits.2 item chosen).field_eq carried) other
  | some aggregate => exact ⟨aggregate, rfl, folded.folded distinct item chosen aggregate carried⟩

/-- What a group collects in a field: the values that its rows have there, in their order, without
    those that are empty. -/
theorem GroupRow.collected {v : String} {row : Record} (h : GroupRow plan key rows v row)
    (suits : Suits plan.schema plan.items (.group key)) {item : SelectItem}
    (chosen : item ∈ plan.items) (collects : item.aggregate = some .collect) :
    row.valueOf item.field = "[" ++ ",".intercalate
      (present ((withValue key rows v).map (·.valueOf item.field))) ++ "]" := by
  have other : item.field ≠ key := ((suits.2 item chosen).exists_field collects).1
  obtain ⟨aggregate, carried, hfold⟩ := h.folds_eq item chosen other
  cases collects.symm.trans carried
  obtain ⟨field, -, hfold⟩ := bind_eq_ok_iff.mp hfold
  exact (Except.ok.inj hfold).symm

/-- **Grouping gives one row for each value that the rows have.**  Let the commands before have
    brought about some rows, and let no field be chosen twice.  The values ascend by their bytes.
    When no fold of a group fails, there is one row for each value, with the folds of the rows that
    have it; so what is collected stands in the order of the rows, be it that of the source or one
    that a command before has made.  And grouping fails exactly when a fold does, with the error of
    the first: the groups in the order of the values, and in each the items as they were chosen. -/
theorem row_per_value {schema : Schema} {query : Query} {before after : List Command}
    {args : String} {pending : List Filter} (made : Plan.make schema query = .ok plan)
    (distinct : plan.fields.Nodup) (follow : Follows schema source)
    (place : query.commands = before ++ ⟨args, .group key⟩ :: after)
    (reached : before.foldlM (plan.step source) ⟨[], none⟩ = .ok ⟨pending, some rows⟩) :
    ∃ values : List String, values.Pairwise (fun v w => encode v < encode w) ∧
      (∀ v, v ∈ values ↔ ∃ r ∈ rows, r.valueOf key = v) ∧
      (Succeed (groupFolds schema plan.items key rows values) → ∃ grouped,
        plan.step source ⟨pending, some rows⟩ ⟨args, .group key⟩ = .ok ⟨pending, some grouped⟩ ∧
        List.Forall₂ (GroupRow plan key rows) values grouped ∧
        ∀ item ∈ plan.items, item.aggregate = some .collect →
          List.Forall₂ (fun v row => row.valueOf item.field = "[" ++ ",".intercalate
            (present ((withValue key rows v).map (·.valueOf item.field))) ++ "]")
            values grouped) ∧
      ∀ e, plan.step source ⟨pending, some rows⟩ ⟨args, .group key⟩ = .error e ↔
        FirstError (groupFolds schema plan.items key rows values) e := by
  obtain ⟨rfl, rfl, checked⟩ := Plan.make_eq_ok_iff.mp made
  have hrows := (showing_of_foldlM checked follow place reached).rows rows rfl
  have suits : Suits plan.schema plan.items (.group key) :=
    checked.suits ⟨args, .group key⟩ (place ▸ List.mem_append_right _ List.mem_cons_self)
  obtain ⟨values, ascending, members, grouping⟩ :=
    groupRows_madeOf suits fun r hr => (hrows r hr).schema
  have hstep : MadeOf (groupFolds plan.schema plan.items key rows values)
      (fun progress => ∃ grouped, progress = ⟨pending, some grouped⟩ ∧
        List.Forall₂ (GroupRow plan key rows) values grouped)
      (plan.step source ⟨pending, some rows⟩ ⟨args, .group key⟩) := by
    rw [← List.append_nil (groupFolds ..)]
    show MadeOf _ _ (groupRows plan.schema plan.items key rows >>= _)
    refine grouping.bind fun grouped h => .value ⟨grouped, rfl, ?_⟩
    exact h.imp fun _ _ h => h.groupRow suits distinct hrows
  refine ⟨values, ascending.imp encode_lt_encode_iff.mpr, members, fun succeed => ?_,
    fun e => hstep.eq_error_iff⟩
  obtain ⟨_, eq, grouped, rfl, h⟩ := hstep.eq_ok succeed
  exact ⟨grouped, eq, h, fun item chosen collects =>
    h.imp fun _ _ row => row.collected suits chosen collects⟩

/-- Three views of two films. -/
def filmViews : List Record :=
  [.parse .mediaViews "b2|up|pixar|2014-04-02|1.50|1:30",
    .parse .mediaViews "b1|cars|pixar|2014-04-01|0.25|0:50",
    .parse .mediaViews "b1|up|pixar|2014-04-01|1.5|1:30"]

/-- The revenue and the boxes of each title. -/
def boxesByTitle : Plan where
  schema := .mediaViews
  query := ofCommands
    [⟨"title,rev:sum,stb:collect",
        .select [⟨"title", none⟩, ⟨"rev", some .sum⟩, ⟨"stb", some .collect⟩]⟩,
      ⟨"title", .group "title"⟩]
  items := [⟨"title", none⟩, ⟨"rev", some .sum⟩, ⟨"stb", some .collect⟩]

/-- The views with the chosen fields only. -/
def chosenFilmViews : List Record := filmViews.map (Record.narrow boxesByTitle.fields)

/-- The views are grouped into one row for each film, and the boxes stand in the order of the
    views. -/
theorem row_per_value_filmViews :
    ∃ grouped, boxesByTitle.step (filmViews.map .ok)
        ⟨[], some chosenFilmViews⟩ ⟨"title", .group "title"⟩ = .ok ⟨[], some grouped⟩ ∧
      grouped.map Record.cells = [["cars", "0.25", "[b1]"], ["up", "3.00", "[b2,b1]"]] := by
  have made : Plan.make .mediaViews boxesByTitle.query = .ok boxesByTitle := by rfl
  have follow : Follows .mediaViews (filmViews.map .ok) := by
    refine follows_map_ok fun r hr => ?_
    simp only [filmViews, List.mem_cons, List.not_mem_nil, or_false] at hr
    rcases hr with rfl | rfl | rfl <;> exact Record.schema_parse _ _
  have place : boxesByTitle.query.commands
      = [⟨"title,rev:sum,stb:collect", .select boxesByTitle.items⟩] ++
        ⟨"title", .group "title"⟩ :: [] := by rfl
  have reached : [⟨"title,rev:sum,stb:collect", .select boxesByTitle.items⟩].foldlM
      (boxesByTitle.step (filmViews.map .ok)) ⟨[], none⟩ = .ok ⟨[], some chosenFilmViews⟩ := by rfl
  obtain ⟨values, ascending, members, grouping, -⟩ :=
    row_per_value made (by decide) follow place reached
  -- the titles are those that the views have, in ascending order
  obtain rfl : values = ["cars", "up"] := by
    have titles : chosenFilmViews.map (Record.valueOf · "title") = ["up", "cars", "up"] := by
      decide +kernel
    refine eq_of_ascending (ascending.imp encode_lt_encode_iff.mp) (by decide) fun v => ?_
    rw [members, ← List.mem_map (f := (Record.valueOf · "title")), titles]
    grind
  have hfolds : groupFolds .mediaViews boxesByTitle.items "title" chosenFilmViews ["cars", "up"]
      = [.ok "0.25", .ok "[b1]", .ok "3.00", .ok "[b2,b1]"] := by decide +kernel
  obtain ⟨grouped, eq, hgrouped, -⟩ := grouping (by simp [hfolds, Succeed])
  refine ⟨grouped, eq, ?_⟩
  cases hgrouped with | cons first hgrouped =>
  cases hgrouped with | cons second hgrouped =>
  cases hgrouped
  -- a row shows its title and the folds that its group has
  have cells (v revenue boxes : String) {row : Record}
      (h : GroupRow boxesByTitle "title" chosenFilmViews v row)
      (hv : folds .mediaViews boxesByTitle.items (withValue "title" chosenFilmViews v)
        = [.ok revenue, .ok boxes]) :
      row.cells = [v, revenue, boxes] := by
    obtain ⟨_, ⟨⟩, hrev⟩ := h.folds_eq ⟨"rev", some .sum⟩ (by decide) (by decide)
    obtain ⟨_, ⟨⟩, hstb⟩ := h.folds_eq ⟨"stb", some .collect⟩ (by decide) (by decide)
    have hparts : [Except.ok (row.valueOf "rev"), .ok (row.valueOf "stb")]
        = [Except.ok revenue, (.ok boxes : Except StoreError String)] := by
      rw [← hrev, ← hstb]
      exact hv
    cases hparts
    rw [Record.cells, h.shown]
    exact congrArg (· :: _) h.key_eq
  have hcars := cells "cars" "0.25" "[b1]" first (by decide +kernel)
  have hup := cells "up" "3.00" "[b2,b1]" second (by decide +kernel)
  rw [List.map_cons, List.map_cons, hcars, hup]
  rfl

end Grouped

/-! ## Filtering by the field that is grouped by

    Rows may be grouped and the groups filtered, or the rows filtered and what is left grouped.  In
    general these are different questions, since a filter on a field that is folded finds the fold
    in the one case and the values in the other.  A filter that looks at nothing but the field
    grouped by asks the same both times: it holds of all rows of a group or of none, and of the row
    of the group as of these.  But the folds of the groups that are dropped are made in the first
    case only, so in the second there are fewer that can fail.  The route:

    * `OnKey.holds_congr`: such a filter does not tell rows with the same value apart;
    * `groupRows_filter`: the groups of the rows it keeps are the groups it keeps;
    * `accepted_iff_of_select`, `run_of_select_eq_ok_iff`: a query that begins with the choice of
      fields, when it is accepted and when its run succeeds;
    * `groupThenFilter`, `filterThenGroup`, and what each of the two gives;
    * `key_filter_commutes`: what the first query gives the second gives as well. -/

section KeyFilter

variable {schema : Schema} {items : List SelectItem} {key : String} {condition : Filter}
  {rows grouped : List Record}

/-! ### Groups that a filter keeps -/

/-- A filter that compares no other field than the one grouped by. -/
def OnKey (key : String) (condition : Filter) : Prop := ∀ name ∈ condition.fields, name = key

instance (key : String) (condition : Filter) : Decidable (OnKey key condition) :=
  inferInstanceAs (Decidable (∀ name ∈ condition.fields, name = key))

/-- A filter on the key does not tell rows with the same value apart. -/
theorem OnKey.holds_congr {r r' : Record} (onKey : OnKey key condition)
    (hschema : r.schema = r'.schema) (h : r.valueOf key = r'.valueOf key) :
    condition.holds r = condition.holds r' :=
  Filter.holds_congr fun name hn => onKey name hn ▸ Record.get_congr hschema h

/-- The rows of groups are rows of the schema. -/
theorem schema_of_mem_groupRows (suits : Suits schema items (.group key))
    (follow : ∀ r ∈ rows, r.schema = schema) (h : groupRows schema items key rows = .ok grouped) :
    ∀ r ∈ grouped, r.schema = schema := by
  have ends : Ends _ _ (groupRows schema items key rows) := groupRows_ends suits follow
  rwa [h] at ends

/-- **The groups of the rows that the filter keeps are the groups that it keeps**, if none of the
    folds fails. -/
theorem groupRows_filter (onKey : OnKey key condition) (suits : Suits schema items (.group key))
    (follow : ∀ r ∈ rows, r.schema = schema)
    (h : groupRows schema items key rows = .ok grouped) :
    groupRows schema items key (rows.filter condition.holds)
      = .ok (grouped.filter condition.holds) := by
  obtain ⟨⟨hkey, -⟩, hitems⟩ := suits
  have known : ∀ name ∈ [key], name ∈ schema.names := List.forall_mem_singleton.mpr hkey
  obtain ⟨i, hi⟩ := Schema.position_of_mem hkey
  have hposition := Schema.position_eq_ok_iff.mp hi
  obtain ⟨sorted, hsorted, stable⟩ := orderRows_stablySorted known follow
  have hfollow : ∀ r ∈ sorted, r.schema = schema :=
    fun r hr => follow r (stable.perm.mem_iff.mp hr)
  have hkept : orderRows schema [key] (rows.filter condition.holds)
      = .ok (sorted.filter condition.holds) :=
    orderRows_eq_ok known (fun r hr => follow r (List.mem_filter.mp hr).1) (stable.filter _)
  have hruns : runs i (sorted.filter condition.holds)
      = (runs i sorted).filter (condition.holds ·.1) := by
    refine runs_filter (stable.ascending_value hposition follow) fun a ha b hb same => ?_
    refine onKey.holds_congr ((hfollow a ha).trans (hfollow b hb).symm) ?_
    rwa [Record.valueOf, Record.valueOf, hfollow a ha, hfollow b hb, hposition]
  rw [groupRows, hsorted, hi] at h
  rw [groupRows, hkept, hi]
  show (runs i (sorted.filter condition.holds)).mapM _ = _
  rw [hruns]
  refine mapM_filter ?_ h
  rintro ⟨first, others⟩ hrun row hrow
  -- the row of a group has the value that the first row of the group has
  have hfirst : first.schema = schema := hfollow _ (mem_of_mem_runs hrun _ List.mem_cons_self)
  have made : MadeOf _ _ (foldItems schema (first :: others) items first) :=
    foldItems_madeOf hitems hfirst
  have hrow : foldItems schema (first :: others) items first = .ok row := hrow
  rw [hrow] at made
  obtain ⟨-, folded⟩ := made
  exact onKey.holds_congr folded.schema_eq (folded.key_eq hitems)

/-! ### The two queries -/

/-- Choosing fields, then grouping by one of them, then filtering the groups. -/
def groupThenFilter (items : List SelectItem) (key : String) (condition : Filter)
    (s g f : String) : Query :=
  ofCommands [⟨s, .select items⟩, ⟨g, .group key⟩, ⟨f, .filter condition⟩]

/-- Choosing fields, then filtering the rows, then grouping those that are left. -/
def filterThenGroup (items : List SelectItem) (key : String) (condition : Filter)
    (s f g : String) : Query :=
  ofCommands [⟨s, .select items⟩, ⟨f, .filter condition⟩, ⟨g, .group key⟩]

section Select

variable {plan : Plan} {source : Source} {args : String} {commands : List Command}

/-- The plan of a query that chooses fields before all else has these fields. -/
theorem eq_of_make_select
    (made : Plan.make schema (ofCommands (⟨args, .select items⟩ :: commands)) = .ok plan) :
    plan = ⟨schema, ofCommands (⟨args, .select items⟩ :: commands), items⟩ := by
  obtain ⟨rfl, hquery, checked⟩ := Plan.make_eq_ok_iff.mp made
  obtain ⟨schema, query, items'⟩ := plan
  obtain rfl : query = _ := hquery
  obtain rfl : items = items' := Option.some.inj checked.select
  rfl

/-- Such a query is accepted exactly when the fields are known and each of the other commands suits
    them. -/
theorem accepted_iff_of_select :
    (∃ plan, Plan.make schema (ofCommands (⟨args, .select items⟩ :: commands)) = .ok plan) ↔
      (∀ item ∈ items, item.field ∈ schema.names) ∧
        ∀ command ∈ commands, Suits schema items command.stage := by
  constructor
  · rintro ⟨plan, made⟩
    obtain rfl := eq_of_make_select made
    obtain ⟨-, -, checked⟩ := Plan.make_eq_ok_iff.mp made
    exact ⟨checked.known, (List.forall_mem_cons.mp checked.suits).2⟩
  · rintro ⟨known, suits⟩
    let plan : Plan := ⟨schema, ofCommands (⟨args, .select items⟩ :: commands), items⟩
    have checked : plan.Checked :=
      ⟨rfl, fun _ h => (nomatch h), known, List.forall_mem_cons.mpr ⟨trivial, suits⟩⟩
    exact ⟨plan, Plan.make_eq_ok_iff.mpr ⟨rfl, rfl, checked⟩⟩

/-- When a run of such a query succeeds, the records are read and narrowed, and the other commands
    succeed on these. -/
theorem run_of_select_eq_ok_iff {table : Table}
    (made : Plan.make schema (ofCommands (⟨args, .select items⟩ :: commands)) = .ok plan)
    (follow : Follows schema source) :
    plan.run source = .ok table ↔ ∃ records, collect source = .ok records ∧
      plan.resume source commands
        ⟨[], some (records.map (Record.narrow (items.map (·.field))))⟩ = .ok table := by
  obtain ⟨known, -⟩ := accepted_iff_of_select.mp ⟨plan, made⟩
  obtain rfl := eq_of_make_select made
  have hselect : selectRows (items.map (·.field)) [] source = (collect source).map fun records =>
      records.map (Record.narrow (items.map (·.field))) := by
    rw [selectRows_eq follow (List.forall_mem_map.mpr known) (by simp)]
    simp only [filter_holdAll_nil]
  rw [Plan.run_eq_resume]
  show Plan.resume _ source (⟨args, .select items⟩ :: commands) _ = _ ↔ _
  rw [Plan.resume_select]
  show selectRows (items.map (·.field)) [] source >>= _ = _ ↔ _
  rw [hselect]
  cases collect source with
  | error e =>
      refine iff_of_false ?_ ?_
      · rintro ⟨⟩
      · rintro ⟨_, ⟨⟩, _⟩
  | ok records =>
      refine ⟨fun h => ⟨records, rfl, h⟩, ?_⟩
      rintro ⟨_, ⟨⟩, h⟩
      exact h

/-- Records are narrowed to rows of their schema. -/
theorem Follows.schema_of_mem_narrow {records : List Record} {names : List String}
    (follow : Follows schema source) (read : collect source = .ok records) :
    ∀ row ∈ records.map (Record.narrow names), row.schema = schema :=
  List.forall_mem_map.mpr (follow.schema_of_mem read)

/-- A filter that suits the chosen fields keeps the rows that it holds of. -/
theorem resume_filter_of_suits {pending : List Filter}
    (suits : Suits schema items (.filter condition)) (follow : ∀ r ∈ rows, r.schema = schema) :
    plan.resume source (⟨args, .filter condition⟩ :: commands) ⟨pending, some rows⟩
      = plan.resume source commands ⟨pending, some (rows.filter condition.holds)⟩ := by
  have known : ∀ r ∈ rows, ∀ name ∈ condition.fields, name ∈ r.schema.names := by
    intro r hr name hn
    rw [follow r hr]
    exact (suits name hn).1
  rw [Plan.resume_filter, filterRows_eq known]
  rfl

end Select

section Both

variable {plan : Plan} {source : Source} {table : Table} {s g f : String}

/-- Both queries are accepted under the same conditions. -/
theorem accepted_groupThenFilter_iff (s g f s' f' g' : String) :
    (∃ plan, Plan.make schema (groupThenFilter items key condition s g f) = .ok plan) ↔
      ∃ plan, Plan.make schema (filterThenGroup items key condition s' f' g') = .ok plan := by
  rw [groupThenFilter, filterThenGroup, accepted_iff_of_select, accepted_iff_of_select]
  simp only [List.forall_mem_cons, List.not_mem_nil, false_implies, implies_true, and_true]
  exact and_congr_right fun _ => and_comm

/-- The first query groups the narrowed records and keeps what the filter holds of. -/
theorem run_groupThenFilter_eq_ok_iff
    (made : Plan.make schema (groupThenFilter items key condition s g f) = .ok plan)
    (follow : Follows schema source) :
    plan.run source = .ok table ↔ ∃ records grouped, collect source = .ok records ∧
      groupRows schema items key (records.map (Record.narrow (items.map (·.field))))
        = .ok grouped ∧ ⟨plan.columns, grouped.filter condition.holds⟩ = table := by
  obtain ⟨-, hsuits⟩ := accepted_iff_of_select.mp ⟨plan, made⟩
  obtain ⟨suits, hothers⟩ := List.forall_mem_cons.mp hsuits
  rw [run_of_select_eq_ok_iff made follow]
  obtain rfl := eq_of_make_select made
  refine exists_congr fun records => ?_
  rw [exists_and_left]
  refine and_congr_right fun read => ?_
  rw [Plan.resume_group, bind_eq_ok_iff]
  refine exists_congr fun grouped => and_congr_right fun hgrouped => ?_
  rw [resume_filter_of_suits (hothers _ List.mem_cons_self)
    (schema_of_mem_groupRows suits (follow.schema_of_mem_narrow read) hgrouped),
    Plan.resume_nil_some, Except.ok.injEq]

/-- The second query keeps the narrowed records that the filter holds of and groups these. -/
theorem run_filterThenGroup_eq_ok_iff
    (made : Plan.make schema (filterThenGroup items key condition s f g) = .ok plan)
    (follow : Follows schema source) :
    plan.run source = .ok table ↔ ∃ records grouped, collect source = .ok records ∧
      groupRows schema items key
          ((records.map (Record.narrow (items.map (·.field)))).filter condition.holds)
        = .ok grouped ∧ ⟨plan.columns, grouped⟩ = table := by
  obtain ⟨-, hsuits⟩ := accepted_iff_of_select.mp ⟨plan, made⟩
  rw [run_of_select_eq_ok_iff made follow]
  obtain rfl := eq_of_make_select made
  refine exists_congr fun records => ?_
  rw [exists_and_left]
  refine and_congr_right fun read => ?_
  rw [resume_filter_of_suits (hsuits _ List.mem_cons_self)
    (follow.schema_of_mem_narrow read), Plan.resume_group, bind_eq_ok_iff]
  refine exists_congr fun grouped => and_congr_right fun _ => ?_
  rw [Plan.resume_nil_some, Except.ok.injEq]

end Both

/-- **A filter on the field that is grouped by may stand before the grouping or behind it.**  Let a
    query choose fields, group by one of them and filter the groups by a condition on this field
    alone, and let another filter the rows by this condition before it groups them.  One is accepted
    when the other is; and on every source of records of the schema, when the first succeeds the
    second does and gives the same table, folds included. -/
theorem key_filter_commutes (schema : Schema) (items : List SelectItem) (key : String)
    (condition : Filter) (onKey : OnKey key condition) (s g f s' f' g' : String) :
    ((∃ plan, Plan.make schema (groupThenFilter items key condition s g f) = .ok plan) ↔
      ∃ plan, Plan.make schema (filterThenGroup items key condition s' f' g') = .ok plan) ∧
    ∀ plan plan' source table,
      Plan.make schema (groupThenFilter items key condition s g f) = .ok plan →
      Plan.make schema (filterThenGroup items key condition s' f' g') = .ok plan' →
      Follows schema source → plan.run source = .ok table → plan'.run source = .ok table := by
  refine ⟨accepted_groupThenFilter_iff s g f s' f' g', ?_⟩
  intro plan plan' source table made made' follow success
  obtain ⟨-, hsuits⟩ := accepted_iff_of_select.mp ⟨plan, made⟩
  have suits : Suits schema items (.group key) := hsuits _ List.mem_cons_self
  obtain ⟨records, grouped, read, hgrouped, rfl⟩ :=
    (run_groupThenFilter_eq_ok_iff made follow).mp success
  refine (run_filterThenGroup_eq_ok_iff made' follow).mpr
    ⟨records, grouped.filter condition.holds, read, ?_, ?_⟩
  · exact groupRows_filter onKey suits (follow.schema_of_mem_narrow read) hgrouped
  · -- the columns are those of the chosen fields in both
    rw [eq_of_make_select made, eq_of_make_select made']
    rfl

/-- One film of the two, filtered behind the grouping. -/
def filmBehind : Plan where
  schema := .mediaViews
  query := groupThenFilter boxesByTitle.items "title" (.equals "title" "up") "" "" ""
  items := boxesByTitle.items

/-- The same film, filtered before the grouping. -/
def filmBefore : Plan where
  schema := .mediaViews
  query := filterThenGroup boxesByTitle.items "title" (.equals "title" "up") "" "" ""
  items := boxesByTitle.items

/-- The row of a line with the chosen fields only. -/
def chosenRow (line : String) : Record := (Record.parse .mediaViews line).narrow boxesByTitle.fields

/-- The revenue and the boxes of the film. -/
def filmTable : Table := ⟨boxesByTitle.columns, [chosenRow "[b2,b1]|up|||3.00"]⟩

/-- When the views are filtered before they are grouped, the row comes out that is left when the
    groups are filtered. -/
theorem key_filter_commutes_filmViews :
    Plan.make .mediaViews filmBehind.query = .ok filmBehind ∧
      Plan.make .mediaViews filmBefore.query = .ok filmBefore ∧
      filmBehind.run (filmViews.map .ok) = .ok filmTable ∧
      filmBefore.run (filmViews.map .ok) = .ok filmTable := by
  have behind : Plan.make .mediaViews filmBehind.query = .ok filmBehind := by rfl
  have before : Plan.make .mediaViews filmBefore.query = .ok filmBefore := by rfl
  have follow : Follows .mediaViews (filmViews.map .ok) := follows_map_ok (by decide +kernel)
  have hsorted : orderRows .mediaViews ["title"] chosenFilmViews
      = .ok [chosenRow "b1|cars|||0.25", chosenRow "b2|up|||1.50", chosenRow "b1|up|||1.5"] :=
    orderRows_eq_ok (by decide) (by decide +kernel) (by decide +kernel)
  have hgrouped : groupRows .mediaViews boxesByTitle.items "title" chosenFilmViews
      = .ok [chosenRow "[b1]|cars|||0.25", chosenRow "[b2,b1]|up|||3.00"] := by
    rw [groupRows, hsorted]
    decide +kernel
  have success : filmBehind.run (filmViews.map .ok) = .ok filmTable :=
    (run_groupThenFilter_eq_ok_iff behind follow).mpr
      ⟨filmViews, _, collect_map_ok filmViews, hgrouped, by decide +kernel⟩
  have commutes := (key_filter_commutes .mediaViews boxesByTitle.items "title"
    (.equals "title" "up") (by decide) "" "" "" "" "" "").2
  exact ⟨behind, before, success, commutes _ _ _ _ behind before follow success⟩

end KeyFilter

end RecordStore.Query
